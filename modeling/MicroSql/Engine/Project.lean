import MicroSql.Engine.Insert

/-!
# What a SELECT means

A SELECT is meant to filter the live rows by the condition, evaluated under the columns of
the table, and to project what is left to the selected columns.  `execSelect` returns whole
rows, and it evaluates the condition under the names of the selected columns; here it is
shown when this makes no difference.
-/

namespace MicroSql

open Lib

/-- The live rows of a table that can be read, in page and slot order. -/
def Engine.readable (w : Engine) (t : TableSchema) : List Row := oks (w.stored t)

/-- The select list is `*` or consists of columns of the table, whose names are `names`. -/
inductive SelectsColumns (pr : ParseResult) (t : TableSchema) : List Str → Prop
  | star (hall : pr.statement.selectColumns = []) : SelectsColumns pr t t.columnNames
  | columns {names : List Str} (hne : pr.statement.selectColumns ≠ [])
      (hcols : List.Forall₂ (fun index name =>
        (pr.expression index : Expected ExecError Expression) = .ok (.columnRef [] name) ∧
          name ∈ t.columnNames) pr.statement.selectColumns names) :
      SelectsColumns pr t names

theorem SelectsColumns.selectedColumns {pr : ParseResult} {t : TableSchema} {names : List Str}
    (h : SelectsColumns pr t names) : selectedColumns pr t.columnNames = .ok names := by
  unfold MicroSql.selectedColumns
  cases h with
  | star hall => rw [if_pos hall]
  | columns hne hcols =>
    rw [if_neg hne, mapM_eq_ok]
    refine hcols.imp fun index name h => ?_
    rw [h.1]
    rfl

/-- The statement with the select list `*`. -/
def ParseResult.selectAll (pr : ParseResult) : ParseResult :=
  { pr with statement := { pr.statement with selectColumns := [] } }

/-- Every select list goes with the same condition. -/
theorem whereMatches_selectAll (pr : ParseResult) (row : Row) (columns : List Str) :
    whereMatches pr.selectAll row columns = whereMatches pr row columns := by
  have hexpr : pr.selectAll.expressions = pr.expressions := rfl
  unfold whereMatches
  simp only [evalWhere_congr hexpr, expression_congr hexpr]
  rfl

/-- The condition of the statement is true on a row. -/
def Chooses (pr : ParseResult) (columns : List Str) (row : Row) : Prop :=
  whereMatches pr row columns = .ok true

instance (pr : ParseResult) (columns : List Str) (row : Row) : Decidable (Chooses pr columns row) :=
  inferInstanceAs (Decidable (_ = _))

/-- The values of the columns `names` of a row. -/
def project (columns names : List Str) (row : Row) : Expected ExecError Row :=
  names.mapM (columnValue row columns)

/-- What a SELECT with the output columns `names` is meant to do: it succeeds whatever columns
are selected or for none, chooses the same rows, those for which the condition holds under the
columns of the table, and returns their projections. -/
structure FilterThenProject (w : Engine) (t : TableSchema) (pr : ParseResult) (names : List Str) :
    Prop where
  succeeds : (∃ r, (execSelect pr w).1 = .ok r) ↔ ∃ r, (execSelect pr.selectAll w).1 = .ok r
  chosen : ∀ r, (execSelect pr w).1 = .ok r → ∀ row ∈ w.readable t,
    (Chooses pr names row ↔ Chooses pr t.columnNames row)
  result : ∀ r, (execSelect pr w).1 = .ok r → r.columns = names ∧
    ((w.readable t).filter fun row => Chooses pr t.columnNames row).mapM
      (project t.columnNames names) = .ok r.rows

/-- Whole rows and the names of the selected columns do as well: the condition can be evaluated
under the selected names exactly if it can be evaluated under the columns of the table, and
then it has the same value on every row, and the rows where it is true are their own
projections. -/
structure SelectsAlike (w : Engine) (t : TableSchema) (pr : ParseResult) (names : List Str) :
    Prop where
  decided : Decided (whereMatches pr · names) (w.stored t) ↔
    Decided (whereMatches pr · t.columnNames) (w.stored t)
  alike : Decided (whereMatches pr · t.columnNames) (w.stored t) → ∀ row ∈ w.readable t,
    (Chooses pr names row ↔ Chooses pr t.columnNames row) ∧
      (Chooses pr t.columnNames row → project t.columnNames names row = .ok row)

section Meaning

variable {w : Engine} {t : TableSchema} {pr : ParseResult} {names : List Str}

/-- How a SELECT ends that names columns of its table. -/
theorem execSelect_eq_ok (h : Reachable anyStatement w)
    (hfind : w.catalog.findTable pr.statement.tableName = some t)
    (hnames : SelectsColumns pr t names) {r : Result} :
    (execSelect pr w).1 = .ok r ↔ Decided (whereMatches pr · names) (w.stored t) ∧
      r = { columns := names, rows := (w.readable t).filter fun row => Chooses pr names row } := by
  rw [h.wf.select_eq hfind, hnames.selectedColumns, ok_bind, bind_eq_ok]
  constructor
  · rintro ⟨rows, hrows, heq⟩
    obtain ⟨hdecided, rfl⟩ := selectFrom_eq_ok.1 hrows
    exact ⟨hdecided, (Except.ok.inj heq).symm⟩
  · rintro ⟨hdecided, rfl⟩
    exact ⟨_, selectFrom_eq_ok.2 ⟨hdecided, rfl⟩, rfl⟩

theorem exists_execSelect_eq_ok (h : Reachable anyStatement w)
    (hfind : w.catalog.findTable pr.statement.tableName = some t)
    (hnames : SelectsColumns pr t names) :
    (∃ r, (execSelect pr w).1 = .ok r) ↔ Decided (whereMatches pr · names) (w.stored t) := by
  constructor
  · rintro ⟨r, hr⟩
    exact ((execSelect_eq_ok h hfind hnames).1 hr).1
  · intro hdecided
    exact ⟨_, (execSelect_eq_ok h hfind hnames).2 ⟨hdecided, rfl⟩⟩

theorem exists_selectAll_eq_ok (h : Reachable anyStatement w)
    (hfind : w.catalog.findTable pr.statement.tableName = some t) :
    (∃ r, (execSelect pr.selectAll w).1 = .ok r) ↔
      Decided (whereMatches pr · t.columnNames) (w.stored t) := by
  have hfind' : w.catalog.findTable pr.selectAll.statement.tableName = some t := hfind
  rw [exists_execSelect_eq_ok h hfind' (.star rfl)]
  simp only [whereMatches_selectAll]

/-- If the rows are chosen alike, the same rows are left by both conditions. -/
theorem filter_chooses (halike : ∀ row ∈ w.readable t,
      (Chooses pr names row ↔ Chooses pr t.columnNames row)) :
    ((w.readable t).filter fun row => Chooses pr names row) =
      (w.readable t).filter fun row => Chooses pr t.columnNames row :=
  List.filter_congr fun row hrow => decide_eq_decide.2 (halike row hrow)

theorem FilterThenProject.selectsAlike (h : Reachable anyStatement w)
    (hfind : w.catalog.findTable pr.statement.tableName = some t)
    (hnames : SelectsColumns pr t names) (hmeans : FilterThenProject w t pr names) :
    SelectsAlike w t pr names := by
  have hiff := (exists_execSelect_eq_ok h hfind hnames).symm.trans
    (hmeans.succeeds.trans (exists_selectAll_eq_ok h hfind))
  refine ⟨hiff, fun hdecided row hrow => ?_⟩
  -- the rows that are returned are the chosen rows themselves
  have hr := (execSelect_eq_ok h hfind hnames).2 ⟨hiff.2 hdecided, rfl⟩
  have hchosen := hmeans.chosen _ hr
  obtain ⟨-, hproject⟩ := hmeans.result _ hr
  dsimp only at hproject
  rw [filter_chooses hchosen, mapM_eq_ok, List.forall₂_same] at hproject
  refine ⟨hchosen row hrow, fun hmatch => hproject row ?_⟩
  exact List.mem_filter.2 ⟨hrow, decide_eq_true hmatch⟩

theorem SelectsAlike.filterThenProject (h : Reachable anyStatement w)
    (hfind : w.catalog.findTable pr.statement.tableName = some t)
    (hnames : SelectsColumns pr t names) (halike : SelectsAlike w t pr names) :
    FilterThenProject w t pr names where
  succeeds := (exists_execSelect_eq_ok h hfind hnames).trans
    (halike.decided.trans (exists_selectAll_eq_ok h hfind).symm)
  chosen r hr row hrow := by
    have hdecided := halike.decided.1 ((execSelect_eq_ok h hfind hnames).1 hr).1
    exact (halike.alike hdecided row hrow).1
  result r hr := by
    obtain ⟨hdecided, rfl⟩ := (execSelect_eq_ok h hfind hnames).1 hr
    have hrows := halike.alike (halike.decided.1 hdecided)
    refine ⟨rfl, ?_⟩
    dsimp only
    rw [filter_chooses fun row hrow => (hrows row hrow).1, mapM_eq_ok, List.forall₂_same]
    intro row hrow
    obtain ⟨hrow, hmatch⟩ := List.mem_filter.1 hrow
    exact (hrows row hrow).2 (of_decide_eq_true hmatch)

/-- **When a SELECT filters and projects.**  It does what it is meant to do exactly if whole rows
and the names of the selected columns do as well. -/
theorem filterThenProject_iff (h : Reachable anyStatement w)
    (hfind : w.catalog.findTable pr.statement.tableName = some t)
    (hnames : SelectsColumns pr t names) :
    FilterThenProject w t pr names ↔ SelectsAlike w t pr names := by
  constructor
  · intro hmeans
    exact hmeans.selectsAlike h hfind hnames
  · intro halike
    exact halike.filterThenProject h hfind hnames

/-- A list of other than all columns fails to project as soon as a row is chosen. -/
theorem FilterThenProject.length_eq (h : Reachable anyStatement w)
    (hfind : w.catalog.findTable pr.statement.tableName = some t)
    (hnames : SelectsColumns pr t names) (hmeans : FilterThenProject w t pr names)
    (hdecided : Decided (whereMatches pr · t.columnNames) (w.stored t)) {row : Row}
    (hrow : row ∈ w.readable t) (hmatch : Chooses pr t.columnNames row) :
    names.length = t.columns.length := by
  have hproject := ((hmeans.selectsAlike h hfind hnames).alike hdecided row hrow).2 hmatch
  rw [project, mapM_eq_ok] at hproject
  rw [hproject.length_eq]
  exact length_of_mem_storedRows (mem_oks.1 hrow)

/-- `SELECT *` does what it is meant to do, if no two columns have the same name. -/
theorem filterThenProject_star (h : Reachable anyStatement w)
    (hfind : w.catalog.findTable pr.statement.tableName = some t)
    (hall : pr.statement.selectColumns = []) (hnodup : t.columnNames.Nodup) :
    FilterThenProject w t pr t.columnNames := by
  refine SelectsAlike.filterThenProject h hfind (.star hall)
    ⟨Iff.rfl, fun _ row hrow => ⟨Iff.rfl, fun hmatch => ?_⟩⟩
  have hlen : row.length = t.columnNames.length := by
    rw [length_of_mem_storedRows (mem_oks.1 hrow), TableSchema.columnNames, List.length_map]
  rw [project, mapM_eq_ok, List.forall₂_iff_get]
  refine ⟨hlen.symm, fun i h₁ h₂ => ?_⟩
  -- the name of a column is found where it stands
  have hidx : t.columnNames.idxOf? t.columnNames[i] = some i := by
    refine List.idxOf?_eq_some_iff.2 ⟨h₁, rfl, fun j hj heq => ?_⟩
    have := hnodup.getElem_inj_iff.1 heq
    omega
  rw [List.get_eq_getElem, List.get_eq_getElem, columnValue, hidx]
  dsimp only
  rw [List.getElem?_eq_getElem h₂]

end Meaning

/-! ### A sample -/

/-- `SELECT b FROM t` -/
def sampleSelect : ParseResult where
  expressions := [.columnRef [] (str "b")]
  statement := { kind := .select, tableName := str "t", selectColumns := [0] }

theorem sampleSelect_columns : SelectsColumns sampleSelect sampleTable [str "b"] :=
  .columns (List.cons_ne_nil _ _) (.cons ⟨rfl, by decide⟩ .nil)

theorem sampleOne_readable : sampleOne.readable sampleTable = [[.int 1, .int 10]] := by
  have hone := sampleOne_oneRow
  obtain ⟨-, hp, hgood⟩ := hone.reachable.good.stores hone.find
  rw [Engine.readable, Engine.stored, storedRows_eq hp hgood.pages, oks_map_ok]
  exact hone.rows_eq

theorem filterThenProject_iff_sample :
    FilterThenProject sampleOne sampleTable sampleSelect [str "b"] ↔
      SelectsAlike sampleOne sampleTable sampleSelect [str "b"] := by
  have hfind : sampleOne.catalog.findTable sampleSelect.statement.tableName = some sampleTable :=
    sampleOne_oneRow.find
  exact filterThenProject_iff (sampleOne_oneRow.reachable.mono fun _ _ _ => trivial) hfind
    sampleSelect_columns

/-- `SELECT b FROM t` returns the row `(1, 10)` as it is. -/
theorem select_keeps_columns :
    ¬∀ w pr t names, Reachable anyStatement w →
      w.catalog.findTable pr.statement.tableName = some t → SelectsColumns pr t names →
      FilterThenProject w t pr names := by
  intro hmeans
  have hreach : Reachable anyStatement sampleOne :=
    sampleOne_oneRow.reachable.mono fun _ _ _ => trivial
  have hfind : sampleOne.catalog.findTable sampleSelect.statement.tableName = some sampleTable :=
    sampleOne_oneRow.find
  have hrow : [Value.int 1, .int 10] ∈ sampleOne.readable sampleTable := by
    rw [sampleOne_readable]
    exact List.mem_cons_self
  have hdecided : Decided (whereMatches sampleSelect · sampleTable.columnNames)
      (sampleOne.stored sampleTable) := by
    obtain ⟨-, hp, hgood⟩ := sampleOne_oneRow.reachable.good.stores sampleOne_oneRow.find
    rw [Engine.stored, storedRows_eq hp hgood.pages]
    intro read hread
    obtain ⟨row, -, rfl⟩ := List.mem_map.1 hread
    exact ⟨row, true, rfl, rfl⟩
  have hlen : [str "b"].length = sampleTable.columns.length :=
    FilterThenProject.length_eq hreach hfind sampleSelect_columns
      (hmeans _ _ _ _ hreach hfind sampleSelect_columns) hdecided hrow rfl
  cases hlen

end MicroSql
