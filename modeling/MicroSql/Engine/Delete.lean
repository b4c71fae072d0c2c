import MicroSql.Engine.Update

/-!
# DELETE and SELECT *

DELETE and SELECT * under the same condition read the same rows in the same order.  They fail
together; when they succeed DELETE removes the rows that SELECT * shows, and no others.
-/

namespace MicroSql

open Lib

/-- `SELECT * FROM t WHERE p`, for the table and the condition of a statement. -/
def selectWhere (pr : ParseResult) : ParseResult where
  expressions := pr.expressions
  statement := { kind := .select, tableName := pr.statement.tableName,
                 whereIndex := pr.statement.whereIndex }

theorem whereMatches_selectWhere (pr : ParseResult) (row : Row) (columns : List Str) :
    whereMatches (selectWhere pr) row columns = whereMatches pr row columns := by
  have hexpr : (selectWhere pr).expressions = pr.expressions := rfl
  unfold whereMatches
  simp only [evalWhere_congr hexpr, expression_congr hexpr]
  rfl

namespace Engine

variable {w : Engine} {pr : ParseResult} {t : TableSchema}

/-- `SELECT *` under a condition filters the live rows. -/
theorem Inv.selectWhere (h : Inv GoodTable w)
    (hfind : w.catalog.findTable pr.statement.tableName = some t) :
    (execSelect (MicroSql.selectWhere pr) w).1 = do
      let found ← selectFrom (whereMatches pr · t.columnNames) ((w.rows t).map .ok)
      return { columns := t.columnNames, rows := found } := by
  obtain ⟨-, hp, hgood⟩ := h.stores hfind
  have hfind' : w.catalog.findTable (MicroSql.selectWhere pr).statement.tableName = some t :=
    hfind
  have hcols : selectedColumns (MicroSql.selectWhere pr) t.columnNames = .ok t.columnNames := rfl
  rw [h.select_eq hfind', hcols, ok_bind, Engine.stored, storedRows_eq hp hgood.pages]
  simp only [whereMatches_selectWhere]
  rfl

/-- DELETE counts the rows that `SELECT *` shows. -/
theorem Inv.delete_eq (h : Inv GoodTable w)
    (hfind : w.catalog.findTable pr.statement.tableName = some t) :
    (execDelete pr w).1 = countFrom (whereMatches pr · t.columnNames) 0 (w.rows t) := by
  obtain ⟨-, hp, hgood⟩ := h.stores hfind
  rw [((h.runs_delete pr).ran_of_find hfind).1, deleteRows_count hp hgood.pages]
  rfl

end Engine

/-- The rows that a successful DELETE leaves. -/
theorem Rewrites.deleteAction {pr : ParseResult} {columns : Schema} {old new : List Row} {n : ℕ}
    (h : Rewrites (deleteAction pr columns) old new n) :
    new = old.filter fun row =>
      decide (whereMatches pr row (columns.map (·.name)) ≠ .ok true) := by
  obtain ⟨outs, hmap, rfl, -⟩ := h
  have hall := mapM_eq_ok.1 hmap
  clear hmap
  induction hall with
  | nil => rfl
  | @cons row out rows outs hact _ ih =>
    obtain ⟨shouldDelete, hmatch, hout⟩ := bind_eq_ok.1 hact
    rw [List.map_cons, List.filter_cons, hmatch]
    cases shouldDelete with
    | true =>
      cases hout
      exact ih
    | false =>
      cases hout
      exact congrArg (row :: ·) ih

theorem delete_rows {w : Engine} (h : Reachable EncodesWithin w) {pr : ParseResult}
    {t : TableSchema} (hfind : w.catalog.findTable pr.statement.tableName = some t) {n : ℕ}
    (hok : (execDelete pr w).1 = .ok n) :
    (execDelete pr w).2.catalog = w.catalog ∧
      (execDelete pr w).2.rows t = (w.rows t).filter fun row =>
        decide (whereMatches pr row t.columnNames ≠ .ok true) := by
  obtain ⟨-, hp, hgood⟩ := h.good.stores hfind
  obtain ⟨hr, hc⟩ := (h.good.runs_delete pr).ran_of_find hfind
  have hrule : Prog.Spec _ (deleteRows (pageArray w.fs.limit) pr t.columns) _ _ :=
    deleteRows_rows hp hgood.pages hgood.keys
  have hdone := hrule.ok rfl (Prod.ext (hr.symm.trans hok) rfl)
  refine ⟨hc.catalog_eq, ?_⟩
  rw [Engine.rows, Engine.rows, hc.pages_eq]
  exact hdone.rewrites.deleteAction

/-- A DELETE that fails has passed some of the rows, and the rest is as it was. -/
theorem delete_stops {w : Engine} (h : Reachable EncodesWithin w) {pr : ParseResult}
    {t : TableSchema} (hfind : w.catalog.findTable pr.statement.tableName = some t)
    {e : Failure ExecError} (herr : (execDelete pr w).1 = .error e) :
    ∃ done rest, w.rows t = done ++ rest ∧ (execDelete pr w).2.rows t =
      (done.filter fun row => decide (whereMatches pr row t.columnNames ≠ .ok true)) ++ rest := by
  obtain ⟨-, hp, hgood⟩ := h.good.stores hfind
  obtain ⟨hr, hc⟩ := (h.good.runs_delete pr).ran_of_find hfind
  have hrule : Prog.Spec _ (deleteRows (pageArray w.fs.limit) pr t.columns) _ _ :=
    deleteRows_rows hp hgood.pages hgood.keys
  obtain ⟨k, n, -, -, hdone⟩ := hrule.error rfl (Prod.ext (hr.symm.trans herr) rfl)
  refine ⟨liveRows t.columns ((w.pages t).take k), liveRows t.columns ((w.pages t).drop k), ?_, ?_⟩
  · rw [← liveRows_append, List.take_append_drop, Engine.rows]
  · have hpassed := hdone.done.deleteAction
    rw [← TableSchema.columnNames] at hpassed
    rw [← hpassed, ← hdone.rest, ← liveRows_append, List.take_append_drop, Engine.rows,
      hc.pages_eq]

/-- A condition that is evaluated on some of the rows only. -/
theorem selectFrom_filter {p : Row → Expected ExecError Bool} {rows found : List Row}
    (h : selectFrom p (rows.map .ok) = .ok found) :
    selectFrom p ((rows.filter fun row => decide (p row ≠ .ok true)).map .ok) = .ok [] := by
  obtain ⟨hall, -⟩ := selectFrom_eq_ok.1 h
  refine selectFrom_eq_ok.2 ⟨?_, ?_⟩
  · intro read hread
    obtain ⟨row, hrow, rfl⟩ := List.mem_map.1 hread
    exact hall _ (List.mem_map_of_mem (List.mem_of_mem_filter hrow))
  · rw [oks_map_ok, List.filter_filter, eq_comm, List.filter_eq_nil_iff]
    intro row _ hboth
    obtain ⟨htrue, hne⟩ := Bool.and_eq_true_iff.1 hboth
    exact of_decide_eq_true hne (of_decide_eq_true htrue)

/-- A SELECT that succeeds has found the value of the condition on all rows. -/
theorem decided_of_selectFrom {p : Row → Expected ExecError Bool} {rows found : List Row}
    (hfound : selectFrom p (rows.map .ok) = .ok found) : ∀ row ∈ rows, ∃ m, p row = .ok m := by
  intro row hrow
  obtain ⟨_, m, hread, hm⟩ := (selectFrom_eq_ok.1 hfound).1 _ (List.mem_map_of_mem hrow)
  cases hread
  exact ⟨m, hm⟩

/-- DELETE removes what `SELECT *` under the same condition shows.  They fail together.  If DELETE
succeeds, its count is the number of rows that `SELECT *` returns, the other rows stay in their
order, and no row is left on which the condition is true. -/
structure DeletesSelected (pr : ParseResult) (w : Engine) (t : TableSchema) : Prop where
  fails : (∃ e, (execDelete pr w).1 = .error e) ↔ ∃ e, (execSelect (selectWhere pr) w).1 = .error e
  deletes : ∀ n, (execDelete pr w).1 = .ok n → ∃ found,
    (execSelect (selectWhere pr) w).1 = .ok { columns := t.columnNames, rows := found } ∧
    n = found.length ∧
    found = (w.rows t).filter (fun row =>
      decide (whereMatches pr row t.columnNames = .ok true)) ∧
    (execSelect (selectStar pr.statement.tableName) (execDelete pr w).2).1 =
      .ok { columns := t.columnNames,
            rows := (w.rows t).filter fun row =>
              decide (whereMatches pr row t.columnNames ≠ .ok true) } ∧
    (execSelect (selectWhere pr) (execDelete pr w).2).1 =
      .ok { columns := t.columnNames, rows := [] } ∧
    (execDelete pr (execDelete pr w).2).1 = .ok 0

section Deletes

variable {w : Engine} (h : Reachable EncodesWithin w) {pr : ParseResult} {t : TableSchema}
  (hfind : w.catalog.findTable pr.statement.tableName = some t)

include h hfind

/-- `SELECT *` and DELETE when the condition has a value on all rows. -/
theorem selects_of_decided
    (hall : ∀ row ∈ w.rows t, ∃ m, whereMatches pr row t.columnNames = .ok m) :
    ∃ found, selectFrom (whereMatches pr · t.columnNames) ((w.rows t).map .ok) = .ok found ∧
      (execSelect (selectWhere pr) w).1 = .ok { columns := t.columnNames, rows := found } ∧
      (execDelete pr w).1 = if w.matching pr t < 2 ^ 31 then .ok found.length
        else .error (.fault .signedOverflow) := by
  have hfound : selectFrom (whereMatches pr · t.columnNames) ((w.rows t).map .ok) =
      .ok ((w.rows t).filter fun row =>
        decide (whereMatches pr row t.columnNames = .ok true)) := by
    refine selectFrom_eq_ok.2 ⟨?_, ?_⟩
    · intro read hread
      obtain ⟨row, hrow, rfl⟩ := List.mem_map.1 hread
      obtain ⟨m, hm⟩ := hall row hrow
      exact ⟨row, m, rfl, hm⟩
    · rw [oks_map_ok]
  refine ⟨_, hfound, ?_, ?_⟩
  · rw [h.good.selectWhere hfind, hfound]
    rfl
  · rw [h.good.delete_eq hfind, countFrom_of_selectFrom_ok (Nat.two_pow_pos 31) hfound,
      Nat.zero_add, Engine.matching, List.countP_eq_length_filter]

theorem deletesSelected_of_lt (hkind : pr.statement.kind = .delete) {found : List Row}
    (hfound : selectFrom (whereMatches pr · t.columnNames) ((w.rows t).map .ok) = .ok found)
    (hlt : w.matching pr t < 2 ^ 31) : DeletesSelected pr w t := by
  obtain ⟨found', hfound', hshows, hcount⟩ :=
    selects_of_decided h hfind (decided_of_selectFrom hfound)
  obtain rfl : found' = found := Except.ok.inj (hfound'.symm.trans hfound)
  rw [if_pos hlt] at hcount
  refine ⟨iff_of_false ?_ ?_, fun n hok => ?_⟩
  · rintro ⟨e, he⟩
    rw [hcount] at he
    cases he
  · rintro ⟨e, he⟩
    rw [hshows] at he
    cases he
  obtain ⟨hcat, hrows⟩ := delete_rows h hfind hok
  -- the statement has succeeded, so the engine it leaves is reachable
  have hwithin : EncodesWithin pr w := by
    rw [EncodesWithin, executeWith_delete hkind hok]
    intro hc
    cases hc
  have hinv := (h.execute pr hwithin).good
  rw [Engine.after_delete hkind] at hinv
  have hfind' : (execDelete pr w).2.catalog.findTable pr.statement.tableName = some t := by
    rw [hcat, hfind]
  have hnone := selectFrom_filter hfound
  refine ⟨found', hshows, ?_, ?_, ?_, ?_, ?_⟩
  · exact Except.ok.inj (hok.symm.trans hcount)
  · rw [(selectFrom_eq_ok.1 hfound).2, oks_map_ok]
  · rw [hinv.selectStar hfind', hrows]
  · rw [hinv.selectWhere hfind', hrows, hnone]
    rfl
  · rw [hinv.delete_eq hfind', hrows,
      countFrom_of_selectFrom_ok (Nat.two_pow_pos 31) hnone]
    rfl

end Deletes

/-- **DELETE removes what SELECT * shows**, as long as the rows can be counted.  Both evaluate the
condition on the live rows, in order, up to the first failure; SELECT collects the rows for which it
holds, DELETE counts them in an `int`. -/
theorem delete_removes_selected_iff {w : Engine} (h : Reachable EncodesWithin w)
    {pr : ParseResult} (hkind : pr.statement.kind = .delete) {t : TableSchema}
    (hfind : w.catalog.findTable pr.statement.tableName = some t) :
    (execSelect (selectStar pr.statement.tableName) w).1 =
      .ok { columns := t.columnNames, rows := w.rows t } ∧
    (execSelect (selectWhere pr) w).1 = (do
      let found ← selectFrom (whereMatches pr · t.columnNames) ((w.rows t).map .ok)
      return { columns := t.columnNames, rows := found }) ∧
    (execDelete pr w).1 = countFrom (whereMatches pr · t.columnNames) 0 (w.rows t) ∧
    (w.matching pr t < 2 ^ 31 → (execDelete pr w).1 =
      List.length <$> selectFrom (whereMatches pr · t.columnNames) ((w.rows t).map .ok)) ∧
    (DeletesSelected pr w t ↔
      ((∀ row ∈ w.rows t, ∃ m, whereMatches pr row t.columnNames = .ok m) →
        w.matching pr t < 2 ^ 31)) := by
  have hselect := h.good.selectWhere hfind
  have hdelete := h.good.delete_eq hfind
  refine ⟨h.good.selectStar hfind, hselect, hdelete, fun hlt => ?_, ⟨fun hdel hall => ?_,
    fun hcond => ?_⟩⟩
  · rw [hdelete, countFrom_eq (by rw [Nat.zero_add]; exact hlt)]
    simp only [Nat.zero_add]
  · -- DELETE would fail where SELECT does not
    obtain ⟨found, -, hshows, hcount⟩ := selects_of_decided h hfind hall
    by_contra hmany
    rw [if_neg hmany] at hcount
    obtain ⟨e, he⟩ := hdel.fails.1 ⟨_, hcount⟩
    rw [hshows] at he
    cases he
  · rcases hfound : selectFrom (whereMatches pr · t.columnNames) ((w.rows t).map .ok) with
      e | found
    · have hfails : ∃ e, (execDelete pr w).1 = .error e := by
        rw [hdelete]
        rcases countFrom_of_selectFrom_error hfound with hfail | hfail <;> exact ⟨_, hfail⟩
      refine ⟨iff_of_true hfails ⟨e, ?_⟩, fun n hok => ?_⟩
      · rw [hselect, hfound]
        rfl
      · obtain ⟨e', he'⟩ := hfails
        rw [hok] at he'
        cases he'
    · exact deletesSelected_of_lt h hfind hkind hfound (hcond (decided_of_selectFrom hfound))

/-- `DELETE FROM t WHERE a = 1` -/
def sampleDelete : ParseResult where
  expressions := [.columnRef [] (str "a"), .literalInt 1, .binary .equal 0 1]
  statement := { kind := .delete, tableName := str "t", whereIndex := 2 }

theorem delete_removes_selected_iff_sample :
    (execDelete sampleDelete sampleOne).1 =
      countFrom (whereMatches sampleDelete · sampleTable.columnNames) 0
        (sampleOne.rows sampleTable) ∧
    DeletesSelected sampleDelete sampleOne sampleTable := by
  obtain ⟨-, -, hdelete, -, hiff⟩ := delete_removes_selected_iff sampleOne_oneRow.reachable
    (rfl : sampleDelete.statement.kind = .delete) sampleOne_oneRow.find
  refine ⟨hdelete, hiff.2 fun _ => ?_⟩
  rw [Engine.matching, sampleOne_oneRow.rows_eq]
  decide

/-! ### More rows than an `int` can count -/

/-- A table without a primary key. -/
def plainTable : TableSchema where
  tableName := str "v"
  columns := [{ name := str "a", type := .integer, textLength := 255 }]
  filePath := str "v.ms"

/-- `INSERT INTO v VALUES (1)` -/
def plainInsert : ParseResult := insertInto (str "v") [.literalInt 1]

/-- `DELETE FROM v` -/
def plainDelete : ParseResult where
  expressions := []
  statement := { kind := .delete, tableName := str "v" }

/-- A table of `n` such rows. -/
def plainRows : ℕ → Engine
  | 0 => newEngine plainTable
  | n + 1 => (plainRows n).after plainInsert

/-- The file of the table has room for 2147483648 rows. -/
theorem plainRows_holds {n : ℕ} (hn : n ≤ 2 ^ 31) : Reachable EncodesWithin (plainRows n) ∧
    (plainRows n).catalog.findTable (str "v") = some plainTable ∧
    (plainRows n).fs.limit = maxFileSize ∧ ((plainRows n).pages plainTable).length ≤ n + 1 ∧
    ((plainRows n).rows plainTable).length = n := by
  have hpath : plainTable.filePath = tablePath plainTable.tableName := by decide
  induction n with
  | zero =>
    rw [plainRows]
    refine ⟨newEngine_reachable hpath, newEngine_find hpath, newEngine_limit hpath, ?_, ?_⟩
    · rw [newEngine_pages hpath]
      exact le_refl _
    · rw [newEngine_rows hpath]
      rfl
  | succ n ih =>
    obtain ⟨hw, hfind, hlimit, hpages, hrows⟩ := ih (by omega)
    rw [plainRows]
    generalize plainRows n = w at hw hfind hlimit hpages hrows ⊢
    have hspace : (w.pages plainTable).length * pageSize + pageSize ≤ w.fs.limit := by
      rw [hlimit, ← Nat.succ_mul]
      exact Nat.mul_le_mul_right pageSize (by omega)
    have hbytes : serializeRow [.int 1] plainTable.columns = .ok [0, 1, 0, 0, 0, 0, 0, 0, 0] := by
      decide
    obtain ⟨hwithin, hins⟩ := hw.insert (rfl : plainInsert.statement.kind = .insert) hfind rfl
      hbytes (by decide) (by decide) (fun pk v hpk _ => by cases hpk) hspace
    obtain ⟨before, after, hold, hnew⟩ := hins.rows
    refine ⟨hw.execute plainInsert hwithin, ?_, ?_, ?_, ?_⟩
    · rw [hins.catalog_eq, hfind]
    · rw [hins.limit_eq, hlimit]
    · exact hins.stored.length_le.trans (by omega)
    · rw [hnew, List.length_append, List.length_cons, ← Nat.add_assoc, ← List.length_append, ← hold,
        hrows]

/-- DELETE does not delete as many rows as SELECT shows, if an `int` cannot count them. -/
theorem plainDelete_overflows {w : Engine} (hw : Reachable EncodesWithin w)
    (hfind : w.catalog.findTable (str "v") = some plainTable)
    (hrows : 2 ^ 31 ≤ (w.rows plainTable).length) :
    (∃ found, (execSelect (selectWhere plainDelete) w).1 =
        .ok { columns := plainTable.columnNames, rows := found }) ∧
      (execDelete plainDelete w).1 = .error (.fault .signedOverflow) := by
  have hall : ∀ row ∈ w.rows plainTable, ∃ m, whereMatches plainDelete row plainTable.columnNames =
      .ok m := fun row _ => ⟨true, rfl⟩
  obtain ⟨found, -, hshows, hcount⟩ := selects_of_decided hw hfind hall
  have hmany : ¬w.matching plainDelete plainTable < 2 ^ 31 := by
    have hmatching : w.matching plainDelete plainTable = (w.rows plainTable).length :=
      List.countP_eq_length.2 fun row _ => rfl
    rw [hmatching]
    exact Nat.not_lt.2 hrows
  rw [if_neg hmany] at hcount
  exact ⟨⟨found, hshows⟩, hcount⟩

/-- A DELETE of 2147483648 rows fails, and SELECT shows them. -/
theorem delete_many_fails :
    Reachable EncodesWithin (plainRows (2 ^ 31)) ∧
    (plainRows (2 ^ 31)).catalog.findTable plainDelete.statement.tableName = some plainTable ∧
    (execDelete plainDelete (plainRows (2 ^ 31))).1 = .error (.fault .signedOverflow) ∧
    ¬DeletesSelected plainDelete (plainRows (2 ^ 31)) plainTable := by
  obtain ⟨hw, hfind, -, -, hrows⟩ := plainRows_holds (le_refl (2 ^ 31))
  generalize plainRows (2 ^ 31) = w at hw hfind hrows ⊢
  obtain ⟨⟨found, hshows⟩, hfault⟩ := plainDelete_overflows hw hfind hrows.ge
  refine ⟨hw, hfind, hfault, fun hdel => ?_⟩
  obtain ⟨e, he⟩ := hdel.fails.1 ⟨_, hfault⟩
  rw [hshows] at he
  cases he

end MicroSql
