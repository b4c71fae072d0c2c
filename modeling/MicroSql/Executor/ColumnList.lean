import MicroSql.Executor.Executor
import MicroSql.Executor.Trees
import MicroSql.Parser.InsertValues

/-!
# The column list of INSERT

With a column list, `rowFromInsertValues` walks the schema and looks every column up in the list.
It does not look at the list itself: a name that no column has, a name given twice and a value
without a name pass unseen, and a name without a value is read past the end of the values.  The
columns alone decide whether the statement is refused.

On a legal list the order of the names does not matter, and the row is that of the statement
without a list that gives the same values in the order of the schema.
-/

namespace MicroSql

open Lib

section List

variable (pr : ParseResult) (columns : Schema)

/-- The list names columns of the table, none of them twice, and has a name for each value. -/
structure LegalList : Prop where
  known : ∀ name ∈ pr.statement.insertColumnNames, name ∈ columns.map (·.name)
  nodup : pr.statement.insertColumnNames.Nodup
  length_eq : pr.statement.insertColumnNames.length = pr.statement.insertValues.length

/-- The row has each value in the column that is named for it, and NULL elsewhere. -/
structure Places (row : Row) : Prop where
  length_eq : row.length = columns.length
  listed : ∀ (i : ℕ) (index : ℤ) (k : ℕ) (col : ColumnDefinition),
    pr.statement.insertColumnNames[i]? = some col.name →
    pr.statement.insertValues[i]? = some index → columns[k]? = some col →
    ∃ v, insertValue pr index = .ok v ∧ row[k]? = some v
  unlisted : ∀ (k : ℕ) (col : ColumnDefinition), columns[k]? = some col →
    col.name ∉ pr.statement.insertColumnNames → row[k]? = some .null

/-- `insertValues[pos]` is read: the columns before it all get a value, and a column comes that is
named at `pos`. -/
def ReadsValue (pos : ℕ) : Prop :=
  ∃ (before : Schema) (col : ColumnDefinition) (after : Schema),
    columns = before ++ col :: after ∧ (∀ c ∈ before, ∃ v, insertColumn pr c = .ok v) ∧
    pr.statement.insertColumnNames.idxOf? col.name = some pos

/-- The statement succeeds only with a legal list, and then with the row that the list describes;
otherwise it returns an error.  It reads no value that is not there. -/
structure ChecksList : Prop where
  row : ∀ row, rowFromInsertValues pr columns = .ok row → LegalList pr columns ∧
    Places pr columns row
  error : (¬∃ row, rowFromInsertValues pr columns = .ok row) →
    ∃ e, rowFromInsertValues pr columns = .error (.error e)
  read : ∀ pos, ReadsValue pr columns pos → pos < pr.statement.insertValues.length

/-! ### One column -/

/-- The value that the statement has for a column: the one at the first place where the list names
it, and NULL for a column that the list does not name. -/
inductive GetsValue (col : ColumnDefinition) : Value → Prop
  | listed {pos : ℕ} {index : ℤ} {v : Value}
      (hpos : pr.statement.insertColumnNames.idxOf? col.name = some pos)
      (hindex : pr.statement.insertValues[pos]? = some index)
      (hv : insertValue pr index = .ok v) : GetsValue col v
  | null (hnot : col.name ∉ pr.statement.insertColumnNames) (hnull : col.notNull = false) :
      GetsValue col .null

/-- The column makes the statement fail with an error: its value does, or the list leaves it out
although it is NOT NULL. -/
inductive GetsError (col : ColumnDefinition) : ExecError → Prop
  | value {pos : ℕ} {index : ℤ} {e : ExecError}
      (hpos : pr.statement.insertColumnNames.idxOf? col.name = some pos)
      (hindex : pr.statement.insertValues[pos]? = some index)
      (hv : insertValue pr index = .error (.error e)) : GetsError col e
  | notNull (hnot : col.name ∉ pr.statement.insertColumnNames) (hnull : col.notNull = true) :
      GetsError col .notNullViolation

end List

section Row

variable {pr : ParseResult} {columns : Schema} {col : ColumnDefinition}

theorem insertColumn_listed {pos : ℕ} {index : ℤ}
    (hpos : pr.statement.insertColumnNames.idxOf? col.name = some pos)
    (hindex : pr.statement.insertValues[pos]? = some index) :
    insertColumn pr col = insertValue pr index := by
  simp only [insertColumn, hpos, hindex]

theorem insertColumn_missing {pos : ℕ}
    (hpos : pr.statement.insertColumnNames.idxOf? col.name = some pos)
    (hindex : pr.statement.insertValues[pos]? = none) :
    insertColumn pr col = .error (.fault .outOfBounds) := by
  simp only [insertColumn, hpos, hindex]

theorem insertColumn_unlisted (hnot : col.name ∉ pr.statement.insertColumnNames) :
    insertColumn pr col = if col.notNull then .error (.error .notNullViolation) else .ok .null := by
  simp only [insertColumn, List.idxOf?_eq_none_iff.2 hnot]

theorem insertColumn_cases (pr : ParseResult) (col : ColumnDefinition) :
    (∃ pos index, pr.statement.insertColumnNames.idxOf? col.name = some pos ∧
      pr.statement.insertValues[pos]? = some index ∧
      insertColumn pr col = insertValue pr index) ∨
    insertColumn pr col = .error (.fault .outOfBounds) ∨
    (col.name ∉ pr.statement.insertColumnNames ∧ col.notNull = true ∧
      insertColumn pr col = .error (.error .notNullViolation)) ∨
    (col.name ∉ pr.statement.insertColumnNames ∧ col.notNull = false ∧
      insertColumn pr col = .ok .null) := by
  rcases hpos : pr.statement.insertColumnNames.idxOf? col.name with _ | pos
  · have hnot := List.idxOf?_eq_none_iff.1 hpos
    have hrun := insertColumn_unlisted hnot
    cases hnull : col.notNull with
    | true =>
      rw [hnull, if_pos rfl] at hrun
      exact .inr (.inr (.inl ⟨hnot, rfl, hrun⟩))
    | false =>
      rw [hnull, if_neg Bool.false_ne_true] at hrun
      exact .inr (.inr (.inr ⟨hnot, rfl, hrun⟩))
  · rcases hindex : pr.statement.insertValues[pos]? with _ | index
    · exact .inr (.inl (insertColumn_missing hpos hindex))
    · exact .inl ⟨pos, index, rfl, hindex, insertColumn_listed hpos hindex⟩

theorem insertColumn_getsValue {v : Value} : insertColumn pr col = .ok v ↔ GetsValue pr col v := by
  constructor
  · intro h
    rcases insertColumn_cases pr col with ⟨pos, index, hpos, hindex, hrun⟩ | hrun |
      ⟨hnot, hnull, hrun⟩ | ⟨hnot, hnull, hrun⟩
    · exact .listed hpos hindex (hrun.symm.trans h)
    · cases hrun.symm.trans h
    · cases hrun.symm.trans h
    · cases hrun.symm.trans h
      exact .null hnot hnull
  · intro h
    cases h with
    | listed hpos hindex hv => rw [insertColumn_listed hpos hindex, hv]
    | null hnot hnull => rw [insertColumn_unlisted hnot, hnull, if_neg Bool.false_ne_true]

theorem insertColumn_eq_error {e : ExecError} :
    insertColumn pr col = .error (.error e) ↔ GetsError pr col e := by
  constructor
  · intro h
    rcases insertColumn_cases pr col with ⟨pos, index, hpos, hindex, hrun⟩ | hrun |
      ⟨hnot, hnull, hrun⟩ | ⟨hnot, hnull, hrun⟩
    · exact .value hpos hindex (hrun.symm.trans h)
    · cases hrun.symm.trans h
    · cases hrun.symm.trans h
      exact .notNull hnot hnull
    · cases hrun.symm.trans h
  · intro h
    cases h with
    | value hpos hindex hv => rw [insertColumn_listed hpos hindex, hv]
    | notNull hnot hnull => rw [insertColumn_unlisted hnot, hnull, if_pos rfl]

/-! ### The row -/

/-- The index of a name that occurs once. -/
theorem idxOf?_of_nodup {names : List Str} (h : names.Nodup) {i : ℕ} {name : Str}
    (hi : names[i]? = some name) : names.idxOf? name = some i := by
  obtain ⟨hlt, hget⟩ := List.getElem?_eq_some_iff.1 hi
  refine List.idxOf?_eq_some_iff.2 ⟨hlt, hget, fun j hj heq => ?_⟩
  have hij := (List.getElem_inj h).1 (heq.trans hget.symm)
  omega

/-- The row of a statement with a legal list. -/
theorem LegalList.places (hlegal : LegalList pr columns) {row : Row}
    (hrow : columns.mapM (insertColumn pr) = .ok row) : Places pr columns row where
  length_eq := (mapM_eq_ok.1 hrow).length_eq.symm
  listed i index k col hname hindex hcol := by
    obtain ⟨v, hv, hval⟩ := getElem?_mapM_eq_ok hrow hcol
    rw [insertColumn_listed (idxOf?_of_nodup hlegal.nodup hname) hindex] at hval
    exact ⟨v, hval, hv⟩
  unlisted k col hcol hnot := by
    obtain ⟨v, hv, hval⟩ := getElem?_mapM_eq_ok hrow hcol
    rw [insertColumn_getsValue] at hval
    cases hval with
    | listed hpos hindex _ =>
      rw [List.idxOf?_eq_none_iff.2 hnot] at hpos
      cases hpos
    | null => exact hv

/-- A name without a value is read past the end. -/
theorem ReadsValue.fault {pos : ℕ} (h : ReadsValue pr columns pos)
    (hlen : pr.statement.insertValues.length ≤ pos) :
    columns.mapM (insertColumn pr) = .error (.fault .outOfBounds) := by
  obtain ⟨before, col, after, heq, hbefore, hpos⟩ := h
  have hindex : pr.statement.insertValues[pos]? = none := List.getElem?_eq_none hlen
  exact mapM_eq_error.2 ⟨before, col, after, heq, hbefore, insertColumn_missing hpos hindex⟩

/-- The list is checked exactly in two cases.  Either it is legal and every column gets a value, or
the first column that gets none makes the statement fail with an error. -/
theorem checksList_iff (hnames : pr.statement.insertColumnNames ≠ []) :
    ChecksList pr columns ↔
      (LegalList pr columns ∧ ∀ col ∈ columns, ∃ v, GetsValue pr col v) ∨
        ∃ before col after e, columns = before ++ col :: after ∧
          (∀ c ∈ before, ∃ v, GetsValue pr c v) ∧ GetsError pr col e := by
  have hrun : rowFromInsertValues pr columns = columns.mapM (insertColumn pr) := if_neg hnames
  simp only [← insertColumn_getsValue, ← insertColumn_eq_error]
  -- a walk that does not end with a fault has read only values that are there
  have hread : ∀ {x : Expected ExecError Row}, columns.mapM (insertColumn pr) = x →
      x ≠ .error (.fault .outOfBounds) → ∀ pos, ReadsValue pr columns pos →
      pos < pr.statement.insertValues.length := by
    intro x hx hne pos h
    by_contra hpos
    exact hne (hx.symm.trans (h.fault (Nat.not_lt.1 hpos)))
  constructor
  · intro h
    rcases hr : columns.mapM (insertColumn pr) with e | row
    · -- the walk has failed, and not with a fault
      obtain ⟨e', he⟩ := h.error (by simp [hrun, hr])
      obtain ⟨before, col, after, hstop⟩ := mapM_eq_error.1 (hrun.symm.trans he)
      exact .inr ⟨before, col, after, e', hstop⟩
    · refine .inl ⟨(h.row row (hrun.trans hr)).1, fun col hcol => ?_⟩
      obtain ⟨k, hk⟩ := List.getElem?_of_mem hcol
      obtain ⟨v, -, hv⟩ := getElem?_mapM_eq_ok hr hk
      exact ⟨v, hv⟩
  · rintro (⟨hlegal, hall⟩ | ⟨before, col, after, e, hstop⟩)
    · obtain ⟨row, hr⟩ : ∃ row, columns.mapM (insertColumn pr) = .ok row := by
        rcases hr : columns.mapM (insertColumn pr) with e | row
        · obtain ⟨before, col, after, heq, -, hcol⟩ := mapM_eq_error.1 hr
          obtain ⟨v, hv⟩ := hall col (by simp [heq])
          rw [hv] at hcol
          cases hcol
        · exact ⟨row, rfl⟩
      refine ⟨fun row' hrow' => ⟨hlegal, hlegal.places (hrun.symm.trans hrow')⟩, fun hno => ?_,
        hread hr nofun⟩
      exact absurd ⟨row, hrun.trans hr⟩ hno
    · have hr := mapM_eq_error.2 ⟨before, col, after, hstop⟩
      refine ⟨fun row hrow => ?_, fun _ => ⟨e, hrun.trans hr⟩, hread hr nofun⟩
      rw [hrun, hr] at hrow
      cases hrow

/-- The tokens of `INSERT INTO t (a, z) VALUES (1, 2);`. -/
def namedTokens : List Token :=
  [⟨.insert, str "INSERT", 1⟩, ⟨.into, str "INTO", 1⟩, ⟨.identifier, str "t", 1⟩,
    ⟨.leftParen, str "(", 1⟩, ⟨.identifier, str "a", 1⟩, ⟨.comma, str ",", 1⟩,
    ⟨.identifier, str "z", 1⟩, ⟨.rightParen, str ")", 1⟩, ⟨.values, str "VALUES", 1⟩,
    ⟨.leftParen, str "(", 1⟩, ⟨.integerLiteral, str "1", 1⟩, ⟨.comma, str ",", 1⟩,
    ⟨.integerLiteral, str "2", 1⟩, ⟨.rightParen, str ")", 1⟩, ⟨.semicolon, str ";", 1⟩,
    ⟨.endOfFile, [], 1⟩]

/-- The input of the parser. -/
def namedInput : Input where
  tokens := namedTokens
  nonempty := by simp [namedTokens]
  stof _ := .ok ⟨0⟩
  textLength _ := 0

/-- What `parse` returns for it. -/
def namedResult : ParseResult where
  expressions := [.literalInt 1, .literalInt 2]
  statement := {
    kind := .insert
    tableName := str "t"
    insertColumnNames := [str "a", str "z"]
    insertValues := [0, 1] }

/-- A table with the columns `a` and `b`. -/
def twoColumns : Schema :=
  [{ name := str "a", type := .integer, textLength := 255 },
    { name := str "b", type := .integer, textLength := 255 }]

theorem checksList_iff_sample :
    ChecksList namedResult twoColumns ↔
      (LegalList namedResult twoColumns ∧ ∀ col ∈ twoColumns, ∃ v, GetsValue namedResult col v) ∨
        ∃ before col after e, twoColumns = before ++ col :: after ∧
          (∀ c ∈ before, ∃ v, GetsValue namedResult c v) ∧ GetsError namedResult col e :=
  @checksList_iff namedResult _ (by decide)

/-- The row `(1, NULL)` is built of a statement that names a column `z`. -/
theorem list_passes_unseen : ¬∀ (inp : Input) (fuel : ℕ) (r : ParseResult) (columns : Schema),
    parse fuel inp = .ok r → r.error = [] → r.statement.insertColumnNames ≠ [] →
    (columns.map (·.name)).Nodup → ChecksList r columns := by
  intro h
  have hchecks := h namedInput 3 namedResult twoColumns (by rfl) rfl (by decide) (by decide)
  have hrow : rowFromInsertValues namedResult twoColumns = .ok [.int 1, .null] := rfl
  obtain ⟨hlegal, -⟩ := hchecks.row _ hrow
  exact absurd (hlegal.known (str "z") (by decide)) (by decide)

end Row

/-! ### The two forms -/

/-- An INSERT into a table, with a column list unless `names` is empty, and the trees of its
values. -/
structure InsertsInto (pr : ParseResult) (table : Str) (names : List Str) (values : List Tree) :
    Prop where
  kind : pr.statement.kind = .insert
  tableName : pr.statement.tableName = table
  names : pr.statement.insertColumnNames = names
  values : List.Forall₂ pr.Refers pr.statement.insertValues values

section Forms

variable {pr pr' : ParseResult} {n : ℕ} {columns : Fin n → ColumnDefinition}
  {v : Fin n → Tree} {table : Str}

/-- The value of an expression is that of its tree. -/
theorem insertValue_refers {i : ℤ} {t : Tree} (h : pr.Refers i t) :
    insertValue pr i = t.evalExpr [] [] := by
  obtain ⟨expr, hi, ht⟩ := h
  rw [insertValue, hi.expression, ok_bind, ht.evalExpr]

/-- Without a list the values are computed as they come. -/
theorem InsertsInto.row (h : InsertsInto pr table [] (List.ofFn v)) (schema : Schema) :
    rowFromInsertValues pr schema = (List.ofFn v).mapM (Tree.evalExpr [] []) := by
  rw [rowFromInsertValues, if_pos h.names]
  exact mapM_congr_forall₂ (h.values.imp fun _ _ => insertValue_refers)

/-- With a list they are computed in the order of the schema, wherever the list has them. -/
theorem InsertsInto.row_of_list (hdistinct : Function.Injective fun k => (columns k).name)
    (s : Equiv.Perm (Fin n)) (h : InsertsInto pr table (List.ofFn fun k => (columns (s k)).name)
      (List.ofFn fun k => v (s k))) (hn : n ≠ 0) :
    rowFromInsertValues pr (List.ofFn columns) =
      (List.ofFn v).mapM (Tree.evalExpr [] []) := by
  have hnames : pr.statement.insertColumnNames ≠ [] := by
    rw [h.names]
    simpa using hn
  rw [rowFromInsertValues, if_neg hnames]
  refine mapM_congr_forall₂ (List.forall₂_iff_get.2 ⟨by simp, fun k hk hk' => ?_⟩)
  rw [List.length_ofFn] at hk
  -- the place of column `k` in the list
  let p : Fin n := s.symm ⟨k, hk⟩
  have hp : s p = ⟨k, hk⟩ := s.apply_symm_apply _
  have hname : pr.statement.insertColumnNames[(p : ℕ)]? = some (columns ⟨k, hk⟩).name := by
    rw [h.names, List.getElem?_ofFn, dif_pos p.isLt, hp]
  have hnodup : pr.statement.insertColumnNames.Nodup := by
    rw [h.names]
    exact List.nodup_ofFn.2 (hdistinct.comp s.injective)
  obtain ⟨index, hindex⟩ : ∃ index, pr.statement.insertValues[(p : ℕ)]? = some index := by
    have hlen := h.values.length_eq
    rw [List.length_ofFn] at hlen
    exact ⟨_, List.getElem?_eq_getElem (hlen ▸ p.isLt)⟩
  have hvalue : (List.ofFn fun k => v (s k))[(p : ℕ)]? = some (v ⟨k, hk⟩) := by
    rw [List.getElem?_ofFn, dif_pos p.isLt, hp]
  have hcolumn := insertColumn_listed (idxOf?_of_nodup hnodup hname) hindex
  simp only [List.get_eq_getElem, List.getElem_ofFn]
  rw [hcolumn, insertValue_refers (forall₂_getElem? h.values hindex hvalue)]

/-- INSERT sees nothing of the statement but the row, if that has a value for each column. -/
theorem insertRow_congr {σ : Type} (file : PageFile σ) {schema : Schema}
    (hrow : rowFromInsertValues pr schema = rowFromInsertValues pr' schema)
    (hlen : ∀ row, rowFromInsertValues pr' schema = .ok row → row.length = schema.length) :
    insertRow file serializeRow pr schema = insertRow file serializeRow pr' schema := by
  funext w
  rw [insertRow, insertRow, hrow]
  rcases hr : rowFromInsertValues pr' schema with e | row
  · rfl
  · have hcount : ∀ names : List Str, ¬(names = [] ∧ row.length ≠ schema.length) :=
      fun _ hc => hc.2 (hlen row hr)
    rw [Prog.lift_ok_bind_apply, Prog.lift_ok_bind_apply, Prog.failIf_neg (hcount _),
      Prog.failIf_neg (hcount _)]

/-- The schema that `resolveTable` returns is that of the catalog. -/
theorem resolveTable_eq {w w' : Engine} {t schema : TableSchema}
    (hfind : w.catalog.findTable table = some t) (h : resolveTable table w = (.ok schema, w')) :
    schema = t := by
  rw [resolveTable, Prog.gets_bind_apply, id, hfind] at h
  dsimp only at h
  cases hopen : w.openFiles table with
  | some f =>
    rw [hopen] at h
    cases h
    rfl
  | none =>
    rw [hopen] at h
    dsimp only at h
    rw [Prog.bind_apply] at h
    split at h
    · cases h
      rfl
    · cases h

/-- **The two forms of INSERT agree.**  Values in the order of the schema, and the same values with
the names of their columns in any order, are the same statement: the results are equal, and so are
the engines that they leave. -/
theorem insertForms_agree (hdistinct : Function.Injective fun k => (columns k).name)
    (s : Equiv.Perm (Fin n)) (h : InsertsInto pr table [] (List.ofFn v))
    (h' : InsertsInto pr' table (List.ofFn fun k => (columns (s k)).name)
      (List.ofFn fun k => v (s k))) {w : Engine} {t : TableSchema}
    (hfind : w.catalog.findTable table = some t) (hcolumns : t.columns = List.ofFn columns) :
    execute pr w = execute pr' w := by
  have hrow : rowFromInsertValues pr t.columns = rowFromInsertValues pr' t.columns := by
    -- without columns the list is empty, and the second form is the first
    by_cases hn : n = 0
    · subst hn
      have h0 : InsertsInto pr' table [] (List.ofFn fun k => v (s k)) := by
        simpa using h'
      rw [h.row, h0.row, List.ofFn_zero, List.ofFn_zero]
    · rw [h.row, hcolumns, h'.row_of_list hdistinct s hn]
  have hlen : ∀ row, rowFromInsertValues pr' t.columns = .ok row →
      row.length = t.columns.length := by
    intro row hr
    rw [← hrow, h.row] at hr
    rw [← (mapM_eq_ok.1 hr).length_eq, hcolumns, List.length_ofFn, List.length_ofFn]
  -- the row is all that the rest of the statement takes from the values
  have hinsert : ∀ w' schema, resolveTable table w = (.ok schema, w') →
      insertRow (Engine.openFile table) serializeRow pr schema.columns w' =
        insertRow (Engine.openFile table) serializeRow pr' schema.columns w' := by
    intro w' schema hr
    rw [resolveTable_eq hfind hr, insertRow_congr _ hrow hlen]
  have hexec : execInsert pr w = execInsert pr' w := by
    rw [execInsert, execInsert, execInsertWith, execInsertWith, h.tableName, h'.tableName,
      Prog.bind_apply, Prog.bind_apply]
    rcases hr : resolveTable table w with ⟨e | schema, w'⟩
    · rfl
    · exact hinsert w' schema hr
  rw [execute, execute, executeWith, executeWith, h.kind, h'.kind]
  dsimp only
  rw [orError, orError, Prog.bind_apply, Prog.bind_apply]
  rw [execInsert, execInsert] at hexec
  rw [hexec]

/-- `INSERT INTO t VALUES (1, 2);` and `INSERT INTO t (b, a) VALUES (2, 1);` -/
def listedResult (names : List Str) (values : List ℤ) : ParseResult where
  expressions := [.literalInt 1, .literalInt 2]
  statement := {
    kind := .insert
    tableName := str "t"
    insertColumnNames := names
    insertValues := values }

theorem insertForms_agree_sample :
    let t : TableSchema := ⟨str "t", twoColumns, str "t.ms"⟩
    let fs : FileSystem := ⟨fun _ => none, fun _ => true, fun _ => true, maxFileSize, le_rfl⟩
    let w : Engine := { catalog := ⟨[t]⟩, fs := fs }
    execute (listedResult [] [0, 1]) w = execute (listedResult [str "b", str "a"] [1, 0]) w := by
  intro t fs w
  have hone : ∀ names values, (listedResult names values).Refers 0 (.leaf (.literalInt 1)) :=
    fun _ _ => ⟨_, ⟨le_rfl, rfl⟩, .leaf rfl⟩
  have htwo : ∀ names values, (listedResult names values).Refers 1 (.leaf (.literalInt 2)) :=
    fun _ _ => ⟨_, ⟨by decide, rfl⟩, .leaf rfl⟩
  let c : Fin 2 → ColumnDefinition := twoColumns.get
  let v : Fin 2 → Tree := [Tree.leaf (.literalInt 1), .leaf (.literalInt 2)].get
  let s : Equiv.Perm (Fin 2) := Equiv.swap 0 1
  have hdistinct : Function.Injective fun k => (c k).name := by decide
  have h : InsertsInto (listedResult [] [0, 1]) (str "t") [] (List.ofFn v) :=
    ⟨rfl, rfl, rfl, .cons (hone _ _) (.cons (htwo _ _) .nil)⟩
  have h' : InsertsInto (listedResult [str "b", str "a"] [1, 0]) (str "t")
      (List.ofFn fun k => (c (s k)).name) (List.ofFn fun k => v (s k)) :=
    ⟨rfl, rfl, rfl, .cons (htwo _ _) (.cons (hone _ _) .nil)⟩
  exact insertForms_agree hdistinct s h h' rfl (rfl : t.columns = List.ofFn c)

end Forms

end MicroSql
