import MicroSql.Executor.Trees
import MicroSql.Table.Scan

/-!
# Commands

A statement without its arena: the expressions are trees.  `Denotes` says which statements stand
for a command; the rows that INSERT and UPDATE build, and the condition, then depend on the
command alone.
-/

namespace MicroSql

open Lib

/-- What a statement asks for. -/
inductive Command
  /-- without columns it is `SELECT *` -/
  | select (table : Str) (columns : List Str) (condition : Option Tree)
  /-- without columns the values are given in the order of the table -/
  | insert (table : Str) (columns : List Str) (values : List Tree)
  | update (table : Str) (assignments : List (Str × Tree)) (condition : Option Tree)
  | delete (table : Str) (condition : Option Tree)
  | createTable (table : Str) (columns : Schema)
  | dropTable (table : Str)
  /-- CREATE INDEX, and what the parser does not know: nothing that is carried out -/
  | unsupported (table : Str)
  deriving DecidableEq, Repr

namespace Command

/-- The table that a command names. -/
def table : Command → Str
  | select table .. | insert table .. | update table .. | delete table .. | createTable table ..
  | dropTable table | unsupported table => table

end Command

/-! ### What the expressions are worth -/

/-- A condition on a row; none is always true. -/
def holds (condition : Option Tree) (columns : List Str) (row : Row) : Expected ExecError Bool :=
  match condition with
  | none => .ok true
  | some t => t.evalWhere row columns

/-- The value that an INSERT with a list of columns gives to a column. -/
def givenTo (names : List Str) (values : List Tree) (c : ColumnDefinition) :
    Expected ExecError Value :=
  match names.idxOf? c.name with
  | some i =>
    match values[i]? with
    | none => .error (.fault .outOfBounds)
    | some t => t.evalExpr [] []
  | none => if c.notNull then .error (.error .notNullViolation) else .ok .null

/-- The row of an INSERT. -/
def insertedRow (names : List Str) (values : List Tree) (columns : Schema) :
    Expected ExecError Row :=
  if names = [] then values.mapM fun t => t.evalExpr [] []
  else columns.mapM (givenTo names values)

/-- One assignment; the value is computed from the row as it was. -/
def assigned (names : List Str) (row updated : Row) (assignment : Str × Tree) :
    Expected ExecError Row :=
  match names.idxOf? assignment.1 with
  | none => .error (.error .errorGettingData)
  | some i => updated.set i <$> assignment.2.evalExpr row names

/-- The row that an UPDATE makes of a row. -/
def updatedRow (assignments : List (Str × Tree)) (names : List Str) (row : Row) :
    Expected ExecError Row :=
  assignments.foldlM (assigned names row) row

/-- The names of the columns of a result. -/
def resultNames (columns names : List Str) : List Str := if columns = [] then names else columns

/-! ### Statements and commands -/

/-- The condition of a statement. -/
inductive ParseResult.Condition (pr : ParseResult) : Option Tree → Prop
  | none (h : pr.statement.whereIndex = -1) : Condition pr none
  | some {t : Tree} (h : pr.Refers pr.statement.whereIndex t) : Condition pr (some t)

/-- The node at an index of the select list has that column name. -/
def ParseResult.Names (pr : ParseResult) (index : ℤ) (name : Str) : Prop :=
  ∃ expr, pr.HasNode index expr ∧ expr.columnName = name

/-- An assignment of a statement. -/
def ParseResult.Assigns (pr : ParseResult) (a : Str × ℤ) (b : Str × Tree) : Prop :=
  a.1 = b.1 ∧ pr.Refers a.2 b.2

/-- The statement stands for the command. -/
inductive Denotes (pr : ParseResult) : Command → Prop
  | select {columns : List Str} {condition : Option Tree} (hkind : pr.statement.kind = .select)
      (hcolumns : List.Forall₂ pr.Names pr.statement.selectColumns columns)
      (hcondition : pr.Condition condition) :
      Denotes pr (.select pr.statement.tableName columns condition)
  | insert {values : List Tree} (hkind : pr.statement.kind = .insert)
      (hvalues : List.Forall₂ pr.Refers pr.statement.insertValues values) :
      Denotes pr (.insert pr.statement.tableName pr.statement.insertColumnNames values)
  | update {assignments : List (Str × Tree)} {condition : Option Tree}
      (hkind : pr.statement.kind = .update)
      (hassignments : List.Forall₂ pr.Assigns pr.statement.assignments assignments)
      (hcondition : pr.Condition condition) :
      Denotes pr (.update pr.statement.tableName assignments condition)
  | delete {condition : Option Tree} (hkind : pr.statement.kind = .delete)
      (hcondition : pr.Condition condition) : Denotes pr (.delete pr.statement.tableName condition)
  | createTable (hkind : pr.statement.kind = .createTable) :
      Denotes pr (.createTable pr.statement.tableName pr.statement.columnDefinitions)
  | dropTable (hkind : pr.statement.kind = .dropTable) :
      Denotes pr (.dropTable pr.statement.tableName)
  | unsupported (hkind : pr.statement.kind ∈
      [StatementKind.createIndex, .begin, .commit, .rollback]) :
      Denotes pr (.unsupported pr.statement.tableName)

section

variable {pr : ParseResult} {command : Command}

theorem Denotes.table_eq (h : Denotes pr command) : command.table = pr.statement.tableName := by
  cases h <;> rfl

/-- The value of an index in the arena is that of its tree. -/
theorem ParseResult.Refers.evalExpr {i : ℤ} {t : Tree} (h : pr.Refers i t) (row : Row)
    (columns : List Str) :
    (pr.expression i >>= MicroSql.evalExpr pr row columns) = t.evalExpr row columns := by
  obtain ⟨expr, hi, ht⟩ := h
  rw [hi.expression, ok_bind, ht.evalExpr]

theorem ParseResult.Condition.whereMatches {condition : Option Tree} (h : pr.Condition condition)
    (row : Row) (columns : List Str) :
    whereMatches pr row columns = holds condition columns row := by
  cases h with
  | none hindex => rw [MicroSql.whereMatches, if_pos hindex, holds]
  | @some t hrefers =>
    have hne : pr.statement.whereIndex ≠ -1 := by
      have hpos := hrefers.nonneg
      omega
    obtain ⟨expr, hi, ht⟩ := hrefers
    rw [MicroSql.whereMatches, if_neg hne, hi.expression, ok_bind, ht.evalWhere, holds]

theorem selectedColumns_of_names {columns names : List Str}
    (h : List.Forall₂ pr.Names pr.statement.selectColumns columns) :
    selectedColumns pr names = .ok (resultNames columns names) := by
  have hempty : pr.statement.selectColumns = [] ↔ columns = [] := by
    rw [← List.length_eq_zero_iff, ← List.length_eq_zero_iff, h.length_eq]
  unfold selectedColumns resultNames
  by_cases hcolumns : columns = []
  · rw [if_pos (hempty.2 hcolumns), if_pos hcolumns]
  · rw [if_neg (mt hempty.1 hcolumns), if_neg hcolumns, mapM_eq_ok]
    refine h.imp fun index name hname => ?_
    obtain ⟨expr, hi, rfl⟩ := hname
    rw [hi.expression]
    rfl

theorem rowFromInsertValues_of_refers {values : List Tree}
    (h : List.Forall₂ pr.Refers pr.statement.insertValues values) (columns : Schema) :
    rowFromInsertValues pr columns =
      insertedRow pr.statement.insertColumnNames values columns := by
  have hone : ∀ i t, pr.Refers i t → insertValue pr i = t.evalExpr [] [] := fun i t hi =>
    hi.evalExpr [] []
  unfold rowFromInsertValues insertedRow
  by_cases hnames : pr.statement.insertColumnNames = []
  · rw [if_pos hnames, if_pos hnames]
    exact mapM_congr_forall₂ (h.imp hone)
  · rw [if_neg hnames, if_neg hnames]
    refine congrArg columns.mapM (funext fun c => ?_)
    rw [insertColumn, givenTo]
    cases hc : pr.statement.insertColumnNames.idxOf? c.name with
    | none => rfl
    | some pos =>
      dsimp only
      rcases hpos : pr.statement.insertValues[pos]? with _ | index
      · have hlen : values[pos]? = none := by
          rw [List.getElem?_eq_none_iff] at hpos ⊢
          rwa [← h.length_eq]
        rw [hlen]
      · obtain ⟨hlt, -⟩ := List.getElem?_eq_some_iff.1 hpos
        rw [h.length_eq] at hlt
        have ht : values[pos]? = some values[pos] := List.getElem?_eq_getElem hlt
        rw [ht]
        exact hone _ _ (forall₂_getElem? h hpos ht)

theorem rowFromUpdate_of_assigns {assignments : List (Str × Tree)} {names : List Str} {row : Row}
    (h : List.Forall₂ pr.Assigns pr.statement.assignments assignments)
    (hlen : names.length ≤ row.length) :
    rowFromUpdate row pr.statement.assignments pr names = updatedRow assignments names row := by
  suffices hfold : ∀ start : Row, start.length = row.length →
      pr.statement.assignments.foldlM (assign pr row names) start =
        assignments.foldlM (assigned names row) start from hfold row rfl
  generalize pr.statement.assignments = as at h
  induction h with
  | nil => exact fun _ _ => rfl
  | @cons a b as bs hab _ ih =>
    obtain ⟨hname, hrefers⟩ := hab
    intro start hstart
    rw [List.foldlM_cons, List.foldlM_cons, assign, assigned, ← hname]
    cases hidx : names.idxOf? a.1 with
    | none => rfl
    | some i =>
      have hi : i < start.length := by
        obtain ⟨hlt, -⟩ := List.idxOf?_eq_some_iff.1 hidx
        omega
      dsimp only
      rw [← hrefers.evalExpr]
      -- the index is that of a column, so it lies in the row
      rcases hexpr : (pr.expression a.2 : Expected ExecError Expression) with e | expr
      · rfl
      rw [ok_bind, ok_bind]
      rcases evalExpr pr row names expr with e | v
      · rfl
      · rw [ok_bind, if_pos hi]
        exact ih (start.set i v) (by rw [List.length_set, hstart])

end

end MicroSql
