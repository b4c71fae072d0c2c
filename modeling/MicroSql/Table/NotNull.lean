import Mathlib.Data.List.Induction
import MicroSql.Table.Update

/-!
# NOT NULL

The row builders of INSERT and UPDATE refuse only one thing: an INSERT with a column list
that leaves out a NOT NULL column.  They keep the columns free of NULL if the statement does
not supply one itself.
-/

namespace MicroSql

open Lib

/-- The row has no NULL in a column that is declared NOT NULL. -/
def NullsAllowed (columns : Schema) (row : Row) : Prop :=
  ∀ (i : ℕ) (c : ColumnDefinition), columns[i]? = some c → c.notNull = true →
    row[i]? ≠ some Value.null

variable {pr : ParseResult} {columns : Schema}

/-! ### INSERT -/

/-- The expression that an INSERT supplies for column `i`, if any. -/
def suppliedIndex (pr : ParseResult) (i : ℕ) (c : ColumnDefinition) : Option ℤ :=
  if pr.statement.insertColumnNames = [] then pr.statement.insertValues[i]?
  else (pr.statement.insertColumnNames.idxOf? c.name).bind (pr.statement.insertValues[·]?)

/-- No expression that the INSERT supplies for a NOT NULL column is NULL. -/
def SuppliesNoNull (pr : ParseResult) (columns : Schema) : Prop :=
  ∀ (i : ℕ) (c : ColumnDefinition), columns[i]? = some c → c.notNull = true →
    ∀ index, suppliedIndex pr i c = some index → insertValue pr index ≠ .ok .null

/-- The value of a column under a column list is that of the supplied expression, or NULL. -/
theorem insertColumn_eq_ok {i : ℕ} {c : ColumnDefinition} {v : Value}
    (hlist : pr.statement.insertColumnNames ≠ []) (h : insertColumn pr c = .ok v) :
    (∃ index, suppliedIndex pr i c = some index ∧ insertValue pr index = .ok v) ∨
      (c.notNull = false ∧ v = .null) := by
  rw [suppliedIndex, if_neg hlist]
  unfold insertColumn at h
  cases hidx : pr.statement.insertColumnNames.idxOf? c.name with
  | none =>
    rw [hidx] at h
    dsimp only at h
    by_cases hnull : c.notNull = true
    · rw [if_pos hnull] at h
      cases h
    · rw [if_neg hnull] at h
      exact .inr ⟨by simpa using hnull, (Except.ok.inj h).symm⟩
  | some pos =>
    rw [hidx] at h
    dsimp only at h
    rw [Option.bind_some]
    cases hval : pr.statement.insertValues[pos]? with
    | none =>
      rw [hval] at h
      cases h
    | some index =>
      rw [hval] at h
      exact .inl ⟨index, rfl, h⟩

/-- The row of an INSERT has no NULL where none is allowed, unless the statement supplies
one. -/
theorem SuppliesNoNull.nullsAllowed (h : SuppliesNoNull pr columns) {row : Row}
    (hrow : rowFromInsertValues pr columns = .ok row) : NullsAllowed columns row := by
  intro i c hc hnotNull hnull
  unfold rowFromInsertValues at hrow
  by_cases hlist : pr.statement.insertColumnNames = []
  · rw [if_pos hlist] at hrow
    obtain ⟨index, hindex, hv⟩ := getElem?_of_mapM_eq_ok hrow hnull
    exact h i c hc hnotNull index (by rw [suppliedIndex, if_pos hlist, hindex]) hv
  · rw [if_neg hlist] at hrow
    obtain ⟨c', hc', hv⟩ := getElem?_of_mapM_eq_ok hrow hnull
    obtain rfl : c = c' := Option.some.inj (hc.symm.trans hc')
    rcases insertColumn_eq_ok hlist hv with ⟨index, hindex, hv⟩ | ⟨hfree, -⟩
    · exact h i c hc hnotNull index hindex hv
    · rw [hnotNull] at hfree
      cases hfree

/-- The column without its NOT NULL. -/
def ColumnDefinition.nullable (c : ColumnDefinition) : ColumnDefinition :=
  { c with notNull := false }

/-- Leaving out a NOT NULL column is the only difference that NOT NULL makes. -/
theorem insertColumn_nullable (c : ColumnDefinition) :
    insertColumn pr c = insertColumn pr c.nullable ∨
      insertColumn pr c = .error (.error .notNullViolation) := by
  have hname : c.nullable.name = c.name := rfl
  unfold insertColumn
  rw [hname]
  cases pr.statement.insertColumnNames.idxOf? c.name with
  | some pos => exact .inl rfl
  | none =>
    cases hnull : c.notNull with
    | false => exact .inl rfl
    | true => exact .inr rfl

/-- An INSERT that would store a NULL where none is allowed, though it supplies none, is
refused. -/
theorem SuppliesNoNull.violation (h : SuppliesNoNull pr columns) {row : Row}
    (hrow : rowFromInsertValues pr (columns.map ColumnDefinition.nullable) = .ok row)
    (hnull : ¬NullsAllowed columns row) :
    rowFromInsertValues pr columns = .error (.error .notNullViolation) := by
  by_cases hlist : pr.statement.insertColumnNames = []
  · -- without a column list the columns do not matter
    rw [rowFromInsertValues, if_pos hlist] at hrow
    refine absurd (h.nullsAllowed ?_) hnull
    rw [rowFromInsertValues, if_pos hlist, hrow]
  · rw [rowFromInsertValues, if_neg hlist, List.mapM_map] at hrow
    have hcolumn : ∀ c ∈ columns,
        insertColumn pr c = (insertColumn pr ∘ ColumnDefinition.nullable) c ∨
        insertColumn pr c = .error (.error .notNullViolation) :=
      fun c _ => insertColumn_nullable c
    have hcases := mapM_eq_or_error hcolumn hrow
    rw [rowFromInsertValues, if_neg hlist]
    refine hcases.resolve_left fun hok => hnull (h.nullsAllowed ?_)
    rw [rowFromInsertValues, if_neg hlist, hok]

/-! ### UPDATE -/

/-- The expression of the last of some assignments to column `i`. -/
def lastAssigned (assignments : List (Str × ℤ)) (names : List Str) (i : ℕ) : Option ℤ :=
  (assignments.reverse.find? fun a => names.idxOf? a.1 = some i).map (·.2)

/-- The last assignment to a column wins; a column that is not assigned keeps its value. -/
theorem foldlM_assign_last {row : Row} {names : List Str} {assignments : List (Str × ℤ)} {i : ℕ}
    {updated updated' : Row} {v : Value}
    (h : assignments.foldlM (assign pr row names) updated = .ok updated')
    (hv : updated'[i]? = some v) :
    match lastAssigned assignments names i with
    | none => updated[i]? = some v
    | some index => (pr.expression index >>= evalExpr pr row names) = .ok v := by
  induction assignments using List.reverseRecOn generalizing updated' v with
  | nil =>
    cases h
    exact hv
  | append_singleton assignments a ih =>
    rw [List.foldlM_append] at h
    obtain ⟨mid, hmid, h⟩ := bind_eq_ok.1 h
    obtain ⟨last, hlast, h⟩ := bind_eq_ok.1 h
    cases h
    obtain ⟨j, v', hj, hv', hlt, rfl⟩ := assign_eq_ok hlast
    rw [lastAssigned, List.reverse_append, List.reverse_singleton, List.singleton_append]
    by_cases hji : j = i
    · subst hji
      rw [List.find?_cons_of_pos (by simp [hj])]
      rw [List.getElem?_set_self hlt] at hv
      cases hv
      exact hv'
    · rw [List.find?_cons_of_neg (by simp [hj, hji])]
      rw [List.getElem?_set_ne hji] at hv
      exact ih hmid hv

/-- The UPDATE assigns NULL to no NOT NULL column of a row. -/
def AssignsNoNull (pr : ParseResult) (columns : Schema) (row : Row) : Prop :=
  ∀ (i : ℕ) (c : ColumnDefinition), columns[i]? = some c → c.notNull = true →
    ∀ index, lastAssigned pr.statement.assignments (columns.map (·.name)) i = some index →
      (pr.expression index >>= evalExpr pr row (columns.map (·.name))) ≠ .ok .null

theorem AssignsNoNull.nullsAllowed {row updated : Row} (h : AssignsNoNull pr columns row)
    (hold : NullsAllowed columns row)
    (hrow : rowFromUpdate row pr.statement.assignments pr (columns.map (·.name)) = .ok updated) :
    NullsAllowed columns updated := by
  intro i c hc hnotNull hnull
  have hlast := foldlM_assign_last hrow hnull
  cases hidx : lastAssigned pr.statement.assignments (columns.map (·.name)) i with
  | none =>
    rw [hidx] at hlast
    exact hold i c hc hnotNull hlast
  | some index =>
    rw [hidx] at hlast
    exact h i c hc hnotNull index hidx hlast

end MicroSql
