import MicroSql.Relational.Account

/-!
# The rows of a relation

The rows of every relation that an engine reaches are encoded in the pages of its table.  So each
has a value for every column, of the column's type, and their keys are distinct.
-/

namespace MicroSql

open Lib Engine

/-! ### Whole rows -/

/-- Every row has a value for each column. -/
def Relation.Whole (r : Relation) : Prop := ∀ row ∈ r.rows, row.length = r.columns.length

/-- All rows of all relations have a value for each column. -/
def Database.Whole (db : Database) : Prop := ∀ name r, db name = some r → r.Whole

section Whole

variable {command : Command} {r r' : Option Relation} {answer : Except (Failure ExecError) Result}

theorem Database.whole_empty : Database.empty.Whole := fun _ _ h => by cases h

theorem length_of_checkRow {row : Row} {columns : Schema} (h : checkRow row columns = .ok ()) :
    row.length = columns.length := by
  by_contra hne
  rw [checkRow, serializeRow_of_length_ne hne] at h
  cases h

/-- The row of an INSERT that passes the checks. -/
theorem checkInsert_eq_ok {names : List Str} {values : List Tree} {r : Relation} {row : Row}
    (h : checkInsert names values r = .ok row) :
    insertedRow names values r.columns = .ok row ∧ checkRow row r.columns = .ok () := by
  obtain ⟨row', hrow, h⟩ := bind_eq_ok.1 h
  split at h
  · cases h
  split at h
  · cases h
  · rcases hcheck : checkRow row' r.columns with e | u <;> rw [hcheck] at h <;> cases h
    exact ⟨hrow, hcheck⟩

theorem deleteVisit_eq_some {condition : Option Tree} {columns : Schema} {before after : List Row}
    {row new : Row} {c : Bool}
    (h : deleteVisit condition columns before row after = .ok (c, some new)) : new = row := by
  obtain ⟨m, -, h⟩ := bind_eq_ok.1 h
  cases m <;> cases h
  rfl

/-- A command keeps the rows whole. -/
theorem Answers.whole (h : Answers command r answer r') (hr : ∀ x, r = some x → x.Whole) :
    ∀ x, r' = some x → x.Whole := by
  cases h with
  | missing => exact hr
  | select => exact hr
  | rejected => exact hr
  | @inserted table names values r row before after hcheck hrows =>
    rintro x ⟨⟩ row' hrow'
    have hmem : row' = row ∨ row' ∈ r.rows := by
      rw [hrows, List.mem_append]
      rcases List.mem_append.1 hrow' with h | h
      · exact .inr (.inl h)
      · rcases List.mem_cons.1 h with h | h
        · exact .inl h
        · exact .inr (.inr h)
    change row'.length = r.columns.length
    rcases hmem with rfl | hmem
    · exact length_of_checkRow (checkInsert_eq_ok hcheck).2
    · exact hr r rfl row' hmem
  | full => exact hr
  | @delete table condition r out rows hsweeps =>
    rintro x ⟨⟩ row hrow
    obtain ⟨old, rest, n, done, hold, rfl, hswept⟩ := hsweeps.exists_swept
    have hwhole := hr r rfl
    rw [Relation.Whole, hold] at hwhole
    rcases List.mem_append.1 hrow with hrow | hrow
    · obtain ⟨before, row', after, c, hmem, hvisit⟩ := hswept.exists_of_mem hrow
      rw [deleteVisit_eq_some hvisit]
      exact hwhole row' (List.mem_append_left _ hmem)
    · exact hwhole row (List.mem_append_right _ hrow)
  | @update table assignments condition r out rows hsweeps =>
    rintro x ⟨⟩ row hrow
    obtain ⟨old, rest, n, done, hold, rfl, hswept⟩ := hsweeps.exists_swept
    have hwhole := hr r rfl
    rw [Relation.Whole, hold] at hwhole
    rcases List.mem_append.1 hrow with hrow | hrow
    · obtain ⟨before, row', after, c, hmem, hvisit⟩ := hswept.exists_of_mem hrow
      rcases updateVisit_cases hvisit with hsame | ⟨updated, hsome, hcheck⟩
      · obtain rfl := Option.some.inj hsame
        exact hwhole row (List.mem_append_left _ hmem)
      · obtain rfl := Option.some.inj hsome
        exact length_of_checkRow hcheck
    · exact hwhole row (List.mem_append_right _ hrow)
  | created =>
    rintro x ⟨⟩ row hrow
    cases hrow
  | duplicate =>
    rintro x ⟨⟩ row hrow
    cases hrow
  | refused => exact hr
  | dropped => exact fun _ h => by cases h
  | unsupported => exact hr

theorem Database.Step.whole {db db' : Database} {out : Except Fault Result}
    (h : Database.Step db command out db') (hdb : db.Whole) : db'.Whole := by
  obtain ⟨hanswers⟩ := h
  intro name x hx
  by_cases hname : name = command.table
  · subst hname
    rw [Function.update_self] at hx
    exact hanswers.whole (hdb command.table) x hx
  · rw [Function.update_of_ne hname] at hx
    exact hdb name x hx

end Whole

/-! ### Stored rows -/

section Stored

variable {w : Engine} {name : Str} {r : Relation}

/-- A relation of the engine is what the pages of a table hold. -/
theorem Reachable.exists_stored (h : Reachable EncodesWithin w) (hr : w.database name = some r) :
    ∃ t : TableSchema, t.columns = r.columns ∧ r.rows = liveRows t.columns (w.pages t) ∧
      GoodTable t (w.pages t) := by
  obtain ⟨t, ht, rfl⟩ := Option.map_eq_some_iff.1 hr
  cases hfind : w.catalog.findTable name with
  | none =>
    rw [tableAt_none hfind] at ht
    cases ht
  | some schema =>
    rw [tableAt_some hfind] at ht
    cases ht
    obtain ⟨-, -, hgood⟩ := h.good.stores hfind
    exact ⟨schema, rfl, rfl, hgood⟩

theorem Reachable.encodes (h : Reachable EncodesWithin w) (hr : w.database name = some r)
    {row : Row} (hrow : row ∈ r.rows) : ∃ bytes, Encodes r.columns bytes row := by
  obtain ⟨t, hcolumns, hrows, hgood⟩ := h.exists_stored hr
  rw [hrows] at hrow
  rw [← hcolumns]
  exact hgood.pages.encodes hrow

theorem Reachable.whole (h : Reachable EncodesWithin w) : w.database.Whole := by
  intro name r hr row hrow
  obtain ⟨bytes, hencodes⟩ := h.encodes hr hrow
  exact hencodes.length_eq

theorem Reachable.keysDistinct (h : Reachable EncodesWithin w) (hr : w.database name = some r) :
    KeysDistinct r.columns r.rows := by
  obtain ⟨t, hcolumns, hrows, hgood⟩ := h.exists_stored hr
  rw [hrows, ← hcolumns]
  exact hgood.keys

end Stored

end MicroSql
