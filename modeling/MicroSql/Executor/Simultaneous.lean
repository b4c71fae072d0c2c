import MicroSql.Executor.Trees

/-!
# Simultaneous assignment

`rowFromUpdate` computes every value from the old row and writes it into a copy.  Assignments to
distinct columns do not see each other, so their order does not matter.
-/

namespace MicroSql

open Lib

/-! ### One assignment -/

/-- One assignment changes the column it names, and no other. -/
theorem assign_eq_ok {row updated updated' : Row} {names : List Str} {a : Str × ℤ}
    (h : assign pr row names updated a = .ok updated') :
    ∃ i v, names.idxOf? a.1 = some i ∧
      (pr.expression a.2 >>= evalExpr pr row names) = .ok v ∧ i < updated.length ∧
      updated' = updated.set i v := by
  unfold assign at h
  cases hi : names.idxOf? a.1 with
  | none =>
    rw [hi] at h
    cases h
  | some i =>
    rw [hi] at h
    obtain ⟨e, he, h⟩ := bind_eq_ok.1 h
    obtain ⟨v, hv, h⟩ := bind_eq_ok.1 h
    by_cases hlt : i < updated.length
    · rw [if_pos hlt] at h
      cases h
      exact ⟨i, v, rfl, bind_eq_ok.2 ⟨e, he, hv⟩, hlt, rfl⟩
    · rw [if_neg hlt] at h
      cases h

/-- A column that is not assigned keeps its value. -/
theorem foldlM_assign_getElem? {row : Row} {names : List Str} {assignments : List (Str × ℤ)}
    {i : ℕ} (hi : ∀ a ∈ assignments, names.idxOf? a.1 ≠ some i) {updated updated' : Row}
    (h : assignments.foldlM (assign pr row names) updated = .ok updated') :
    updated'[i]? = updated[i]? := by
  induction assignments generalizing updated with
  | nil =>
    cases h
    rfl
  | cons a assignments ih =>
    rw [List.foldlM_cons] at h
    obtain ⟨next, hnext, h⟩ := bind_eq_ok.1 h
    obtain ⟨j, v, hj, -, -, rfl⟩ := assign_eq_ok hnext
    have hji : j ≠ i := fun hji => hi a List.mem_cons_self (hji ▸ hj)
    rw [ih (fun a ha => hi a (List.mem_cons_of_mem _ ha)) h, List.getElem?_set_ne hji]

/-- An assignment whose value and column are there writes the value. -/
theorem assign_ok {pr : ParseResult} {row updated : Row} {names : List Str} {a : Str × ℤ} {i : ℕ}
    {v : Value} (hi : names.idxOf? a.1 = some i)
    (hv : (pr.expression a.2 >>= evalExpr pr row names) = .ok v) (hlt : i < updated.length) :
    assign pr row names updated a = .ok (updated.set i v) := by
  obtain ⟨e, he, hv⟩ := bind_eq_ok.1 hv
  unfold assign
  rw [hi]
  dsimp only
  rw [he, ok_bind, hv, ok_bind, if_pos hlt]
  rfl

/-- Whether an assignment fails, and how, depends only on the length of the copy. -/
theorem assign_eq_error {pr : ParseResult} {row updated updated' : Row} {names : List Str}
    {a : Str × ℤ} {f : Failure ExecError} (hlen : updated.length = updated'.length)
    (h : assign pr row names updated a = .error f) : assign pr row names updated' a = .error f := by
  unfold assign at h ⊢
  cases hi : names.idxOf? a.1 with
  | none =>
    rw [hi] at h
    exact h
  | some i =>
    rw [hi] at h
    dsimp only at h ⊢
    rw [← hlen]
    rcases he : (pr.expression a.2 : Expected ExecError Expression) with e | expr
    · rw [he] at h
      exact h
    rw [he, ok_bind] at h
    rw [ok_bind]
    rcases hv : evalExpr pr row names expr with e | v
    · rw [hv] at h
      exact h
    rw [hv, ok_bind] at h
    rw [ok_bind]
    by_cases hlt : i < updated.length
    · rw [if_pos hlt] at h
      cases h
    · rw [if_neg hlt] at h ⊢
      exact h

/-! ### Many assignments -/

theorem foldlM_assign_length {pr : ParseResult} {row : Row} {names : List Str}
    {assignments : List (Str × ℤ)} {updated updated' : Row}
    (h : assignments.foldlM (assign pr row names) updated = .ok updated') :
    updated'.length = updated.length := by
  induction assignments generalizing updated with
  | nil =>
    cases h
    rfl
  | cons a assignments ih =>
    rw [List.foldlM_cons] at h
    obtain ⟨next, hnext, h⟩ := bind_eq_ok.1 h
    obtain ⟨i, v, -, -, -, rfl⟩ := assign_eq_ok hnext
    rw [ih h, List.length_set]

/-- The copy fails as one of the assignments does on the old row. -/
theorem foldlM_assign_error {pr : ParseResult} {row : Row} {names : List Str}
    {assignments : List (Str × ℤ)} {updated : Row} {f : Failure ExecError}
    (hlen : updated.length = row.length)
    (h : assignments.foldlM (assign pr row names) updated = .error f) :
    ∃ a ∈ assignments, assign pr row names row a = .error f := by
  induction assignments generalizing updated with
  | nil => cases h
  | cons a assignments ih =>
    rw [List.foldlM_cons] at h
    rcases ha : assign pr row names updated a with f' | next
    · rw [ha] at h
      cases h
      exact ⟨a, List.mem_cons_self, assign_eq_error hlen ha⟩
    · rw [ha, ok_bind] at h
      obtain ⟨i, v, -, -, -, rfl⟩ := assign_eq_ok ha
      obtain ⟨b, hb, hfail⟩ := ih (by rw [List.length_set, hlen]) h
      exact ⟨b, List.mem_cons_of_mem _ hb, hfail⟩

/-- Two columns with one place have one name. -/
theorem eq_of_idxOf?_eq {names : List Str} {a b : Str} {i : ℕ} (ha : names.idxOf? a = some i)
    (hb : names.idxOf? b = some i) : a = b := by
  obtain ⟨hlt, hget, -⟩ := List.idxOf?_eq_some_iff.1 ha
  obtain ⟨_, hget', -⟩ := List.idxOf?_eq_some_iff.1 hb
  exact hget.symm.trans hget'

/-! ### The new row -/

/-- The row after some assignments at once: each is of a column that is there, whose new value is
that of its expression on the old row, and no other column changes. -/
structure Simultaneous (pr : ParseResult) (names : List Str) (row : Row)
    (assignments : List (Str × ℤ)) (updated : Row) : Prop where
  length : updated.length = row.length
  assigned : ∀ a ∈ assignments, ∃ i v, names.idxOf? a.1 = some i ∧
    (pr.expression a.2 >>= evalExpr pr row names) = .ok v ∧ updated[i]? = some v
  kept : ∀ i, (∀ a ∈ assignments, names.idxOf? a.1 ≠ some i) → updated[i]? = row[i]?

variable {pr : ParseResult} {names : List Str} {row updated : Row}
  {assignments : List (Str × ℤ)}

namespace Simultaneous

/-- The new row is determined by the set of assignments. -/
theorem unique {updated' : Row} (h : Simultaneous pr names row assignments updated)
    (h' : Simultaneous pr names row assignments updated') : updated = updated' := by
  refine List.ext_getElem? fun i => ?_
  by_cases hi : ∀ a ∈ assignments, names.idxOf? a.1 ≠ some i
  · rw [h.kept i hi, h'.kept i hi]
  · push Not at hi
    obtain ⟨a, ha, hidx⟩ := hi
    obtain ⟨j, v, hj, hv, hget⟩ := h.assigned a ha
    obtain ⟨j', v', hj', hv', hget'⟩ := h'.assigned a ha
    obtain rfl : j = j' := Option.some.inj (hj.symm.trans hj')
    obtain rfl : j = i := Option.some.inj (hj.symm.trans hidx)
    obtain rfl : v = v' := Except.ok.inj (hv.symm.trans hv')
    exact hget.trans hget'.symm

/-- The order of the assignments does not matter. -/
theorem perm {assignments' : List (Str × ℤ)} (hperm : assignments.Perm assignments')
    (h : Simultaneous pr names row assignments updated) :
    Simultaneous pr names row assignments' updated where
  length := h.length
  assigned a ha := h.assigned a (hperm.mem_iff.2 ha)
  kept i hi := h.kept i fun a ha => hi a (hperm.mem_iff.1 ha)

end Simultaneous

/-- Assignments that can be made at once can be made one after the other. -/
theorem exists_foldlM_assign
    (h : ∀ a ∈ assignments, ∃ i v, names.idxOf? a.1 = some i ∧
      (pr.expression a.2 >>= evalExpr pr row names) = .ok v ∧ i < updated.length) :
    ∃ updated', assignments.foldlM (assign pr row names) updated = .ok updated' := by
  induction assignments generalizing updated with
  | nil => exact ⟨updated, rfl⟩
  | cons a assignments ih =>
    obtain ⟨⟨i, v, hi, hv, hlt⟩, hrest⟩ := List.forall_mem_cons.1 h
    obtain ⟨updated', hupdated'⟩ : ∃ updated', assignments.foldlM (assign pr row names)
        (updated.set i v) = .ok updated' := ih fun b hb => by
      obtain ⟨j, w, hj, hw, hltj⟩ := hrest b hb
      exact ⟨j, w, hj, hw, by rwa [List.length_set]⟩
    refine ⟨updated', ?_⟩
    rw [List.foldlM_cons, assign_ok hi hv hlt, ok_bind, hupdated']

/-- Each of some assignments to distinct columns leaves its value in its column. -/
theorem foldlM_assign_assigned (hnodup : (assignments.map (·.1)).Nodup) {updated' : Row}
    (h : assignments.foldlM (assign pr row names) updated = .ok updated') :
    ∀ a ∈ assignments, ∃ i v, names.idxOf? a.1 = some i ∧
      (pr.expression a.2 >>= evalExpr pr row names) = .ok v ∧ updated'[i]? = some v := by
  induction assignments generalizing updated with
  | nil => nofun
  | cons a assignments ih =>
    rw [List.map_cons, List.nodup_cons] at hnodup
    rw [List.foldlM_cons] at h
    obtain ⟨next, hnext, h⟩ := bind_eq_ok.1 h
    refine List.forall_mem_cons.2 ⟨?_, ih hnodup.2 h⟩
    obtain ⟨i, v, hi, hv, hlt, rfl⟩ := assign_eq_ok hnext
    -- the assignments after this one have other names, so none of them is to this column
    have hothers : ∀ b ∈ assignments, names.idxOf? b.1 ≠ some i := fun b hb hbi =>
      hnodup.1 (List.mem_map.2 ⟨b, hb, eq_of_idxOf?_eq hbi hi⟩)
    refine ⟨i, v, hi, hv, ?_⟩
    rw [foldlM_assign_getElem? hothers h, List.getElem?_set_self hlt]

/-- `rowFromUpdate` makes assignments to distinct columns at once. -/
theorem rowFromUpdate_eq_ok_iff (hnodup : (assignments.map (·.1)).Nodup) :
    rowFromUpdate row assignments pr names = .ok updated ↔
      Simultaneous pr names row assignments updated := by
  have hsound : ∀ {updated}, rowFromUpdate row assignments pr names = .ok updated →
      Simultaneous pr names row assignments updated := fun h =>
    ⟨foldlM_assign_length h, foldlM_assign_assigned hnodup h,
      fun i hi => foldlM_assign_getElem? hi h⟩
  refine ⟨hsound, fun h => ?_⟩
  obtain ⟨updated', hupdated'⟩ : ∃ updated', rowFromUpdate row assignments pr names =
      .ok updated' := exists_foldlM_assign fun a ha => by
    obtain ⟨i, v, hi, hv, hget⟩ := h.assigned a ha
    exact ⟨i, v, hi, hv, h.length ▸ (List.getElem?_eq_some_iff.1 hget).1⟩
  rw [h.unique (hsound hupdated')]
  exact hupdated'

/-- A column that is assigned another one takes its value. -/
theorem assigned_columnRef {a : Str} {i : ℤ} {k : ℕ} {v : Value}
    (hnode : pr.HasNode i (.columnRef [] a)) (hk : names.idxOf? a = some k)
    (hv : row[k]? = some v) : (pr.expression i >>= evalExpr pr row names) = .ok v := by
  rw [hnode.expression, ok_bind, (Unfolds.leaf rfl).evalExpr]
  change columnValue row names a = .ok v
  rw [columnValue, hk]
  dsimp only
  rw [hv]

/-- `SET a = b, b = a` swaps. -/
theorem rowFromUpdate_swaps {a b : Str} {i j : ℤ} (hi : pr.HasNode i (.columnRef [] b))
    (hj : pr.HasNode j (.columnRef [] a)) {k l : ℕ} {v w : Value} (hk : names.idxOf? a = some k)
    (hl : names.idxOf? b = some l) (hv : row[k]? = some v) (hw : row[l]? = some w) :
    rowFromUpdate row [(a, i), (b, j)] pr names = .ok ((row.set k w).set l v) := by
  obtain ⟨hklt, -⟩ := List.getElem?_eq_some_iff.1 hv
  obtain ⟨hllt, -⟩ := List.getElem?_eq_some_iff.1 hw
  have ha : assign pr row names row (a, i) = .ok (row.set k w) :=
    assign_ok hk (assigned_columnRef hi hl hw) hklt
  have hb : assign pr row names (row.set k w) (b, j) = .ok ((row.set k w).set l v) :=
    assign_ok hl (assigned_columnRef hj hk hv) (by rwa [List.length_set])
  rw [rowFromUpdate, List.foldlM_cons, ha, ok_bind, List.foldlM_cons, hb]
  rfl

/-- What two lists of assignments to the same columns do to a row. -/
structure SameUpdate (pr : ParseResult) (names : List Str) (row : Row)
    (assignments assignments' : List (Str × ℤ)) : Prop where
  /-- both fail, or both succeed with the same row -/
  fails : (∃ f, rowFromUpdate row assignments pr names = .error f) ↔
    ∃ f, rowFromUpdate row assignments' pr names = .error f
  succeeds : ∀ updated, rowFromUpdate row assignments pr names = .ok updated ↔
    rowFromUpdate row assignments' pr names = .ok updated
  /-- the row has the values of the expressions on the old row, and the old values elsewhere -/
  simultaneous : ∀ updated, rowFromUpdate row assignments pr names = .ok updated →
    Simultaneous pr names row assignments updated
  /-- a failure is that of one of the assignments by itself -/
  alone : ∀ f, rowFromUpdate row assignments pr names = .error f →
    ∃ a ∈ assignments, rowFromUpdate row [a] pr names = .error f

/-- **SET assignments are simultaneous**: a permutation of assignments to distinct columns does
the same, and `SET a = b, b = a` swaps. -/
theorem rowFromUpdate_simultaneous {pr : ParseResult} {names : List Str} {row : Row}
    {assignments assignments' : List (Str × ℤ)} (hnodup : (assignments.map (·.1)).Nodup)
    (hperm : assignments.Perm assignments') :
    SameUpdate pr names row assignments assignments' ∧
      ∀ a b i j, pr.HasNode i (.columnRef [] b) → pr.HasNode j (.columnRef [] a) →
        ∀ k l v w, names.idxOf? a = some k → names.idxOf? b = some l →
          row[k]? = some v → row[l]? = some w →
          rowFromUpdate row [(a, i), (b, j)] pr names = .ok ((row.set k w).set l v) := by
  have hnodup' : (assignments'.map (·.1)).Nodup := (hperm.map (·.1)).nodup_iff.1 hnodup
  have hsame : ∀ updated, rowFromUpdate row assignments pr names = .ok updated ↔
      rowFromUpdate row assignments' pr names = .ok updated := fun updated => by
    rw [rowFromUpdate_eq_ok_iff hnodup, rowFromUpdate_eq_ok_iff hnodup']
    exact ⟨fun h => h.perm hperm, fun h => h.perm hperm.symm⟩
  refine ⟨⟨exists_error_congr hsame, hsame, fun _ => (rowFromUpdate_eq_ok_iff hnodup).1, ?_⟩,
    fun a b i j hi hj k l v w hk hl hv hw => rowFromUpdate_swaps hi hj hk hl hv hw⟩
  intro f h
  obtain ⟨a, ha, hfail⟩ := foldlM_assign_error rfl h
  refine ⟨a, ha, ?_⟩
  rw [rowFromUpdate, List.foldlM_cons, hfail]
  rfl

/-- `SET a = b, b = a` and `SET b = a, a = b` on a row of 1 and 2. -/
def swapParsed : ParseResult where
  expressions := [.columnRef [] (str "b"), .columnRef [] (str "a")]
  statement := {
    kind := .update, tableName := str "t", assignments := [(str "a", 0), (str "b", 1)] }

theorem rowFromUpdate_simultaneous_swap :
    rowFromUpdate [.int 1, .int 2] [(str "b", 1), (str "a", 0)] swapParsed [str "a", str "b"] =
      .ok [.int 2, .int 1] := by
  have h := @rowFromUpdate_simultaneous swapParsed [str "a", str "b"] [.int 1, .int 2]
    [(str "a", 0), (str "b", 1)] _ (by decide) (List.Perm.swap (str "b", 1) (str "a", 0) [])
  exact (h.1.succeeds _).1 (h.2 (str "a") (str "b") 0 1 ⟨by decide, rfl⟩ ⟨by decide, rfl⟩ 0 1
    (.int 1) (.int 2) (by decide) (by decide) rfl rfl)

end MicroSql
