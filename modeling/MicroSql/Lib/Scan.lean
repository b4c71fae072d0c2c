import Mathlib.Data.List.ReduceOption
import MicroSql.Lib.Prog
import MicroSql.Lib.Except

/-!
# Loops over the positions of a list

Loops that visit the positions of a list, and what they compute from the elements
there.
-/

namespace MicroSql.Lib

variable {σ ε α β : Type}

/-- The positions from `k` to the end of a list list its elements. -/
theorem map_range'_getElem? (xs : List α) {k m : ℕ} (h : k + m = xs.length) :
    (List.range' k m).map (fun i => xs[i]?) = (xs.drop k).map some := by
  induction m generalizing k with
  | zero =>
    rw [List.drop_of_length_le (by omega)]
    rfl
  | succ m ih =>
    have hk : k < xs.length := by omega
    rw [List.range'_succ, List.map_cons, ih (by omega), List.drop_eq_getElem_cons hk,
      List.map_cons, List.getElem?_eq_getElem hk]

/-- The elements that the positions of a list of lists list. -/
theorem flatMap_range'_getElem? (xss : List (List α)) {k m : ℕ} (h : k + m = xss.length) :
    (List.range' k m).flatMap (fun i => xss[i]?.getD []) = (xss.drop k).flatten := by
  have hmap := congrArg (List.map fun o : Option (List α) => o.getD [])
    (map_range'_getElem? xss h)
  rw [List.map_map, List.map_map] at hmap
  have hid : (xss.drop k).map ((fun o : Option (List α) => o.getD []) ∘ some) = xss.drop k := by
    conv_rhs => rw [← List.map_id (xss.drop k)]
    rfl
  rw [hid] at hmap
  rw [List.flatMap_def, ← hmap]
  rfl

/-- An element of a concatenation is an element of one of the lists. -/
theorem flatMap_eq_append_cons {f : α → List β} {xs : List α} {before after : List β} {y : β}
    (h : xs.flatMap f = before ++ y :: after) :
    ∃ (k : ℕ) (x : α) (u v : List β), xs[k]? = some x ∧ f x = u ++ y :: v ∧
      before = (xs.take k).flatMap f ++ u ∧ after = v ++ (xs.drop (k + 1)).flatMap f := by
  induction xs generalizing before with
  | nil => simp at h
  | cons x xs ih =>
    -- it is an element of a list after `x`, or of `f x`
    have hcase : (∃ before', before = f x ++ before' ∧ xs.flatMap f = before' ++ y :: after) ∨
        ∃ v, f x = before ++ y :: v ∧ after = v ++ xs.flatMap f := by
      rw [List.flatMap_cons, List.append_eq_append_iff] at h
      obtain hlater | ⟨rest, hf, h⟩ := h
      · exact .inl hlater
      · obtain ⟨rfl, h⟩ | ⟨v, rfl, rfl⟩ := List.cons_eq_append_iff.1 h
        · exact .inl ⟨[], by simpa using hf.symm, h.symm⟩
        · exact .inr ⟨v, hf, rfl⟩
    rcases hcase with ⟨before', rfl, h'⟩ | ⟨v, hf, rfl⟩
    · obtain ⟨k, x', u, v, hx, hf, rfl, hafter⟩ := ih h'
      refine ⟨k + 1, x', u, v, hx, hf, ?_, hafter⟩
      rw [List.take_succ_cons, List.flatMap_cons, List.append_assoc]
    · exact ⟨0, x, before, v, rfl, hf, rfl, rfl⟩

/-- An element among the values of a list of options is the value of one of them. -/
theorem reduceOption_eq_append_cons {l : List (Option α)} {u v : List α} {x : α}
    (h : l.reduceOption = u ++ x :: v) :
    ∃ i, l[i]? = some (some x) ∧ u = (l.take i).reduceOption ∧
      v = (l.drop (i + 1)).reduceOption := by
  rw [← List.singleton_append, ← List.append_assoc, ← List.concat_eq_append,
    List.reduceOption_eq_append_iff] at h
  obtain ⟨l₁, l₂, rfl, hconcat, rfl⟩ := h
  obtain ⟨m, rest, rfl, rfl, hrest⟩ := (List.reduceOption_eq_concat_iff _ _ _).1 hconcat
  refine ⟨m.length, ?_, ?_, ?_⟩
  · simp
  · simp
  · rw [List.append_assoc, List.drop_append, List.drop_of_length_le (Nat.le_succ _)]
    simp [List.reduceOption_append, hrest]

/-- Two elements of a list, one after the other: the list around the first of them. -/
theorem pair_sublist_iff_right {l : List α} {x y : α} :
    [x, y].Sublist l ↔ ∃ before after, l = before ++ x :: after ∧ y ∈ after := by
  rw [List.cons_sublist_iff]
  constructor
  · rintro ⟨r₁, r₂, rfl, hx, hy⟩
    obtain ⟨before, rest, rfl⟩ := List.append_of_mem hx
    refine ⟨before, rest ++ r₂, by simp, ?_⟩
    exact List.mem_append_right _ (List.singleton_sublist.1 hy)
  · rintro ⟨before, after, rfl, hy⟩
    exact ⟨before ++ [x], after, by simp, by simp, List.singleton_sublist.2 hy⟩

/-- Two elements of a list, one after the other: the list around the second of them. -/
theorem pair_sublist_iff_left {l : List α} {x y : α} :
    [x, y].Sublist l ↔ ∃ before after, l = before ++ y :: after ∧ x ∈ before := by
  rw [pair_sublist_iff_right]
  constructor
  · rintro ⟨before, rest, rfl, hy⟩
    obtain ⟨mid, after, rfl⟩ := List.append_of_mem hy
    exact ⟨before ++ x :: mid, after, by simp, by simp⟩
  · rintro ⟨before, after, rfl, hx⟩
    obtain ⟨first, mid, rfl⟩ := List.append_of_mem hx
    exact ⟨first, mid ++ y :: after, by simp, by simp⟩

/-- A function that is not injective on a list agrees on two of its elements. -/
theorem not_nodup_map_iff {f : α → β} {l : List α} :
    ¬(l.map f).Nodup ↔ ∃ x y, [x, y].Sublist l ∧ f x = f y := by
  rw [List.Nodup, List.pairwise_map, List.pairwise_iff_forall_sublist]
  constructor
  · intro h
    by_contra hne
    exact h fun hs heq => hne ⟨_, _, hs, heq⟩
  · rintro ⟨x, y, hs, heq⟩ h
    exact h hs heq

/-- A loop over the positions of a list that uses the element at each of them. -/
theorem foldlM_range' {f : β → ℕ → Prog σ ε β} {g : β → α → Except ε β} {s : σ} (xs : List α)
    (hf : ∀ i x b, xs[i]? = some x → f b i s = (g b x, s)) {k m : ℕ} (h : k + m = xs.length)
    (b : β) : (List.range' k m).foldlM f b s = ((xs.drop k).foldlM g b, s) := by
  induction m generalizing k b with
  | zero =>
    rw [List.drop_of_length_le (by omega)]
    rfl
  | succ m ih =>
    have hk : k < xs.length := by omega
    rw [List.range'_succ, List.foldlM_cons, List.drop_eq_getElem_cons hk, List.foldlM_cons]
    have hstep := hf k xs[k] b (List.getElem?_eq_getElem hk)
    rcases hg : g b xs[k] with e | b'
    · rw [hg] at hstep
      rw [Prog.bind_error hstep, error_bind]
    · rw [hg] at hstep
      rw [Prog.bind_ok hstep, ok_bind, ih (by omega)]

/-- A search whose tests only read and never fail. -/
theorem anyM_apply {p : α → Prog σ ε Bool} {q : α → Bool} {s : σ} (xs : List α)
    (hp : ∀ x ∈ xs, p x s = (.ok (q x), s)) : xs.anyM p s = (.ok (xs.any q), s) := by
  induction xs with
  | nil => rfl
  | cons x xs ih =>
    rw [List.anyM, Prog.bind_ok (hp x List.mem_cons_self), List.any_cons]
    cases q x with
    | true => rfl
    | false => exact ih fun y hy => hp y (List.mem_cons_of_mem x hy)

/-- A loop that only reads fails at the first position where its body does. -/
theorem foldlM_range_eq_error {f : β → ℕ → Prog σ ε β} (hf : ∀ b i, (f b i).ReadOnly) {s : σ}
    {n : ℕ} {b : β} {e : ε} :
    ((List.range n).foldlM f b s).1 = .error e ↔
      ∃ i b', i < n ∧ ((List.range i).foldlM f b s).1 = .ok b' ∧ (f b' i s).1 = .error e := by
  have hsplit : ∀ m, (List.range (m + 1)).foldlM f b =
      (List.range m).foldlM f b >>= fun b' => f b' m := by
    intro m
    rw [List.range_succ, List.foldlM_append]
    congr 1
    funext b'
    rw [List.foldlM_cons]
    exact bind_pure (f b' m)
  induction n with
  | zero =>
    constructor
    · rintro ⟨⟩
    · rintro ⟨i, b', hi, -⟩
      exact absurd hi (Nat.not_lt_zero i)
  | succ m ih =>
    have hread := (Prog.ReadOnly.foldlM hf (List.range m) b).eq s
    rw [hsplit]
    rcases hm : ((List.range m).foldlM f b s).1 with e' | b'
    · rw [hm] at hread ih
      rw [Prog.bind_error hread]
      constructor
      · rintro ⟨⟩
        obtain ⟨i, b', hi, hok, herr⟩ := ih.1 rfl
        exact ⟨i, b', by omega, hok, herr⟩
      · rintro ⟨i, b', hi, hok, herr⟩
        -- the loop has not come to position `m`
        have hne : i ≠ m := by
          rintro rfl
          rw [hm] at hok
          cases hok
        exact ih.2 ⟨i, b', by omega, hok, herr⟩
    · rw [hm] at hread ih
      rw [Prog.bind_ok hread]
      constructor
      · intro herr
        exact ⟨m, b', Nat.lt_succ_self m, hm, herr⟩
      · rintro ⟨i, b'', hi, hok, herr⟩
        by_cases him : i = m
        · subst him
          rw [hm] at hok
          cases hok
          exact herr
        · have hearly := ih.2 ⟨i, b'', by omega, hok, herr⟩
          cases hearly

/-- A loop that only reads and returns has passed every position. -/
theorem foldlM_range_passes {f : β → ℕ → Prog σ ε β} (hf : ∀ b i, (f b i).ReadOnly) {s : σ}
    {n : ℕ} {b b' : β} (h : ((List.range n).foldlM f b s).1 = .ok b') {i : ℕ} (hi : i < n) :
    ∃ b₁ b₂, ((List.range i).foldlM f b s).1 = .ok b₁ ∧ (f b₁ i s).1 = .ok b₂ := by
  have hnot : ∀ {j : ℕ} {b₁ : β} {e : ε}, j < n → ((List.range j).foldlM f b s).1 = .ok b₁ →
      (f b₁ j s).1 ≠ .error e := by
    intro j b₁ e hj hok herr
    have hfail := (foldlM_range_eq_error hf).2 ⟨j, b₁, hj, hok, herr⟩
    rw [h] at hfail
    cases hfail
  rcases hpart : ((List.range i).foldlM f b s).1 with e | b₁
  · obtain ⟨j, b₁, hj, hok, herr⟩ := (foldlM_range_eq_error hf).1 hpart
    exact absurd herr (hnot (by omega) hok)
  · rcases hstep : (f b₁ i s).1 with e | b₂
    · exact absurd hstep (hnot hi hpart)
    · exact ⟨b₁, b₂, rfl, hstep⟩

/-- What the body of a loop that only reads keeps, from position to position, holds at its end. -/
theorem foldlM_range_rule {f : β → ℕ → Prog σ ε β} (hf : ∀ b i, (f b i).ReadOnly) {s : σ} {n : ℕ}
    {b b' : β} {J : ℕ → β → Prop} (hstart : J 0 b)
    (hstep : ∀ i b b', i < n → J i b → (f b i s).1 = .ok b' → J (i + 1) b')
    (h : ((List.range n).foldlM f b s).1 = .ok b') : J n b' := by
  have hrule := Prog.Spec.foldlM_range' (f := f) (I := fun i b s' => s' = s ∧ J i b)
    (E := fun _ _ => True) 0 n b ?_
  · have hrun : (List.range n).foldlM f b s = (.ok b', s) := by
      rw [← h]
      exact (Prog.ReadOnly.foldlM hf _ _).eq s
    rw [List.range_eq_range'] at hrun
    have hend := (hrule.ok ⟨rfl, hstart⟩ hrun).2
    rwa [Nat.zero_add] at hend
  · rintro i b - hi
    refine Prog.Spec.intro ?_ fun _ _ _ _ _ => trivial
    rintro s₁ b₂ s₂ ⟨rfl, hb⟩ hrun
    have hkeep : s₂ = s₁ := by
      have hread := hf b i s₁
      rw [hrun] at hread
      exact hread
    exact ⟨hkeep, hstep i b b₂ (by omega) hb (by rw [hrun])⟩

/-- One position more. -/
theorem foldlM_range_succ {f : β → ℕ → Prog σ ε β} (hf : ∀ b i, (f b i).ReadOnly) {s : σ} {n : ℕ}
    {b b' b'' : β} (h : ((List.range n).foldlM f b s).1 = .ok b') (hstep : (f b' n s).1 = .ok b'') :
    ((List.range (n + 1)).foldlM f b s).1 = .ok b'' := by
  have hrun : (List.range n).foldlM f b s = (.ok b', s) := by
    rw [← h]
    exact (Prog.ReadOnly.foldlM hf _ _).eq s
  have hlast : f b' n s = (.ok b'', s) := by
    rw [← hstep]
    exact (hf b' n).eq s
  rw [List.range_succ, List.foldlM_append, Prog.bind_ok hrun, List.foldlM_cons, Prog.bind_ok hlast]
  rfl

end MicroSql.Lib
