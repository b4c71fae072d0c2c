import Mathlib.Data.Int.Notation
import Mathlib.Data.List.Nodup
import Mathlib.Tactic.Common

/-!
# Forests in arenas

An arena is a list of nodes that grows at its end; `kids` are the indices that a node has of
others.  When every node is pushed after its kids, and no node has two parents, the arena is a
forest: following indices ends, since they decrease, and two nodes share no tree.  The roots are
what a program that builds trees from below still holds.
-/

namespace MicroSql.Lib

variable {α : Type} (kids : α → List ℤ)

/-- Every node comes after its kids, and no index is a kid twice. -/
structure Forest (xs : List α) : Prop where
  below : ∀ (i : ℕ) x, xs[i]? = some x → ∀ j ∈ kids x, 0 ≤ j ∧ j < i
  once : (xs.flatMap kids).Nodup

/-- The index is that of a node which is no kid of another. -/
structure IsRoot (xs : List α) (i : ℤ) : Prop where
  nonneg : 0 ≤ i
  lt_length : i < xs.length
  not_mem : i ∉ xs.flatMap kids

/-- The arena has grown by nodes whose kids are new too. -/
inductive Grows (xs : List α) : List α → Prop
  | refl : Grows xs xs
  | push {ys : List α} {x : α} (h : Grows xs ys) (hx : ∀ j ∈ kids x, (xs.length : ℤ) ≤ j) :
      Grows xs (ys ++ [x])

variable {kids} {xs ys zs : List α} {x : α} {i : ℤ}

namespace Forest

theorem nil : Forest kids ([] : List α) where
  below := fun i x h => by cases h
  once := List.nodup_nil

/-- The kids are nodes of the arena. -/
theorem lt_length (h : Forest kids xs) {j : ℤ} (hj : j ∈ xs.flatMap kids) : j < xs.length := by
  obtain ⟨x, hx, hj⟩ := List.mem_flatMap.1 hj
  obtain ⟨i, hi, rfl⟩ := List.mem_iff_getElem.1 hx
  have := (h.below i _ (List.getElem?_eq_getElem hi) j hj).2
  omega

/-- A node whose kids are roots may be pushed. -/
theorem push (h : Forest kids xs) (hnodup : (kids x).Nodup)
    (hroots : ∀ j ∈ kids x, IsRoot kids xs j) : Forest kids (xs ++ [x]) where
  below := by
    intro i y hy j hj
    rcases Nat.lt_or_ge i xs.length with hi | hi
    · rw [List.getElem?_append_left hi] at hy
      exact h.below i y hy j hj
    · rw [List.getElem?_append_right hi] at hy
      obtain ⟨hlt, hget⟩ := List.getElem?_eq_some_iff.1 hy
      obtain rfl : x = y := by simpa using hget
      have hroot := hroots j hj
      have := hroot.lt_length
      exact ⟨hroot.nonneg, by omega⟩
  once := by
    rw [List.flatMap_append, List.flatMap_singleton, List.nodup_append]
    refine ⟨h.once, hnodup, ?_⟩
    rintro a ha b hb rfl
    exact (hroots a hb).not_mem ha

/-- No index is a kid of two nodes. -/
theorem parent_unique (h : Forest kids xs) {i k : ℕ} {x y : α} {j : ℤ} (hi : xs[i]? = some x)
    (hk : xs[k]? = some y) (hx : j ∈ kids x) (hy : j ∈ kids y) : i = k := by
  obtain ⟨-, hdisjoint⟩ := List.nodup_flatMap.1 h.once
  obtain ⟨hi', rfl⟩ := List.getElem?_eq_some_iff.1 hi
  obtain ⟨hk', rfl⟩ := List.getElem?_eq_some_iff.1 hk
  rw [List.pairwise_iff_getElem] at hdisjoint
  rcases Nat.lt_trichotomy i k with hik | rfl | hki
  · exact absurd hy (hdisjoint i k hi' hk' hik hx)
  · rfl
  · exact absurd hx (hdisjoint k i hk' hi' hki hy)

theorem nodup_kids (h : Forest kids xs) (hx : x ∈ xs) : (kids x).Nodup :=
  (List.nodup_flatMap.1 h.once).1 x hx

end Forest

namespace IsRoot

/-- The node that is pushed is a root. -/
theorem push_self (h : Forest kids xs) (hroots : ∀ j ∈ kids x, IsRoot kids xs j) :
    IsRoot kids (xs ++ [x]) xs.length where
  nonneg := Int.natCast_nonneg _
  lt_length := by
    rw [List.length_append, List.length_singleton]
    omega
  not_mem := by
    rw [List.flatMap_append, List.flatMap_singleton, List.mem_append]
    rintro (hmem | hmem)
    · exact Int.lt_irrefl _ (h.lt_length hmem)
    · exact Int.lt_irrefl _ (hroots _ hmem).lt_length

/-- A root stays one when nodes are pushed that have only new kids. -/
theorem grows (h : IsRoot kids xs i) (hgrows : Grows kids xs ys) : IsRoot kids ys i := by
  induction hgrows with
  | refl => exact h
  | @push ys x _ hx ih =>
    refine ⟨ih.nonneg, ?_, ?_⟩
    · have := ih.lt_length
      rw [List.length_append]
      omega
    · rw [List.flatMap_append, List.flatMap_singleton, List.mem_append]
      rintro (hmem | hmem)
      · exact ih.not_mem hmem
      · have := hx i hmem
        have := h.lt_length
        omega

end IsRoot

namespace Grows

theorem length_le (h : Grows kids xs ys) : xs.length ≤ ys.length := by
  induction h with
  | refl => exact Nat.le_refl _
  | push _ _ ih =>
    rw [List.length_append]
    exact Nat.le_add_right_of_le ih

theorem trans (h : Grows kids xs ys) (h' : Grows kids ys zs) : Grows kids xs zs := by
  induction h' with
  | refl => exact h
  | push _ hx ih =>
    have := h.length_le
    exact ih.push fun j hj => by have := hx j hj; omega

end Grows

end MicroSql.Lib
