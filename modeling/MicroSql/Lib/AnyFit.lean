import Mathlib.Algebra.BigOperators.Group.List.Basic
import Mathlib.Algebra.GroupWithZero.Nat
import Mathlib.Algebra.Order.Group.Nat
import Mathlib.Logic.Relation
import Mathlib.Tactic.Common

/-!
# Any-fit packing

Bins of one capacity, with the space that is left in each.  An item goes into a bin that has room
for it, and a bin is opened only when none has; the space in a bin is never given back.  Then two
bins have always less space left than one bin has at first, so that the bins, but for one, are
half full.
-/

namespace MicroSql.Lib

/-- What the lists of the space that is left become. -/
inductive AnyFit (capacity : ℕ) : List ℕ → List ℕ → Prop
  /-- items go into bins that have room -/
  | placed {left left' : List ℕ} (h : List.Forall₂ (· ≤ ·) left' left) : AnyFit capacity left left'
  /-- an item for which no bin has room goes into a new one -/
  | opened {left : List ℕ} (size : ℕ) (hsize : size ≤ capacity) (hfull : ∀ f ∈ left, f < size) :
      AnyFit capacity left (left ++ [capacity - size])

/-- No two bins have together as much space left as one bin has at first. -/
def Packed (capacity : ℕ) (left : List ℕ) : Prop := left.Pairwise fun f g => f + g < capacity

variable {capacity : ℕ} {left left' : List ℕ}

theorem Packed.nil : Packed capacity [] := List.Pairwise.nil

theorem Packed.placed (h : Packed capacity left) (hle : List.Forall₂ (· ≤ ·) left' left) :
    Packed capacity left' := by
  induction hle with
  | nil => exact h
  | @cons f' f left' left hf hle ih =>
    obtain ⟨hfirst, hrest⟩ := List.pairwise_cons.1 h
    refine List.pairwise_cons.2 ⟨fun g' hg' => ?_, ih hrest⟩
    obtain ⟨i, hi, rfl⟩ := List.mem_iff_getElem.1 hg'
    have hi' : i < left.length := hle.length_eq ▸ hi
    have hg := hle.get hi hi'
    have hpair := hfirst _ (List.getElem_mem hi')
    simp only [List.get_eq_getElem] at hg
    omega

theorem Packed.opened (h : Packed capacity left) {size : ℕ} (hsize : size ≤ capacity)
    (hfull : ∀ f ∈ left, f < size) : Packed capacity (left ++ [capacity - size]) := by
  refine List.pairwise_append.2 ⟨h, List.pairwise_singleton _ _, fun f hf g hg => ?_⟩
  obtain rfl := List.mem_singleton.1 hg
  have := hfull f hf
  omega

theorem AnyFit.packed (h : AnyFit capacity left left') (hp : Packed capacity left) :
    Packed capacity left' := by
  cases h with
  | placed hle => exact hp.placed hle
  | opened size hsize hfull => exact hp.opened hsize hfull

/-- The bins that a run opens are packed. -/
theorem packed_of_run (h : Relation.ReflTransGen (AnyFit capacity) [] left) :
    Packed capacity left := by
  induction h with
  | refl => exact .nil
  | tail _ hstep ih => exact hstep.packed ih

/-- The bins, but for one, are half full. -/
theorem Packed.half (h : Packed capacity left) :
    capacity * (left.length - 1) ≤ 2 * (left.map (capacity - ·)).sum := by
  cases left with
  | nil => exact Nat.zero_le _
  | cons f left =>
    -- the first bin counts once more, for the one that may come before it
    suffices hmore : capacity * left.length + (capacity - f) ≤
        2 * ((f :: left).map (capacity - ·)).sum from (Nat.le_add_right _ _).trans hmore
    induction left generalizing f with
    | nil =>
      simp
      omega
    | cons g left ih =>
      obtain ⟨hfirst, hrest⟩ := List.pairwise_cons.1 h
      have hpair := hfirst g List.mem_cons_self
      have htail := ih g hrest
      rw [List.map_cons, List.sum_cons] at htail ⊢
      rw [List.map_cons, List.sum_cons, List.length_cons, Nat.mul_succ]
      omega

end MicroSql.Lib
