import Mathlib.Data.Fintype.Card

/-!
# Trees in arenas

The nodes of a tree may be spread over an arena, where each node names its children by their
places.  A finite tree is then no deeper than the arena is large: on a path that visits more
nodes than there are, two would be the same, and a tree would be a part of itself.
-/

namespace MicroSql.Lib

variable {ι T : Type} {R : ι → T → Prop} {depth : T → ℕ}
  (hdown : ∀ i t, R i t → 2 ≤ depth t → ∃ j t', R j t' ∧ depth t' + 1 = depth t)

include hdown

/-- Below a tree of the arena there are trees of every smaller depth. -/
theorem exists_tree_of_depth {i : ι} {t : T} (h : R i t) {d : ℕ} (hpos : 1 ≤ d)
    (hd : d ≤ depth t) : ∃ j t', R j t' ∧ depth t' = d := by
  obtain ⟨n, hn⟩ := Nat.exists_eq_add_of_le hd
  induction n generalizing i t with
  | zero => exact ⟨i, t, h, hn⟩
  | succ n ih =>
    obtain ⟨j, t', h', hdepth⟩ := hdown i t h (by omega)
    exact ih h' (by omega) (by omega)

/-- The depth of a tree is at most the number of places, if no place holds two trees. -/
theorem depth_le_card [Fintype ι] (hfun : ∀ i t t', R i t → R i t' → t = t') {i : ι} {t : T}
    (h : R i t) : depth t ≤ Fintype.card ι := by
  have htrees : ∀ k : Fin (depth t), ∃ j t', R j t' ∧ depth t' = k + 1 := fun k =>
    exists_tree_of_depth hdown h (by omega) (by omega)
  choose place tree hR hdepth using htrees
  have hinj : Function.Injective place := by
    intro k k' hplace
    have htree : tree k = tree k' := hfun _ _ _ (hR k) (hplace ▸ hR k')
    have := hdepth k
    have := hdepth k'
    rw [htree] at *
    exact Fin.ext (by omega)
  have hcard := Fintype.card_le_of_injective place hinj
  rwa [Fintype.card_fin] at hcard

end MicroSql.Lib
