import Mathlib.Tactic.Common
import Mathlib.Tactic.Ring

/-!
# Byte strings: windows, overwriting, little-endian numbers

Memory is a list.  `slice` reads a window of it, `splice` overwrites one, and a
window that is disjoint from the overwritten one reads as before: these two facts
are all that the layout proofs use.  `overwrite` is `splice` for a file, which a
write past the end extends.
-/

namespace MicroSql.Lib

variable {α : Type}

/-! ### Windows -/

/-- The `n` elements of `l` from position `off` on. -/
def slice (l : List α) (off n : ℕ) : List α := (l.drop off).take n

/-- `l` with the elements from position `off` on replaced by `bs`. -/
def splice (l : List α) (off : ℕ) (bs : List α) : List α :=
  l.take off ++ bs ++ l.drop (off + bs.length)

theorem length_slice {l : List α} {off n : ℕ} (h : off + n ≤ l.length) :
    (slice l off n).length = n := by
  simp only [slice, List.length_take, List.length_drop]
  omega

/-- Appending to a list does not change its windows. -/
theorem slice_append_of_le {l bs : List α} {off n : ℕ} (h : off + n ≤ l.length) :
    slice (l ++ bs) off n = slice l off n := by
  rw [slice, List.drop_append_of_le_length (by omega),
    List.take_append_of_le_length (by rw [List.length_drop]; omega), slice]

theorem slice_append_length (l bs : List α) : slice (l ++ bs) l.length bs.length = bs := by
  rw [slice, List.drop_left, List.take_length]

theorem length_splice {l bs : List α} {off : ℕ} (h : off + bs.length ≤ l.length) :
    (splice l off bs).length = l.length := by
  simp only [splice, List.length_append, List.length_take, List.length_drop]
  omega

theorem getElem?_slice (l : List α) (off n i : ℕ) :
    (slice l off n)[i]? = if i < n then l[off + i]? else none := by
  rw [slice, List.getElem?_take]
  split
  · rw [List.getElem?_drop]
  · rfl

theorem getElem?_splice {l bs : List α} {off : ℕ} (h : off + bs.length ≤ l.length) (i : ℕ) :
    (splice l off bs)[i]? =
      if off ≤ i ∧ i < off + bs.length then bs[i - off]? else l[i]? := by
  have hlen : (l.take off).length = off := by rw [List.length_take]; omega
  rw [splice, List.append_assoc, List.getElem?_append, hlen, List.getElem?_take]
  by_cases h1 : i < off
  · rw [if_pos h1, if_pos h1, if_neg (by omega)]
  · rw [if_neg h1, List.getElem?_append, List.getElem?_drop]
    by_cases h2 : i < off + bs.length
    · rw [if_pos (by omega), if_pos (by omega)]
    · rw [if_neg (by omega), if_neg (by omega)]
      congr 1
      omega

/-- The overwritten window reads as what was written. -/
theorem slice_splice_self {l bs : List α} {off : ℕ} (h : off + bs.length ≤ l.length) :
    slice (splice l off bs) off bs.length = bs := by
  apply List.ext_getElem?
  intro i
  rw [getElem?_slice, getElem?_splice h]
  by_cases hi : i < bs.length
  · rw [if_pos hi, if_pos (by omega)]
    congr 1
    omega
  · rw [if_neg hi, List.getElem?_eq_none (by omega)]

/-- A window disjoint from the overwritten one reads as before. -/
theorem slice_splice_of_disjoint {l bs : List α} {off off' n : ℕ}
    (h : off + bs.length ≤ l.length) (hd : off' + n ≤ off ∨ off + bs.length ≤ off') :
    slice (splice l off bs) off' n = slice l off' n := by
  apply List.ext_getElem?
  intro i
  rw [getElem?_slice, getElem?_slice, getElem?_splice h]
  by_cases hi : i < n
  · rw [if_pos hi, if_pos hi, if_neg (by omega)]
  · rw [if_neg hi, if_neg hi]

/-! ### Little-endian numbers -/

/-- The `w` low bytes of `n`, least significant byte first. -/
def toLE : ℕ → ℕ → List UInt8
  | 0, _ => []
  | w + 1, n => UInt8.ofNat n :: toLE w (n / 256)

/-- The number whose bytes are given, least significant byte first. -/
def fromLE : List UInt8 → ℕ
  | [] => 0
  | b :: bs => b.toNat + 256 * fromLE bs

@[simp] theorem length_toLE (w n : ℕ) : (toLE w n).length = w := by
  induction w generalizing n with
  | zero => rfl
  | succ w ih => simp [toLE, ih]

theorem fromLE_toLE (w n : ℕ) : fromLE (toLE w n) = n % 256 ^ w := by
  induction w generalizing n with
  | zero => simp [toLE, fromLE, Nat.mod_one]
  | succ w ih =>
    have hmod : n % 256 ^ (w + 1) = n % 256 + 256 * (n / 256 % 256 ^ w) := by
      rw [Nat.pow_succ, Nat.mul_comm, Nat.mod_mul]
    rw [toLE, fromLE, ih, UInt8.toNat_ofNat', hmod]

theorem fromLE_toLE_of_lt {w n : ℕ} (h : n < 256 ^ w) : fromLE (toLE w n) = n := by
  rw [fromLE_toLE, Nat.mod_eq_of_lt h]

/-! ### Files -/

/-- A file after `bs` is written at position `pos`.  A write past the end fills
the gap with `z`. -/
def overwrite (z : α) (l : List α) (pos : ℕ) (bs : List α) : List α :=
  l.take pos ++ List.replicate (pos - l.length) z ++ bs ++ l.drop (pos + bs.length)

theorem overwrite_eq_splice (z : α) {l : List α} {pos : ℕ} (h : pos ≤ l.length) (bs : List α) :
    overwrite z l pos bs = splice l pos bs := by
  rw [overwrite, splice, Nat.sub_eq_zero_of_le h, List.replicate_zero, List.append_nil]

theorem overwrite_of_length_le (z : α) {l : List α} {pos : ℕ} (h : l.length ≤ pos)
    (bs : List α) :
    overwrite z l pos bs = l ++ List.replicate (pos - l.length) z ++ bs := by
  rw [overwrite, List.take_of_length_le h, List.drop_of_length_le (by omega), List.append_nil]

/-- A write at the end appends. -/
theorem overwrite_length (z : α) (l bs : List α) : overwrite z l l.length bs = l ++ bs := by
  rw [overwrite_of_length_le z (le_refl _), Nat.sub_self, List.replicate_zero, List.append_nil]

end MicroSql.Lib
