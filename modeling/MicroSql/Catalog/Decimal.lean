import MicroSql.Catalog.Catalog
import Mathlib.Data.List.TakeWhile

/-!
# Decimal numerals

`std::stoi` reads what `operator<<` writes for an `int`.
-/

namespace MicroSql

namespace Catalog

/-- The bytes of a string of ASCII characters. -/
theorem str_ofList {cs : List Char} (h : ∀ c ∈ cs, c.toNat < 128) :
    str (String.ofList cs) = cs.map fun c => c.toNat.toUInt8 := by
  unfold str
  rw [String.toUTF8_eq_toByteArray, String.toByteArray_ofList]
  induction cs with
  | nil => rfl
  | cons c cs ih =>
    have hc : c.toNat ≤ 127 := Nat.le_of_lt_succ (h c List.mem_cons_self)
    have hsize : c.utf8Size = 1 := by
      unfold Char.utf8Size
      exact if_pos (UInt32.le_iff_toNat_le.2 (show c.val.toNat ≤ 127 from hc))
    rw [List.utf8Encode_cons, ByteArray.data_append, Array.toList_append,
      ih fun c' hc' => h c' (List.mem_cons_of_mem c hc'), List.utf8Encode_singleton,
      String.utf8EncodeChar_eq_singleton hsize]
    rfl

/-- The decimal digits of a number. -/
def numeral (n : ℕ) : Str := (Nat.toDigits 10 n).map fun c => c.toNat.toUInt8

theorem toNat_of_isDigit {c : Char} (h : c.isDigit = true) : 48 ≤ c.toNat ∧ c.toNat ≤ 57 := by
  simp only [Char.isDigit, Bool.and_eq_true, decide_eq_true_eq, ge_iff_le,
    UInt32.le_iff_toNat_le] at h
  exact h

theorem toDigits_isDigit {n : ℕ} {c : Char} (hc : c ∈ Nat.toDigits 10 n) :
    48 ≤ c.toNat ∧ c.toNat ≤ 57 :=
  toNat_of_isDigit (Nat.isDigit_of_mem_toDigits (by decide) (by decide) hc)

theorem str_repr (n : ℕ) : str n.repr = numeral n := by
  rw [Nat.repr_eq_ofList_toDigits]
  exact str_ofList fun c hc => by have := toDigits_isDigit hc; omega

theorem numeral_ne_nil (n : ℕ) : numeral n ≠ [] := by
  simp [numeral]

theorem isDigit_of_mem_numeral {n : ℕ} {b : UInt8} (h : b ∈ numeral n) : isDigit b = true := by
  obtain ⟨c, hc, rfl⟩ := List.mem_map.1 h
  obtain ⟨hlo, hhi⟩ := toDigits_isDigit hc
  have hb : c.toNat.toUInt8.toNat = c.toNat := by
    simp only [Nat.toUInt8_eq, UInt8.toNat_ofNat']
    omega
  simp only [isDigit, Bool.and_eq_true, decide_eq_true_eq, UInt8.le_iff_toNat_le, hb]
  exact ⟨hlo, hhi⟩

theorem digits_numeral (n : ℕ) : digits 0 (numeral n) = n := by
  have hfold : ∀ (cs : List Char) (init : ℕ), (∀ c ∈ cs, c.toNat < 128) →
      digits init (cs.map fun c => c.toNat.toUInt8) = Nat.ofDigitChars 10 cs init := by
    intro cs
    induction cs with
    | nil =>
      intro init _
      rw [Nat.ofDigitChars_nil]
      rfl
    | cons c cs ih =>
      intro init h
      have hc := h c List.mem_cons_self
      have hb : c.toNat.toUInt8.toNat = c.toNat := by
        simp only [Nat.toUInt8_eq, UInt8.toNat_ofNat']
        omega
      rw [Nat.ofDigitChars_cons, ← ih _ fun c' hc' => h c' (List.mem_cons_of_mem c hc')]
      simp only [digits, List.map_cons, List.foldl_cons, hb]
      rfl
  unfold numeral
  rw [hfold _ 0 fun c hc => by have := toDigits_isDigit hc; omega, Nat.ofDigitChars_ten_toDigits]

/-- What is written for an `int`. -/
theorem str_toString (n : ℤ) :
    str (toString n) = if 0 ≤ n then numeral n.toNat else 45 :: numeral (-n).toNat := by
  rw [Int.toString_eq_repr, Int.repr_eq_if]
  split
  · exact str_repr _
  · rw [← str_repr]
    simp [str]
    rfl

theorem stoi_sign (n : ℕ) (sign : ℤ) (hlo : -2 ^ 31 ≤ sign * n) (hhi : sign * n < 2 ^ 31) :
    (let ds := (numeral n).takeWhile isDigit
     let m := sign * digits 0 ds
     if ds = [] ∨ m < -2 ^ 31 ∨ 2 ^ 31 ≤ m then .error (.fault .uncaughtException) else .ok m) =
      (.ok (sign * n) : Expected CatalogError ℤ) := by
  have htake : (numeral n).takeWhile isDigit = numeral n :=
    List.takeWhile_eq_self_iff.2 fun _ hb => isDigit_of_mem_numeral hb
  simp only [htake, digits_numeral]
  rw [if_neg]
  rintro (hnil | hlt | hle)
  · exact numeral_ne_nil n hnil
  · omega
  · omega

theorem stoi_toString {n : ℤ} (hlo : -2 ^ 31 ≤ n) (hhi : n < 2 ^ 31) :
    stoi (str (toString n)) = .ok n := by
  rw [str_toString]
  by_cases hn : 0 ≤ n
  · rw [if_pos hn]
    have hsign := stoi_sign n.toNat 1 (by omega) (by omega)
    rw [one_mul, Int.toNat_of_nonneg hn] at hsign
    rw [← hsign]
    cases hnum : numeral n.toNat with
    | nil => exact absurd hnum (numeral_ne_nil _)
    | cons b bs =>
      -- a digit is no sign
      have hb : isDigit b = true := isDigit_of_mem_numeral (hnum ▸ List.mem_cons_self)
      unfold stoi
      split
      next heq =>
        split at heq
        next hminus =>
          cases hminus
          exact absurd hb (by decide)
        next hplus =>
          cases hplus
          exact absurd hb (by decide)
        next =>
          cases heq
          rfl
  · rw [if_neg hn]
    have hsign := stoi_sign (-n).toNat (-1) (by omega) (by omega)
    rw [show (-1 : ℤ) * (-n).toNat = n by omega] at hsign
    exact hsign

/-- No white space is written. -/
theorem isSpace_of_mem_toString {n : ℤ} {b : UInt8} (h : b ∈ str (toString n)) :
    isSpace b = false := by
  have hdigit : ∀ {m : ℕ}, b ∈ numeral m → isSpace b = false := by
    intro m hb
    have := isDigit_of_mem_numeral hb
    revert this
    simp only [isDigit, isSpace, Bool.and_eq_true, decide_eq_true_eq, UInt8.le_iff_toNat_le,
      Bool.or_eq_false_iff, beq_eq_false_iff_ne, ne_eq, Bool.and_eq_false_imp,
      decide_eq_false_iff_not, ← UInt8.toNat_inj]
    intro hb
    refine ⟨fun h => ?_, fun _ => ?_⟩
    · rw [h] at hb
      exact absurd hb.1 (by decide)
    · change 48 ≤ b.toNat ∧ b.toNat ≤ 57 at hb
      change ¬b.toNat ≤ 13
      omega
  rw [str_toString] at h
  split at h
  · exact hdigit h
  · rcases List.mem_cons.1 h with rfl | h
    · decide
    · exact hdigit h

end Catalog

end MicroSql
