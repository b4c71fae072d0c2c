import Mathlib.Data.List.TakeWhile
import MicroSql.Lexer.Ends
import MicroSql.Parser.Attempts

/-!
# The tokens of a text

What the parser relies on in the tokens that `tokenize` returns: the last one is `END_OF_FILE`,
and the text of an integer literal is a decimal integer that an `int` can hold, so that its
conversion returns.
-/

namespace MicroSql

open Lib

/-! ### Decimal integers -/

/-- A decimal integer is digits, after a minus sign or not. -/
theorem isInt_cases {s : Str} (h : isInt s = true) : ∃ b ds, (b :: ds).all Catalog.isDigit = true ∧
    ((s = 45 :: b :: ds ∧ Catalog.digits 0 (b :: ds) ≤ 2 ^ 31) ∨
      (s = b :: ds ∧ Catalog.digits 0 (b :: ds) < 2 ^ 31)) := by
  unfold isInt at h
  split at h
  all_goals
    rw [Bool.and_eq_true, Bool.and_eq_true, decide_eq_true_eq, bne_iff_ne] at h
    obtain ⟨⟨hne, hdigits⟩, hrange⟩ := h
    obtain ⟨b, ds, rfl⟩ := List.exists_cons_of_ne_nil hne
    refine ⟨b, ds, hdigits, ?_⟩
  · exact .inl ⟨rfl, hrange⟩
  · exact .inr ⟨rfl, hrange⟩

theorem takeWhile_isDigit {ds : Str} (h : ds.all Catalog.isDigit = true) :
    ds.takeWhile Catalog.isDigit = ds :=
  List.takeWhile_eq_self_iff.2 fun b hb => List.all_eq_true.1 h b hb

/-- A digit is no white space and no sign. -/
theorem ne_of_isDigit {b : UInt8} (h : Catalog.isDigit b = true) :
    Catalog.isSpace b = false ∧ b ≠ 45 ∧ b ≠ 43 := by
  revert h
  simp only [Catalog.isDigit, Catalog.isSpace, Bool.and_eq_true, decide_eq_true_eq,
    UInt8.le_iff_toNat_le, Bool.or_eq_false_iff, beq_eq_false_iff_ne, ne_eq,
    Bool.and_eq_false_imp, decide_eq_false_iff_not, ← UInt8.toNat_inj, UInt8.reduceToNat]
  omega

/-- `std::stoi` reads a decimal integer that an `int` can hold. -/
theorem stoi_of_isInt {s : Str} (h : isInt s = true) : ∃ n, stoi s = .ok n := by
  have hchecked : ∀ {ds : Str} {n : ℤ}, ds ≠ [] → -2 ^ 31 ≤ n → n < 2 ^ 31 →
      (if ds = [] ∨ n < -2 ^ 31 ∨ 2 ^ 31 ≤ n then .error (.fault .uncaughtException)
        else .ok n : Expected CatalogError ℤ) = .ok n := by
    intro ds n hne hlo hhi
    rw [if_neg]
    rintro (hnil | hlt | hle)
    · exact hne hnil
    · omega
    · omega
  obtain ⟨b, ds, hall, ⟨rfl, hrange⟩ | ⟨rfl, hrange⟩⟩ := isInt_cases h
  · have hread : Catalog.stoi (45 :: b :: ds) = .ok (-1 * Catalog.digits 0 (b :: ds)) := by
      simp only [Catalog.stoi, takeWhile_isDigit hall]
      exact hchecked (by simp) (by omega) (by omega)
    refine ⟨-1 * Catalog.digits 0 (b :: ds), ?_⟩
    have hspace : Catalog.isSpace 45 = false := by decide
    simp [stoi, hspace, hread]
  · obtain ⟨hspace, hminus, hplus⟩ := ne_of_isDigit (List.all_eq_true.1 hall b List.mem_cons_self)
    have hread : Catalog.stoi (b :: ds) = .ok (1 * Catalog.digits 0 (b :: ds)) := by
      unfold Catalog.stoi
      split
      next heq =>
        split at heq
        next hcons => exact absurd (List.cons.inj hcons).1 hminus
        next hcons => exact absurd (List.cons.inj hcons).1 hplus
        next =>
          cases heq
          simp only [takeWhile_isDigit hall]
          exact hchecked (by simp) (by omega) (by omega)
    refine ⟨1 * Catalog.digits 0 (b :: ds), ?_⟩
    simp [stoi, hspace, hread]

namespace Lexer

/-! ### The tokens of a round -/

/-- An integer literal is a decimal integer. -/
def IsDecimal (token : Token) : Prop := token.type = .integerLiteral → isInt token.value = true

theorem isDecimal_of_ne {token : Token} (h : token.type ≠ .integerLiteral) : IsDecimal token :=
  fun heq => absurd heq h

theorem literal_isDecimal {fuel : ℕ} {l l' : Lexer} {line : ℤ} {ts : List Token}
    (h : literal fuel l line = .ok (l', ts)) : ∀ t ∈ ts, IsDecimal t := by
  obtain ⟨m, -, h⟩ := bind_eq_ok.1 h
  split at h
  · cases h
    exact fun t ht => isDecimal_of_ne (by simp [List.mem_singleton.1 ht])
  · obtain ⟨value, -, h⟩ := bind_eq_ok.1 h
    cases h
    exact fun t ht => isDecimal_of_ne (by simp [List.mem_singleton.1 ht])

theorem scan_isDecimal {fuel : ℕ} {l l' : Lexer} {line line' : ℤ} {ts : List Token}
    (h : scan fuel l line = .ok (l', line', ts)) : ∀ t ∈ ts, IsDecimal t := by
  have hone : ∀ {t : Token}, IsDecimal t → ∀ t' ∈ [t], IsDecimal t' := by
    intro t ht t' hmem
    rw [List.mem_singleton.1 hmem]
    exact ht
  cases scan_cases h with
  | skip => simp
  | comment => simp
  | single type hmem =>
    have hsymbols : ∀ e ∈ singles, e.2 ≠ .integerLiteral := by decide
    exact hone (isDecimal_of_ne (hsymbols _ hmem))
  | double type hmem =>
    have hsymbols : ∀ e ∈ doubles, e.2.2 ≠ .integerLiteral := by decide
    exact hone (isDecimal_of_ne (hsymbols _ hmem))
  | minus => exact hone (isDecimal_of_ne (by simp))
  | literal m _ _ hm => exact literal_isDecimal hm
  | word m word => exact hone (isDecimal_of_ne (getTokenTypeAlpha_ne (by decide) (by decide) _))
  | number m num =>
    -- the only branch that returns integer literals
    refine hone fun htype => ?_
    simp only [getTokenTypeDigit] at htype
    by_contra hint
    rw [if_neg hint] at htype
    split at htype <;> cases htype

end Lexer

/-! ### The input of the parser -/

namespace Input

variable {inp : Input}

/-- The tokens are those of some text. -/
def Lexed (inp : Input) : Prop := ∃ query n, Lexer.tokenize n ⟨query, 0⟩ = .ok inp.tokens

theorem Lexed.eofLast (h : inp.Lexed) : inp.EofLast := by
  obtain ⟨query, n, h⟩ := h
  obtain ⟨ts, line, htokens, -⟩ := Lexer.tokenize_rounds (fun _ => Lexer.scan_isDecimal) h
  have hlast : inp.last = ts.length := by simp [last, htokens]
  unfold EofLast token
  simp [hlast, htokens, Lexer.endToken]

theorem Lexed.isInt (h : inp.Lexed) {token : Token} (hmem : token ∈ inp.tokens)
    (htype : token.type = .integerLiteral) : isInt token.value = true := by
  obtain ⟨query, n, h⟩ := h
  obtain ⟨ts, line, htokens, hall⟩ := Lexer.tokenize_rounds (fun _ => Lexer.scan_isDecimal) h
  rw [htokens] at hmem
  rcases List.mem_append.1 hmem with hts | hend
  · exact hall token hts htype
  · rw [List.mem_singleton.1 hend] at htype
    cases htype

/-- `std::stof` returns for the float literals. -/
def FloatsConvert (inp : Input) : Prop :=
  ∀ token ∈ inp.tokens, token.type = .floatLiteral → ∃ x, inp.stof token.value = .ok x

/-- The conversions of the literals of a text return. -/
theorem Lexed.converts (h : inp.Lexed) (hfloats : inp.FloatsConvert) : inp.Converts := by
  intro token hmem e
  unfold literal
  split
  case h_1 htype =>
    obtain ⟨n, hn⟩ := stoi_of_isInt (h.isInt hmem htype)
    rw [hn]
    exact nofun
  case h_2 htype =>
    obtain ⟨x, hx⟩ := hfloats token hmem htype
    rw [hx]
    exact nofun
  all_goals exact nofun

end Input

end MicroSql
