import MicroSql.Lexer.Recased

/-!
# Rendering tokens

Tokens are rendered by their spellings with a blank between two of them.  The lexer gives the
tokens back exactly if no text literal stands so far to the right that `int` has no number for
the position of its first character.
-/

namespace MicroSql

open Lib

namespace Lexer

/-- The spellings of operators and punctuation; not-equal signs have two. -/
def operators : List (TokenType × Str) := [
  (.equal, str "="), (.notEqual, str "!="), (.notEqual, str "<>"), (.lessThan, str "<"),
  (.lessEq, str "<="), (.greaterThan, str ">"), (.greaterEq, str ">="), (.plus, str "+"),
  (.minus, str "-"), (.star, str "*"), (.slash, str "/"), (.comma, str ","),
  (.semicolon, str ";"), (.dot, str "."), (.leftParen, str "("), (.rightParen, str ")")]

/-- The tokens that have a spelling, as types and values. -/
inductive Spelled : TokenType × Str → Prop
  | keyword {type : TokenType} {key word : Str} (hkey : (key, type) ∈ keywordMap)
      (hcase : toUpper word = key) : Spelled (type, word)
  | identifier {c : UInt8} {word : Str} (hstart : isWordStart c = true)
      (hword : ∀ b ∈ word, isWordChar b = true)
      (hother : ∀ e ∈ keywordMap, e.1 ≠ toUpper (c :: word)) : Spelled (.identifier, c :: word)
  | integer {ds : Str} (hne : ds ≠ []) (hdigits : ∀ d ∈ ds, Catalog.isDigit d = true)
      (hfits : Catalog.digits 0 ds < 2 ^ 31) : Spelled (.integerLiteral, ds)
  | text {s : Str} (hs : ∀ b ∈ s, b ≠ quote ∧ b ≠ 0) : Spelled (.stringLiteral, s)
  | operator {t : TokenType × Str} (ht : t ∈ operators) : Spelled t

/-- Texts stand in quotes. -/
def spelling (t : TokenType × Str) : Str :=
  if t.1 = .stringLiteral then quote :: t.2 ++ [quote] else t.2

/-- The tokens with single spaces between them. -/
def render (ts : List (TokenType × Str)) : Str := [ch ' '].intercalate (ts.map spelling)

/-- The lexer gives the tokens back, and the end. -/
def Undone (ts : List (TokenType × Str)) : Prop :=
  ∃ n, ∀ fuel ≥ n, ∃ tokens, tokenize fuel { query := render ts } = .ok tokens ∧
    tokens.map (fun t => (t.type, t.value)) = ts ++ [(.endOfFile, [])]

/-- The first character of each text literal has a position that is an `int`; the tokens begin
at position `k`. -/
def TextsFit : ℕ → List (TokenType × Str) → Prop
  | _, [] => True
  | k, t :: ts =>
    (t.1 = .stringLiteral → k + 1 < 2 ^ 31) ∧ TextsFit (k + (spelling t).length + 1) ts

/-! ### What follows a token -/

/-- The end of the query, or a blank. -/
def Separated (rest : Str) : Prop := rest.getD 0 0 = 0 ∨ rest.getD 0 0 = ch ' '

theorem render_singleton (t : TokenType × Str) : render [t] = spelling t :=
  List.intercalate_singleton

theorem render_cons_cons (t u : TokenType × Str) (ts : List (TokenType × Str)) :
    render (t :: u :: ts) = spelling t ++ ch ' ' :: render (u :: ts) := by
  simp [render, List.intercalate_cons_cons]

theorem Separated.not_wordChar {rest : Str} (h : Separated rest) :
    isWordChar (rest.getD 0 0) = false := by
  rcases h with h | h
  · rw [h]
    decide
  · rw [h]
    decide

theorem Separated.not_number {rest : Str} (h : Separated rest) :
    inNumber (rest.getD 0 0) = false := by
  rcases h with h | h
  · rw [h]
    decide
  · rw [h]
    decide

/-! ### One token -/

theorem getTokenTypeAlpha_keyword {key : Str} {type : TokenType} (h : (key, type) ∈ keywordMap) :
    ∀ word, toUpper word = key → getTokenTypeAlpha word = type := by
  rintro word rfl
  have hall : ∀ e ∈ keywordMap, keywordMap.lookup e.1 = some e.2 := by decide
  rw [getTokenTypeAlpha, hall _ h]
  rfl

theorem getTokenTypeAlpha_identifier {word : Str} (h : ∀ e ∈ keywordMap, e.1 ≠ toUpper word) :
    getTokenTypeAlpha word = .identifier := by
  have hnone : keywordMap.lookup (toUpper word) = none := by
    rw [List.lookup_eq_none_iff]
    intro e he
    simpa using (h e he).symm
  rw [getTokenTypeAlpha, hnone]
  rfl

theorem getTokenTypeDigit_integer {ds : Str} (hne : ds ≠ [])
    (hdigits : ∀ d ∈ ds, Catalog.isDigit d = true) (hfits : Catalog.digits 0 ds < 2 ^ 31) :
    getTokenTypeDigit ds = .integerLiteral := by
  have hint : isInt ds = true := by
    have hall : ds.all Catalog.isDigit = true := List.all_eq_true.2 hdigits
    unfold isInt
    split
    · exact absurd (hdigits 45 List.mem_cons_self) (by decide)
    · simpa [hne, hall] using hfits
  rw [getTokenTypeDigit, hint, if_pos rfl]

/-- The loop over a number without a dot. -/
theorem advanceNumber_append {q rest : Str} (hend : inNumber (rest.getD 0 0) = false) :
    ∀ {ds : Str} {k : ℕ} (fuel : ℕ) (hasDot : Bool), q.drop k = ds ++ rest →
      (∀ d ∈ ds, Catalog.isDigit d = true) → ds.length < fuel →
      advanceNumber fuel hasDot ⟨q, k⟩ = .ok ⟨q, k + ds.length⟩
  | [], k, fuel + 1, hasDot, hdrop, _, _ => by
    have hcur : (⟨q, k⟩ : Lexer).current = rest.getD 0 0 := current_of_drop hdrop
    rw [inNumber, Bool.or_eq_false_iff] at hend
    rw [advanceNumber, hcur, hend.1, hend.2, Bool.and_false, Bool.or_false,
      if_neg Bool.false_ne_true]
    rfl
  | d :: ds, k, fuel + 1, hasDot, hdrop, hdigits, hfuel => by
    have hcur : (⟨q, k⟩ : Lexer).current = d := current_of_drop hdrop
    have hnext : q.drop (k + 1) = ds ++ rest := drop_tail hdrop
    rw [advanceNumber, hcur, hdigits d List.mem_cons_self, Bool.true_or, if_pos rfl]
    refine (advanceNumber_append hend (k := k + 1) fuel _ hnext
      (fun b hb => hdigits b (List.mem_cons_of_mem d hb)) (Nat.lt_of_succ_lt_succ hfuel)).trans ?_
    rw [List.length_cons, Nat.add_assoc, Nat.add_comm 1]

section Scan

variable {fuel k : ℕ} {q rest : Str} {line : ℤ}

/-- The first round over an operator. -/
theorem scan_operator {t : TokenType × Str} (ht : t ∈ operators) (hrest : Separated rest)
    (hq : q.drop k = t.2 ++ rest) :
    scan fuel ⟨q, k⟩ line = .ok (⟨q, k + t.2.length⟩, line, [⟨t.1, t.2, line⟩]) := by
  have hcur : (⟨q, k⟩ : Lexer).current = (t.2 ++ rest).getD 0 0 := current_of_drop hq
  have hpeek : (⟨q, k⟩ : Lexer).peek = (t.2 ++ rest).getD 1 0 := by
    rw [← hq, getD_drop]
    rfl
  simp only [operators, List.mem_cons, List.not_mem_nil, or_false] at ht
  unfold scan
  rw [hcur, hpeek]
  rcases ht with rfl | rfl | rfl | rfl | rfl | rfl | rfl | rfl | rfl | rfl | rfl | rfl | rfl |
    rfl | rfl | rfl
  -- less, greater and minus signs look at the next character
  case inr.inr.inr.inl =>
    change (if rest.getD 0 0 = ch '=' then _ else if rest.getD 0 0 = ch '>' then _ else _) = _
    rcases hrest with h | h
    · rw [h]
      rfl
    · rw [h]
      rfl
  case inr.inr.inr.inr.inr.inl =>
    change (if rest.getD 0 0 = ch '=' then _ else _) = _
    rcases hrest with h | h
    · rw [h]
      rfl
    · rw [h]
      rfl
  case inr.inr.inr.inr.inr.inr.inr.inr.inl =>
    change (if rest.getD 0 0 = ch '-' then _ else _) = _
    rcases hrest with h | h
    · rw [h]
      rfl
    · rw [h]
      rfl
  all_goals rfl

theorem scan_blank (hq : q.drop k = ch ' ' :: rest) :
    scan fuel ⟨q, k⟩ line = .ok (⟨q, k + 1⟩, line, []) := by
  have hcur : (⟨q, k⟩ : Lexer).current = ch ' ' := current_of_drop hq
  unfold scan
  rw [hcur]
  rfl

/-- The round over a word. -/
theorem scan_wordToken {w : Str} (hstart : isWordStart (w.getD 0 0) = true)
    (hword : ∀ c ∈ w, isWordChar c = true) (hrest : Separated rest) (hq : q.drop k = w ++ rest)
    (hfuel : w.length < fuel) :
    scan fuel ⟨q, k⟩ line =
      .ok (⟨q, k + w.length⟩, line, [⟨getTokenTypeAlpha w, w, line⟩]) := by
  have hcur : isWordStart (⟨q, k⟩ : Lexer).current = true := by
    rw [current_of_drop hq]
    cases w with
    | nil => exact absurd hstart (by decide)
    | cons c w => exact hstart
  rw [scan_word hcur, advanceWhile_append fuel hq hword hrest.not_wordChar, if_pos hfuel, ok_bind]
  dsimp only
  rw [hq, Nat.add_sub_cancel_left, List.take_left]
  rfl

/-- The round at a digit. -/
theorem scan_digit {l : Lexer} (hdigit : Catalog.isDigit l.current = true) :
    scan fuel l line = (do
      let m ← advanceNumber fuel false l
      let num := (l.query.drop l.position).take (m.position - l.position)
      return (m, line, [⟨getTokenTypeDigit num, num, line⟩])) := by
  have hne : ∀ {c}, Catalog.isDigit c = false → l.current ≠ c := by
    rintro c hc rfl
    rw [hdigit] at hc
    cases hc
  have hstart : isWordStart l.current = false := by
    by_contra hstart
    rw [(not_number_of_isWordStart (by simpa using hstart)).1] at hdigit
    cases hdigit
  have hsymbol : symbolType l.current = none := by
    cases hsymbol : symbolType l.current with
    | none => rfl
    | some type =>
      have hall : ∀ e ∈ singles, Catalog.isDigit e.1 = false := by decide
      exact absurd rfl (hne (hall _ (symbolType_mem hsymbol)))
  unfold scan
  simp only [if_neg (hne (c := ch ' ') rfl), if_neg (hne (c := newline) rfl),
    if_neg (hne (c := ch '!') rfl), if_neg (hne (c := ch '<') rfl),
    if_neg (hne (c := ch '>') rfl), if_neg (hne (c := ch '-') rfl), hsymbol,
    if_neg (hne (c := quote) rfl), hstart, Bool.false_eq_true, if_false, hdigit, if_true]

theorem scan_integer {ds : Str} (hne : ds ≠ []) (hdigits : ∀ d ∈ ds, Catalog.isDigit d = true)
    (hrest : Separated rest) (hq : q.drop k = ds ++ rest) (hfuel : ds.length < fuel) :
    scan fuel ⟨q, k⟩ line =
      .ok (⟨q, k + ds.length⟩, line, [⟨getTokenTypeDigit ds, ds, line⟩]) := by
  have hcur : Catalog.isDigit (⟨q, k⟩ : Lexer).current = true := by
    rw [current_of_drop hq]
    cases ds with
    | nil => exact absurd rfl hne
    | cons d ds => exact hdigits d List.mem_cons_self
  rw [scan_digit hcur, advanceNumber_append hrest.not_number fuel false hq hdigits hfuel, ok_bind]
  dsimp only
  rw [hq, Nat.add_sub_cancel_left, List.take_left]
  rfl

/-- The round at a quote. -/
theorem scan_quote {l : Lexer} (hquote : l.current = quote) :
    scan fuel l line = (do
      let (l, tokens) ← literal fuel l line
      return (l, line, tokens)) := by
  unfold scan
  rw [hquote]
  rfl

theorem spelling_of_ne {type : TokenType} {value : Str} (h : type ≠ .stringLiteral) :
    spelling (type, value) = value := if_neg h

theorem keyword_ne_text : ∀ e ∈ keywordMap, e.2 ≠ .stringLiteral ∧ e.2 ≠ .identifier := by decide

theorem operator_ne_text : ∀ t ∈ operators, t.1 ≠ .stringLiteral := by decide

/-- The letters of a keyword. -/
theorem keyword_word {key word : Str} {type : TokenType} (hkey : (key, type) ∈ keywordMap)
    (hcase : toUpper word = key) :
    isWordStart (word.getD 0 0) = true ∧ ∀ c ∈ word, isWordChar c = true := by
  have htype := getTokenTypeAlpha_keyword hkey word hcase
  have hkeyword : getTokenTypeAlpha word ≠ .identifier := by
    rw [htype]
    exact (keyword_ne_text _ hkey).2
  obtain ⟨hne, halpha⟩ := isAlpha_of_keyword hkeyword rfl
  refine ⟨?_, fun c hc => isWordChar_of_isWordStart (isWordStart_of_isAlpha (halpha c hc))⟩
  cases word with
  | nil => exact absurd rfl hne
  | cons c word => exact isWordStart_of_isAlpha (halpha c List.mem_cons_self)

theorem inLiteral_of_ne {c : UInt8} (h : c ≠ quote ∧ c ≠ 0) : inLiteral c = true := by
  simpa [inLiteral] using h

/-- A spelling begins with a character that is read. -/
theorem Spelled.head {t : TokenType × Str} (h : Spelled t) (rest : Str) :
    (spelling t ++ rest).getD 0 0 ≠ 0 := by
  have hword : ∀ {w : Str} {p : UInt8 → Bool}, p (w.getD 0 0) = true → p 0 = false →
      (w ++ rest).getD 0 0 ≠ 0 := by
    intro w p hw h0
    cases w with
    | nil =>
      rw [show p (([] : Str).getD 0 0) = p 0 from rfl, h0] at hw
      cases hw
    | cons c w =>
      rintro hc
      have hc : c = 0 := hc
      rw [show ((c :: w).getD 0 0 : UInt8) = c from rfl, hc, h0] at hw
      cases hw
  cases h with
  | keyword hkey hcase =>
    rw [spelling_of_ne (keyword_ne_text _ hkey).1]
    exact hword (keyword_word hkey hcase).1 (by decide)
  | identifier hstart =>
    rw [spelling_of_ne (by decide)]
    exact hword (w := _ :: _) hstart (by decide)
  | @integer ds hne hdigits =>
    rw [spelling_of_ne (by decide)]
    refine hword (p := Catalog.isDigit) ?_ (by decide)
    cases ds with
    | nil => exact absurd rfl hne
    | cons d ds => exact hdigits d List.mem_cons_self
  | text => exact (by decide : quote ≠ 0)
  | operator ht =>
    obtain ⟨type, value⟩ := t
    have hall : ∀ e ∈ operators, (e.2.getD 0 0 != 0) = true := by decide
    rw [spelling_of_ne (operator_ne_text _ ht)]
    exact hword (p := (· != 0)) (hall _ ht) (by decide)

/-- **The round over a token.** -/
theorem scan_spelled {t : TokenType × Str} (h : Spelled t) (hrest : Separated rest)
    (hq : q.drop k = spelling t ++ rest) (hfuel : q.length < fuel)
    (hfit : t.1 = .stringLiteral → k + 1 < 2 ^ 31 ∧ t.2.length < 2 ^ 64) :
    scan fuel ⟨q, k⟩ line =
      .ok (⟨q, k + (spelling t).length⟩, line, [⟨t.1, t.2, line⟩]) := by
  have hlength : (spelling t).length ≤ q.length := by
    have hle := congrArg List.length hq
    rw [List.length_drop, List.length_append] at hle
    omega
  cases h with
  | @keyword type key word hkey hcase =>
    rw [spelling_of_ne (keyword_ne_text _ hkey).1] at hq hlength ⊢
    obtain ⟨hstart, hword⟩ := keyword_word hkey hcase
    rw [scan_wordToken hstart hword hrest hq (by omega),
      getTokenTypeAlpha_keyword hkey word hcase]
  | @identifier c word hstart hword hother =>
    rw [spelling_of_ne (by decide)] at hq hlength ⊢
    have hall : ∀ b ∈ c :: word, isWordChar b = true := by
      intro b hb
      rcases List.mem_cons.1 hb with rfl | hb
      · exact isWordChar_of_isWordStart hstart
      · exact hword b hb
    rw [scan_wordToken (w := c :: word) hstart hall hrest hq (by omega),
      getTokenTypeAlpha_identifier hother]
  | integer hne hdigits hfits =>
    rw [spelling_of_ne (by decide)] at hq hlength ⊢
    rw [scan_integer hne hdigits hrest hq (by omega), getTokenTypeDigit_integer hne hdigits hfits]
  | @text s hs =>
    obtain ⟨hstart, hsize⟩ := hfit rfl
    have hspell : spelling (.stringLiteral, s) = quote :: s ++ [quote] := rfl
    rw [hspell] at hq hlength ⊢
    have hquote : (⟨q, k⟩ : Lexer).current = quote := current_of_drop hq
    rw [List.append_assoc, List.singleton_append] at hq
    simp only [List.length_append, List.length_cons, List.length_nil] at hlength hsize ⊢
    rw [scan_quote hquote, literal_closed hstart hq (fun c hc => inLiteral_of_ne (hs c hc))
      (by decide), if_pos (by omega), ok_bind, Nat.mod_eq_of_lt hsize, List.take_length]
    dsimp only
    rw [show k + 1 + s.length + 1 = k + (s.length + 1 + (0 + 1)) by omega]
    rfl
  | operator ht =>
    obtain ⟨type, value⟩ := t
    rw [spelling_of_ne (operator_ne_text _ ht)] at hq ⊢
    exact scan_operator ht hrest hq

/-- A text literal whose position is no `int` is not given back. -/
theorem scan_displaced {s : Str} {l' : Lexer} {line' : ℤ} {tokens : List Token}
    (hs : ∀ b ∈ s, b ≠ quote ∧ b ≠ 0) (hq : q.drop k = quote :: s ++ quote :: rest)
    (hk : 2 ^ 31 ≤ k + 1) (hlength : q.length < 2 ^ 63)
    (h : scan fuel ⟨q, k⟩ line = .ok (l', line', tokens)) :
    ∃ value, tokens = [⟨.stringLiteral, value, line⟩] ∧ value ≠ s := by
  have hquote : (⟨q, k⟩ : Lexer).current = quote := current_of_drop hq
  have hsize : q.length = k + s.length + rest.length + 2 := by
    have hsub := congrArg List.length hq
    rw [List.length_drop] at hsub
    simp only [List.length_append, List.length_cons] at hsub
    omega
  rw [scan_quote hquote] at h
  obtain ⟨⟨m, ts⟩, hm, h⟩ := bind_eq_ok.1 h
  cases h
  unfold literal at hm
  change (advanceWhile inLiteral fuel ⟨q, k + 1⟩ >>= _) = _ at hm
  rw [advanceWhile_append (p := inLiteral) fuel (drop_literal hq)
    (fun c hc => inLiteral_of_ne (hs c hc)) rfl] at hm
  split at hm
  · rw [ok_bind] at hm
    dsimp only at hm
    rw [if_neg (by omega)] at hm
    obtain ⟨value, hvalue, hm⟩ := bind_eq_ok.1 hm
    cases hm
    refine ⟨value, rfl, ?_⟩
    rintro rfl
    unfold literalStart substr at hvalue
    dsimp only at hvalue
    split at hvalue
    · next hsmall =>
      -- the start has wrapped around: what is read is at least 2 ^ 32 characters longer
      rw [if_pos (by omega)] at hvalue
      have hlong := congrArg List.length (Except.ok.inj hvalue)
      rw [List.length_take, List.length_drop] at hlong
      omega
    · -- the start is negative, which is past the end
      rw [if_neg (by omega)] at hvalue
      cases hvalue
  · cases hm

end Scan

/-! ### All tokens -/

section Loop

variable {fuel rounds k : ℕ} {q rest : Str} {line : ℤ} {t : TokenType × Str}
  {ts : List (TokenType × Str)}

theorem loop_blank (hq : q.drop k = ch ' ' :: rest) :
    loop fuel (rounds + 1) ⟨q, k⟩ line = loop fuel rounds ⟨q, k + 1⟩ line := by
  have hcur : (⟨q, k⟩ : Lexer).current ≠ 0 := by
    rw [current_of_drop hq]
    exact (by decide : ch ' ' ≠ 0)
  rw [loop, if_neg hcur, scan_blank hq, ok_bind]
  cases hrest : loop fuel rounds ⟨q, k + 1⟩ line with
  | error e => simp only [hrest]; rfl
  | ok ts => simp only [hrest]; rfl

theorem loop_spelled (h : Spelled t) (hrest : Separated rest) (hq : q.drop k = spelling t ++ rest)
    (hfuel : q.length < fuel)
    (hfit : t.1 = .stringLiteral → k + 1 < 2 ^ 31 ∧ t.2.length < 2 ^ 64) :
    loop fuel (rounds + 1) ⟨q, k⟩ line = (do
      let rest ← loop fuel rounds ⟨q, k + (spelling t).length⟩ line
      return ⟨t.1, t.2, line⟩ :: rest) := by
  have hcur : (⟨q, k⟩ : Lexer).current ≠ 0 := by
    rw [current_of_drop hq]
    exact h.head rest
  rw [loop, if_neg hcur, scan_spelled h hrest hq hfuel hfit, ok_bind]
  rfl

/-- What is left of the rendering after a token. -/
theorem render_cons (t : TokenType × Str) (ts : List (TokenType × Str)) :
    ∃ rest, render (t :: ts) = spelling t ++ rest ∧ Separated rest ∧
      (ts = [] ∧ rest = [] ∨ ts ≠ [] ∧ rest = ch ' ' :: render ts) := by
  cases ts with
  | nil => exact ⟨[], by rw [render_singleton, List.append_nil], .inl rfl, .inl ⟨rfl, rfl⟩⟩
  | cons u ts => exact ⟨_, render_cons_cons t u ts, .inr rfl, .inr ⟨by simp, rfl⟩⟩

theorem length_spelling_text {s : Str} : s.length < (spelling (.stringLiteral, s)).length := by
  rw [show spelling (.stringLiteral, s) = quote :: s ++ [quote] from rfl]
  simp only [List.length_append, List.length_cons, List.length_nil]
  omega

/-- The size of a text in a query. -/
theorem length_lt_of_text (hq : q.drop k = spelling t ++ rest) (htext : t.1 = .stringLiteral) :
    t.2.length < q.length := by
  obtain ⟨type, s⟩ := t
  dsimp only at htext ⊢
  subst htext
  have hle := congrArg List.length hq
  rw [List.length_drop, List.length_append] at hle
  have := length_spelling_text (s := s)
  omega

theorem drop_spelling (hq : q.drop k = spelling t ++ ch ' ' :: rest) :
    q.drop (k + (spelling t).length + 1) = rest := drop_tail (drop_of_append hq)

/-- The tokens of a rendering, with two rounds for each. -/
theorem loop_render (hspelled : ∀ t ∈ ts, Spelled t) (hfits : TextsFit k ts)
    (hq : q.drop k = render ts) (hlength : q.length < 2 ^ 63) (hfuel : q.length < fuel)
    (hrounds : 2 * ts.length < rounds) :
    ∃ tokens, loop fuel rounds ⟨q, k⟩ line = .ok tokens ∧
      tokens.map (fun t => (t.type, t.value)) = ts ++ [(.endOfFile, [])] := by
  have hend : ∀ {k rounds : ℕ}, q.drop k = [] → 0 < rounds →
      loop fuel rounds ⟨q, k⟩ line = .ok [endToken line] := by
    intro k rounds hq hrounds
    obtain ⟨rounds, rfl⟩ := Nat.exists_eq_add_of_lt hrounds
    have hcur : (⟨q, k⟩ : Lexer).current = 0 := current_of_drop hq
    rw [loop, if_pos hcur]
  induction ts generalizing k rounds with
  | nil => exact ⟨[endToken line], hend hq hrounds, rfl⟩
  | cons t ts ih =>
    obtain ⟨rest, hrender, hrest, hnext⟩ := render_cons t ts
    rw [hrender] at hq
    obtain ⟨hfit, hfits⟩ := hfits
    obtain ⟨rounds, rfl⟩ : ∃ r, rounds = r + 1 + 1 := by
      obtain ⟨r, rfl⟩ := Nat.exists_eq_add_of_lt hrounds
      exact ⟨2 * ts.length + 1 + r, by rw [List.length_cons]; omega⟩
    have hround : loop fuel (rounds + 1 + 1) ⟨q, k⟩ line = (do
        let rest ← loop fuel (rounds + 1) ⟨q, k + (spelling t).length⟩ line
        return ⟨t.1, t.2, line⟩ :: rest) :=
      loop_spelled (hspelled t List.mem_cons_self) hrest hq hfuel fun htext =>
        ⟨hfit htext, (length_lt_of_text hq htext).trans (by omega)⟩
    rcases hnext with ⟨rfl, rfl⟩ | ⟨-, rfl⟩
    · rw [hround, hend (drop_of_append hq) (Nat.succ_pos _), ok_bind]
      exact ⟨_, rfl, rfl⟩
    · have hleft : 2 * ts.length < rounds := by
        rw [List.length_cons] at hrounds
        omega
      obtain ⟨tokens, htokens, hmap⟩ := ih (fun u hu => hspelled u (List.mem_cons_of_mem t hu))
        hfits (drop_spelling hq) hleft
      rw [hround, loop_blank (drop_of_append hq), htokens, ok_bind]
      exact ⟨_, rfl, congrArg ((t.1, t.2) :: ·) hmap⟩

theorem Spelled.text_of (h : Spelled t) (htext : t.1 = .stringLiteral) :
    ∃ s, t = (.stringLiteral, s) ∧ ∀ b ∈ s, b ≠ quote ∧ b ≠ 0 := by
  cases h with
  | keyword hkey => exact absurd htext (keyword_ne_text _ hkey).1
  | identifier => exact absurd htext (by exact nofun)
  | integer => exact absurd htext (by exact nofun)
  | text hs => exact ⟨_, rfl, hs⟩
  | operator ht => exact absurd htext (operator_ne_text _ ht)

/-- Where the tokens are given back, the texts fit. -/
theorem textsFit_of_loop {tokens : List Token} (hspelled : ∀ t ∈ ts, Spelled t)
    (hq : q.drop k = render ts) (hlength : q.length < 2 ^ 63) (hfuel : q.length < fuel)
    (h : loop fuel rounds ⟨q, k⟩ line = .ok tokens)
    (hmap : tokens.map (fun t => (t.type, t.value)) = ts ++ [(.endOfFile, [])]) :
    TextsFit k ts := by
  induction ts generalizing k rounds tokens with
  | nil => trivial
  | cons t ts ih =>
    obtain ⟨rest, hrender, hrest, hnext⟩ := render_cons t ts
    rw [hrender] at hq
    have ht := hspelled t List.mem_cons_self
    cases rounds with
    | zero => cases h
    | succ rounds =>
    have hfit : t.1 = .stringLiteral → k + 1 < 2 ^ 31 := by
      intro htext
      by_contra hfar
      obtain ⟨s, rfl, hs⟩ := ht.text_of htext
      have hcur : (⟨q, k⟩ : Lexer).current ≠ 0 := by
        rw [current_of_drop hq]
        exact ht.head rest
      rw [loop, if_neg hcur] at h
      obtain ⟨⟨l', line', us⟩, hscan, h⟩ := bind_eq_ok.1 h
      obtain ⟨vs, -, h⟩ := bind_eq_ok.1 h
      cases h
      have hq' : q.drop k = quote :: s ++ quote :: rest := by
        rw [hq, show spelling (.stringLiteral, s) = quote :: s ++ [quote] from rfl,
          List.append_assoc]
        rfl
      obtain ⟨value, rfl, hne⟩ := scan_displaced hs hq' (Nat.not_lt.1 hfar) hlength hscan
      exact hne (Prod.mk.inj (List.cons.inj hmap).1).2
    refine ⟨hfit, ?_⟩
    rw [loop_spelled ht hrest hq hfuel fun htext =>
      ⟨hfit htext, (length_lt_of_text hq htext).trans (by omega)⟩] at h
    obtain ⟨us, hus, h⟩ := bind_eq_ok.1 h
    cases h
    have hmap' := (List.cons.inj hmap).2
    rcases hnext with ⟨rfl, -⟩ | ⟨-, rfl⟩
    · trivial
    · cases rounds with
      | zero => cases hus
      | succ rounds =>
        rw [loop_blank (drop_of_append hq)] at hus
        exact ih (fun u hu => hspelled u (List.mem_cons_of_mem t hu)) (drop_spelling hq) hus hmap'

end Loop

theorem textsFit_of_undone {ts : List (TokenType × Str)} (hspelled : ∀ t ∈ ts, Spelled t)
    (hlength : (render ts).length < 2 ^ 63) (h : Undone ts) : TextsFit 0 ts := by
  obtain ⟨n, hn⟩ := h
  have hfuel : (render ts).length < n + (render ts).length + 1 := by omega
  obtain ⟨tokens, htokens, hmap⟩ := hn (n + (render ts).length + 1) (by omega)
  exact textsFit_of_loop hspelled rfl hlength hfuel htokens hmap

/-- **The lexer undoes rendering** exactly if the texts fit. -/
theorem undone_iff {ts : List (TokenType × Str)} (hspelled : ∀ t ∈ ts, Spelled t)
    (hlength : (render ts).length < 2 ^ 63) : Undone ts ↔ TextsFit 0 ts := by
  constructor
  · exact textsFit_of_undone hspelled hlength
  · intro hfits
    refine ⟨(render ts).length + 2 * ts.length + 1, fun fuel hfuel => ?_⟩
    exact loop_render hspelled hfits rfl hlength (by omega) (by omega)

/-- Two characters of an operator, two minus signs and a word in both letter cases. -/
theorem undone_iff_mixed : Undone [(.select, str "sElEcT"), (.minus, str "-"), (.minus, str "-"),
      (.integerLiteral, str "007"), (.dot, str "."), (.notEqual, str "<>"),
      (.stringLiteral, str "it -- is")] ↔
    TextsFit 0 [(.select, str "sElEcT"), (.minus, str "-"), (.minus, str "-"),
      (.integerLiteral, str "007"), (.dot, str "."), (.notEqual, str "<>"),
      (.stringLiteral, str "it -- is")] := by
  have htext : (str "it -- is").all inLiteral = true := by decide
  refine undone_iff ?_ (by decide)
  simp only [List.forall_mem_cons]
  refine ⟨?_, ?_, ?_, ?_, ?_, ?_, ?_, by simp⟩
  · exact .keyword (by decide : (str "SELECT", TokenType.select) ∈ keywordMap) (by decide)
  · exact .operator (by decide)
  · exact .operator (by decide)
  · exact .integer (by decide) (List.all_eq_true.1 (by decide)) (by decide)
  · exact .operator (by decide)
  · exact .operator (by decide)
  · exact .text fun b hb => by simpa [inLiteral] using List.all_eq_true.1 htext b hb

/-- An empty text after one of `n` characters. -/
def twoTexts (n : ℕ) : List (TokenType × Str) :=
  [(.stringLiteral, List.replicate n (ch 'a')), (.stringLiteral, [])]

theorem spelled_twoTexts (n : ℕ) : ∀ t ∈ twoTexts n, Spelled t := by
  simp only [twoTexts, List.forall_mem_cons]
  refine ⟨.text fun b hb => ?_, .text (by simp), by simp⟩
  rw [List.eq_of_mem_replicate hb]
  decide

theorem length_spelling_replicate (n : ℕ) :
    (spelling (.stringLiteral, List.replicate n (ch 'a'))).length = n + 2 := by
  simp [spelling]

theorem twoTexts_not_undone {n : ℕ} (hlo : 2 ^ 31 ≤ n) (hhi : n < 2 ^ 62) :
    ¬Undone (twoTexts n) := by
  intro h
  have hlength : (render (twoTexts n)).length < 2 ^ 63 := by
    rw [twoTexts, render_cons_cons, render_singleton, List.length_append, List.length_cons,
      length_spelling_replicate]
    change n + 2 + (2 + 1) < 2 ^ 63
    omega
  have hfits := (textsFit_of_undone (spelled_twoTexts n) hlength h).2.1 rfl
  rw [length_spelling_replicate] at hfits
  omega

/-- A text literal that comes too late for an `int`. -/
theorem lateText_not_undone :
    (∀ t ∈ twoTexts (2 ^ 31), Spelled t) ∧ ¬Undone (twoTexts (2 ^ 31)) :=
  ⟨spelled_twoTexts _,
    twoTexts_not_undone (le_refl _) (Nat.pow_lt_pow_right (by decide) (by decide))⟩

end Lexer

end MicroSql
