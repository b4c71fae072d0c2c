import MicroSql.Lexer.Token
import MicroSql.Lib.Except

/-!
# The lexer

`lexer/lexer.h` and `lexer/lexer.cpp`.  The loops of `tokenize` are given a number of rounds;
a loop that needs more runs out of fuel, and one that runs out of fuel for every number of
rounds never ends.
-/

namespace MicroSql

open Lib

/-- The state of the lexer: the query and the position in it. -/
structure Lexer where
  query : Str
  position : ℕ := 0
  deriving DecidableEq, Repr

namespace Lexer

/-- `advance` -/
def advance (l : Lexer) : Lexer := { l with position := l.position + 1 }

/-- The byte at the position, and NUL past the end. -/
def current (l : Lexer) : UInt8 := l.query.getD l.position 0

/-- The byte after the one at the position, and NUL past the end. -/
def peek (l : Lexer) : UInt8 := l.query.getD (l.position + 1) 0

/-- `while (p(current())) advance();` -/
def advanceWhile (p : UInt8 → Bool) : ℕ → Lexer → Except Halt Lexer
  | 0, _ => .error .outOfFuel
  | fuel + 1, l => if p l.current then advanceWhile p fuel l.advance else .ok l

/-- The loop over a number, which passes one dot. -/
def advanceNumber : ℕ → Bool → Lexer → Except Halt Lexer
  | 0, _, _ => .error .outOfFuel
  | fuel + 1, hasDot, l =>
    if Catalog.isDigit l.current || (!hasDot && l.current == ch '.') then
      advanceNumber fuel (hasDot || l.current == ch '.') l.advance
    else .ok l

/-- `int i = position + 1`, and back to `size_t`. -/
def literalStart (position : ℕ) : ℕ :=
  let i := (position + 1) % 2 ^ 32
  if i < 2 ^ 31 then i else 2 ^ 64 - 2 ^ 32 + i

/-- `query.substr(i, n)`, which raises an exception if `i` is past the end. -/
def substr (query : Str) (i n : ℕ) : Except Halt Str :=
  if i ≤ query.length then .ok ((query.drop i).take n)
  else .error (.fault .uncaughtException)

/-- The token types of the characters that are tokens by themselves. -/
def symbolType (c : UInt8) : Option TokenType :=
  if c = ch '=' then some .equal
  else if c = ch '+' then some .plus
  else if c = ch '*' then some .star
  else if c = ch '/' then some .slash
  else if c = ch ',' then some .comma
  else if c = ch ';' then some .semicolon
  else if c = ch '.' then some .dot
  else if c = ch '(' then some .leftParen
  else if c = ch ')' then some .rightParen
  else none

/-- `'\n'` -/
def newline : UInt8 := 10

/-- `'\''`, which a string literal begins and ends with. -/
def quote : UInt8 := 39

/-- The characters of a word after the first. -/
def isWordChar (c : UInt8) : Bool := isAlnum c || c == ch '_'

/-- The characters that a word begins with. -/
def isWordStart (c : UInt8) : Bool := isAlpha c || c == ch '_'

/-- The characters that the loop over a string literal passes. -/
def inLiteral (c : UInt8) : Bool := c != quote && c != 0

/-- A string literal; the lexer is at its opening quote. -/
def literal (fuel : ℕ) (l : Lexer) (line : ℤ) : Except Halt (Lexer × List Token) := do
  let i := literalStart l.position
  let l ← advanceWhile inLiteral fuel l.advance
  if l.position = l.query.length then
    return (l.advance, [⟨.error, str "Unterminated string literal", line⟩])
  let value ← substr l.query i ((l.position + 2 ^ 64 - i) % 2 ^ 64)
  return (l.advance, [⟨.stringLiteral, value, line⟩])

/-- One round of the loop of `tokenize`: the lexer, the line and the new tokens. -/
def scan (fuel : ℕ) (l : Lexer) (line : ℤ) : Except Halt (Lexer × ℤ × List Token) :=
  let c := l.current
  -- a token of one character, and one of two
  let single (type : TokenType) (value : Str) : Except Halt (Lexer × ℤ × List Token) :=
    .ok (l.advance, line, [⟨type, value, line⟩])
  let double (type : TokenType) (value : Str) : Except Halt (Lexer × ℤ × List Token) :=
    .ok (l.advance.advance, line, [⟨type, value, line⟩])
  if c = ch ' ' then .ok (l.advance, line, [])
  else if c = newline then .ok (l.advance, line + 1, [])
  else if c = ch '!' then
    if l.peek = ch '=' then double .notEqual (str "!=") else single .unknown (str "!")
  else if c = ch '<' then
    if l.peek = ch '=' then double .lessEq (str "<=")
    else if l.peek = ch '>' then double .notEqual (str "<>")
    else single .lessThan (str "<")
  else if c = ch '>' then
    if l.peek = ch '=' then double .greaterEq (str ">=") else single .greaterThan (str ">")
  else if c = ch '-' then
    if l.peek = ch '-' then do
      -- a comment: the newline at its end is passed, and not counted
      let l ← advanceWhile (· != newline) fuel l
      return (l.advance, line, [])
    else single .minus (str "-")
  else match symbolType c with
    | some type => single type [c]
    | none =>
      if c = quote then do
        let (l, tokens) ← literal fuel l line
        return (l, line, tokens)
      else if isWordStart c then do
        let l' ← advanceWhile isWordChar fuel l
        let word := (l.query.drop l.position).take (l'.position - l.position)
        return (l', line, [⟨getTokenTypeAlpha word, word, line⟩])
      else if Catalog.isDigit c then do
        let l' ← advanceNumber fuel false l
        let num := (l.query.drop l.position).take (l'.position - l.position)
        return (l', line, [⟨getTokenTypeDigit num, num, line⟩])
      else .ok (l.advance, line, [])

/-- The token at the end.  Its value is the empty string: `"\0"` ends before its first
character. -/
def endToken (line : ℤ) : Token := ⟨.endOfFile, [], line⟩

/-- The loop of `tokenize`, with a number of rounds for it and one for the loops inside. -/
def loop (fuel : ℕ) : ℕ → Lexer → ℤ → Except Halt (List Token)
  | 0, _, _ => .error .outOfFuel
  | rounds + 1, l, line =>
    if l.current = 0 then .ok [endToken line]
    else do
      let (l, line, tokens) ← scan fuel l line
      let rest ← loop fuel rounds l line
      return tokens ++ rest

/-- `tokenize`, from line 1 on. -/
def tokenize (fuel : ℕ) (l : Lexer) : Except Halt (List Token) := loop fuel fuel l 1

/-! ### What a round does -/

/-- The tokens of one character; a minus sign is not among them. -/
def singles : List (UInt8 × TokenType) := [
  (ch '!', .unknown), (ch '<', .lessThan), (ch '>', .greaterThan), (ch '=', .equal),
  (ch '+', .plus), (ch '*', .star), (ch '/', .slash), (ch ',', .comma), (ch ';', .semicolon),
  (ch '.', .dot), (ch '(', .leftParen), (ch ')', .rightParen)]

/-- The tokens of two characters. -/
def doubles : List (UInt8 × UInt8 × TokenType) := [
  (ch '!', ch '=', .notEqual), (ch '<', ch '=', .lessEq), (ch '<', ch '>', .notEqual),
  (ch '>', ch '=', .greaterEq)]

/-- The rounds that return. -/
inductive Scanned (fuel : ℕ) (l : Lexer) (line : ℤ) : Lexer → ℤ → List Token → Prop
  | skip (line' : ℤ) : l.current ≠ ch '-' → l.current ≠ quote →
      Scanned fuel l line l.advance line' []
  | single (type : TokenType) : (l.current, type) ∈ singles →
      Scanned fuel l line l.advance line [⟨type, [l.current], line⟩]
  | double (type : TokenType) : (l.current, l.peek, type) ∈ doubles →
      Scanned fuel l line l.advance.advance line [⟨type, [l.current, l.peek], line⟩]
  /-- a minus sign begins a comment only before another one -/
  | minus : l.current = ch '-' → l.peek ≠ ch '-' →
      Scanned fuel l line l.advance line [⟨.minus, [ch '-'], line⟩]
  | comment (m : Lexer) : l.current = ch '-' → l.peek = ch '-' →
      advanceWhile (· != newline) fuel l = .ok m → Scanned fuel l line m.advance line []
  | literal (m : Lexer) (ts : List Token) : l.current = quote →
      Lexer.literal fuel l line = .ok (m, ts) → Scanned fuel l line m line ts
  | word (m : Lexer) (word : Str) : isWordStart l.current = true →
      advanceWhile isWordChar fuel l = .ok m →
      word = (l.query.drop l.position).take (m.position - l.position) →
      Scanned fuel l line m line [⟨getTokenTypeAlpha word, word, line⟩]
  | number (m : Lexer) (num : Str) : Catalog.isDigit l.current = true →
      advanceNumber fuel false l = .ok m →
      num = (l.query.drop l.position).take (m.position - l.position) →
      Scanned fuel l line m line [⟨getTokenTypeDigit num, num, line⟩]

/-- One test of `symbolType`. -/
theorem mem_of_test {c b : UInt8} {type type' : TokenType} {rest : Option TokenType}
    {symbols : List (UInt8 × TokenType)}
    (h : (if c = b then some type' else rest) = some type)
    (hrest : rest = some type → (c, type) ∈ symbols) : (c, type) ∈ (b, type') :: symbols := by
  by_cases hc : c = b
  · rw [if_pos hc] at h
    cases h
    rw [hc]
    exact List.mem_cons_self
  · rw [if_neg hc] at h
    exact List.mem_cons_of_mem _ (hrest h)

theorem symbolType_mem {c : UInt8} {type : TokenType} (h : symbolType c = some type) :
    (c, type) ∈ singles := by
  refine List.mem_of_mem_drop (i := 3) ?_
  exact mem_of_test h fun h => mem_of_test h fun h => mem_of_test h fun h => mem_of_test h fun h =>
    mem_of_test h fun h => mem_of_test h fun h => mem_of_test h fun h => mem_of_test h fun h =>
    mem_of_test h nofun

/-- The pairs of characters that a round looks for. -/
def pairs : List (UInt8 × UInt8) := (ch '-', ch '-') :: doubles.map fun e => (e.1, e.2.1)

/-- The lexer is at `c`, and a round tells the character after it from `p` in no way. -/
structure At (c p : UInt8) (l : Lexer) : Prop where
  current : l.current = c
  peek : ∀ d, (c, d) ∈ pairs → (l.peek = d ↔ p = d)

theorem at_self (l : Lexer) : l.At l.current l.peek := ⟨rfl, fun _ _ => .rfl⟩

/-- The branches of a round at `c` before `p`, with what the round does in each. -/
inductive Branch (c p : UInt8) : (ℕ → Lexer → ℤ → Except Halt (Lexer × ℤ × List Token)) → Prop
  | blank (hcur : c = ch ' ') : Branch c p fun _ l line => .ok (l.advance, line, [])
  | line (hcur : c = newline) : Branch c p fun _ l line => .ok (l.advance, line + 1, [])
  | single (type : TokenType) (hmem : (c, type) ∈ singles) :
      Branch c p fun _ l line => .ok (l.advance, line, [⟨type, [c], line⟩])
  | double (type : TokenType) (hmem : (c, p, type) ∈ doubles) :
      Branch c p fun _ l line => .ok (l.advance.advance, line, [⟨type, [c, p], line⟩])
  | minus (hcur : c = ch '-') (hpeek : p ≠ ch '-') :
      Branch c p fun _ l line => .ok (l.advance, line, [⟨.minus, [ch '-'], line⟩])
  | comment (hcur : c = ch '-') (hpeek : p = ch '-') : Branch c p fun fuel l line => do
      let m ← advanceWhile (· != newline) fuel l
      return (m.advance, line, [])
  | literal (hcur : c = quote) : Branch c p fun fuel l line => do
      let (m, tokens) ← Lexer.literal fuel l line
      return (m, line, tokens)
  | word (hcur : isWordStart c = true) : Branch c p fun fuel l line => do
      let m ← advanceWhile isWordChar fuel l
      let word := (l.query.drop l.position).take (m.position - l.position)
      return (m, line, [⟨getTokenTypeAlpha word, word, line⟩])
  | number (hcur : Catalog.isDigit c = true) : Branch c p fun fuel l line => do
      let m ← advanceNumber fuel false l
      let num := (l.query.drop l.position).take (m.position - l.position)
      return (m, line, [⟨getTokenTypeDigit num, num, line⟩])
  /-- a character that the lexer does not know -/
  | other (hsymbol : ∀ e ∈ singles, e.1 ≠ c) (hline : c ≠ newline) (hminus : c ≠ ch '-')
      (hquote : c ≠ quote) (hword : ¬isWordStart c = true) (hdigit : ¬Catalog.isDigit c = true) :
      Branch c p fun _ l line => .ok (l.advance, line, [])

/-- The table of symbols has all of them. -/
theorem singles_symbolType : ∀ e ∈ singles,
    e.1 = ch '!' ∨ e.1 = ch '<' ∨ e.1 = ch '>' ∨ symbolType e.1 ≠ none := by
  decide

/-- The branch that a round takes depends on two characters. -/
theorem scan_branch (c p : UInt8) : ∃ round, Branch c p round ∧
    ∀ {fuel : ℕ} {l : Lexer} {line : ℤ}, l.At c p → scan fuel l line = round fuel l line := by
  by_cases hblank : c = ch ' '
  · refine ⟨_, .blank hblank, fun hl => ?_⟩
    simp only [scan, hl.current, if_pos hblank]
  by_cases hline : c = newline
  · refine ⟨_, .line hline, fun hl => ?_⟩
    simp only [scan, hl.current, if_neg hblank, if_pos hline]
  by_cases hbang : c = ch '!'
  · subst hbang
    by_cases hp : p = ch '='
    · subst hp
      refine ⟨_, .double .notEqual (by decide), fun hl => ?_⟩
      have hpeek := (hl.peek _ (by decide)).2 rfl
      simp only [scan, hl.current, hpeek]
      rfl
    · refine ⟨_, .single .unknown (by decide), fun hl => ?_⟩
      have hpeek := mt (hl.peek _ (by decide)).1 hp
      simp only [scan, hl.current, if_neg hpeek]
      rfl
  by_cases hless : c = ch '<'
  · subst hless
    by_cases hp : p = ch '='
    · subst hp
      refine ⟨_, .double .lessEq (by decide), fun hl => ?_⟩
      have hpeek := (hl.peek _ (by decide)).2 rfl
      simp only [scan, hl.current, hpeek]
      rfl
    by_cases hp' : p = ch '>'
    · subst hp'
      refine ⟨_, .double .notEqual (by decide), fun hl => ?_⟩
      have hpeek := (hl.peek _ (by decide)).2 rfl
      simp only [scan, hl.current, hpeek]
      rfl
    · refine ⟨_, .single .lessThan (by decide), fun hl => ?_⟩
      have hpeek := mt (hl.peek _ (by decide)).1 hp
      have hpeek' := mt (hl.peek _ (by decide)).1 hp'
      simp only [scan, hl.current, if_neg hpeek, if_neg hpeek']
      rfl
  by_cases hgreater : c = ch '>'
  · subst hgreater
    by_cases hp : p = ch '='
    · subst hp
      refine ⟨_, .double .greaterEq (by decide), fun hl => ?_⟩
      have hpeek := (hl.peek _ (by decide)).2 rfl
      simp only [scan, hl.current, hpeek]
      rfl
    · refine ⟨_, .single .greaterThan (by decide), fun hl => ?_⟩
      have hpeek := mt (hl.peek _ (by decide)).1 hp
      simp only [scan, hl.current, if_neg hpeek]
      rfl
  by_cases hminus : c = ch '-'
  · subst hminus
    by_cases hp : p = ch '-'
    · refine ⟨_, .comment rfl hp, fun hl => ?_⟩
      have hpeek := (hl.peek _ (by decide)).2 hp
      simp only [scan, hl.current, hpeek]
      rfl
    · refine ⟨_, .minus rfl hp, fun hl => ?_⟩
      have hpeek := mt (hl.peek _ (by decide)).1 hp
      simp only [scan, hl.current, if_neg hpeek]
      rfl
  cases hsymbol : symbolType c with
  | some type =>
    refine ⟨_, .single type (symbolType_mem hsymbol), fun hl => ?_⟩
    simp only [scan, hl.current, if_neg hblank, if_neg hline, if_neg hbang, if_neg hless,
      if_neg hgreater, if_neg hminus, hsymbol]
  | none =>
    by_cases hquote : c = quote
    · subst hquote
      refine ⟨_, .literal rfl, fun hl => ?_⟩
      simp only [scan, hl.current]
      rfl
    by_cases hword : isWordStart c = true
    · refine ⟨_, .word hword, fun hl => ?_⟩
      simp only [scan, hl.current, if_neg hblank, if_neg hline, if_neg hbang, if_neg hless,
        if_neg hgreater, if_neg hminus, hsymbol, if_neg hquote, if_pos hword]
    by_cases hdigit : Catalog.isDigit c = true
    · refine ⟨_, .number hdigit, fun hl => ?_⟩
      simp only [scan, hl.current, if_neg hblank, if_neg hline, if_neg hbang, if_neg hless,
        if_neg hgreater, if_neg hminus, hsymbol, if_neg hquote, if_neg hword, if_pos hdigit]
    refine ⟨_, .other (fun e he heq => ?_) hline hminus hquote hword hdigit, fun hl => ?_⟩
    · rcases heq ▸ singles_symbolType e he with hc | hc | hc | hc
      · exact hbang hc
      · exact hless hc
      · exact hgreater hc
      · exact hc hsymbol
    · simp only [scan, hl.current, if_neg hblank, if_neg hline, if_neg hbang, if_neg hless,
        if_neg hgreater, if_neg hminus, hsymbol, if_neg hquote, if_neg hword, if_neg hdigit]

theorem scan_cases {fuel : ℕ} {l l' : Lexer} {line line' : ℤ} {ts : List Token}
    (h : scan fuel l line = .ok (l', line', ts)) : Scanned fuel l line l' line' ts := by
  obtain ⟨round, hround, hscan⟩ := scan_branch l.current l.peek
  rw [hscan l.at_self] at h
  cases hround with
  | blank hcur =>
    cases h
    exact .skip line (by rw [hcur]; decide) (by rw [hcur]; decide)
  | line hcur =>
    cases h
    exact .skip (line + 1) (by rw [hcur]; decide) (by rw [hcur]; decide)
  | single type hmem =>
    cases h
    exact .single type hmem
  | double type hmem =>
    cases h
    exact .double type hmem
  | minus hcur hpeek =>
    cases h
    exact .minus hcur hpeek
  | comment hcur hpeek =>
    obtain ⟨m, hm, h⟩ := bind_eq_ok.1 h
    cases h
    exact .comment m hcur hpeek hm
  | literal hcur =>
    obtain ⟨⟨m, us⟩, hm, h⟩ := bind_eq_ok.1 h
    cases h
    exact .literal _ _ hcur hm
  | word hcur =>
    obtain ⟨m, hm, h⟩ := bind_eq_ok.1 h
    cases h
    exact .word _ _ hcur hm rfl
  | number hcur =>
    obtain ⟨m, hm, h⟩ := bind_eq_ok.1 h
    cases h
    exact .number _ _ hcur hm rfl
  | other _ _ hminus hquote =>
    cases h
    exact .skip line hminus hquote

/-- The tokens of a text are those of the rounds, and the one at the end. -/
theorem tokenize_rounds {P : Token → Prop} (hround : ∀ {fuel : ℕ} {l l' : Lexer} {line line' : ℤ}
      {ts : List Token}, l.current ≠ 0 → scan fuel l line = .ok (l', line', ts) → ∀ t ∈ ts, P t)
    {fuel : ℕ} {l : Lexer} {tokens : List Token} (h : tokenize fuel l = .ok tokens) :
    ∃ ts line, tokens = ts ++ [endToken line] ∧ ∀ t ∈ ts, P t := by
  have hloop : ∀ (rounds : ℕ) {l : Lexer} {line : ℤ} {tokens : List Token},
      loop fuel rounds l line = .ok tokens →
      ∃ ts line, tokens = ts ++ [endToken line] ∧ ∀ t ∈ ts, P t := by
    intro rounds
    induction rounds with
    | zero =>
      intro l line tokens h
      cases h
    | succ rounds ih =>
      intro l line tokens h
      rw [loop] at h
      by_cases hcur : l.current = 0
      · rw [if_pos hcur] at h
        cases h
        exact ⟨[], line, rfl, by simp⟩
      · rw [if_neg hcur] at h
        obtain ⟨⟨l', line', us⟩, hscan, h⟩ := bind_eq_ok.1 h
        obtain ⟨rest, hrest, h⟩ := bind_eq_ok.1 h
        cases h
        obtain ⟨ts, line'', rfl, hall⟩ := ih hrest
        refine ⟨us ++ ts, line'', (List.append_assoc _ _ _).symm, fun t ht => ?_⟩
        exact (List.mem_append.1 ht).elim (hround hcur hscan t) (hall t)
  exact hloop fuel h

end Lexer

end MicroSql
