import MicroSql.Lexer.Ends

/-!
# Splitting a text into statements

A text is cut after each semicolon that the lexer reports.  Where the first one is depends on
the characters up to it only.
-/

namespace MicroSql

open Lib

namespace Lexer

/-- The position after the first token that is a semicolon, if there is one: the loop of
`tokenize`, up to there. -/
def nextStatement (fuel : ℕ) : ℕ → Lexer → ℤ → Except Halt (Option ℕ)
  | 0, _, _ => .error .outOfFuel
  | rounds + 1, l, line =>
    if l.current = 0 then .ok none
    else do
      let (l, line, tokens) ← scan fuel l line
      if tokens.any (·.type == .semicolon) then return some l.position
      else nextStatement fuel rounds l line

/-- The statements of a text, each up to its semicolon.  What follows the last semicolon is no
statement. -/
def statements (fuel : ℕ) : ℕ → Str → Except Halt (List Str)
  | 0, _ => .error .outOfFuel
  | rounds + 1, text => do
    match ← nextStatement fuel fuel { query := text } 1 with
    | none => return []
    | some k =>
      let rest ← statements fuel rounds (text.drop k)
      return text.take k :: rest

/-! ### Semicolons -/

section Rounds

variable {fuel : ℕ} {l l' : Lexer} {line line' : ℤ} {ts : List Token}

theorem scan_semicolon (h : l.current = ch ';') :
    scan fuel l line = .ok (l.advance, line, [⟨.semicolon, [ch ';'], line⟩]) := by
  unfold scan
  rw [h]
  rfl

/-- A round that is not at a semicolon reports none. -/
theorem scan_other (h : scan fuel l line = .ok (l', line', ts)) (hcur : l.current ≠ ch ';') :
    ts.any (·.type == .semicolon) = false := by
  have hone : ∀ {type : TokenType} {value : Str}, type ≠ .semicolon →
      [(⟨type, value, line⟩ : Token)].any (·.type == .semicolon) = false := by
    intro type value hne
    simpa using hne
  cases scan_cases h with
  | skip => rfl
  | single type hmem =>
    have hsymbols : ∀ e ∈ singles, e.2 = .semicolon → e.1 = ch ';' := by decide
    exact hone fun htype => hcur (hsymbols _ hmem htype)
  | double type hmem =>
    have hsymbols : ∀ e ∈ doubles, e.2.2 ≠ .semicolon := by decide
    exact hone (hsymbols _ hmem)
  | minus => rfl
  | comment => rfl
  | literal m _ _ hm =>
    obtain ⟨n, -, hm⟩ := bind_eq_ok.1 hm
    split at hm
    · cases hm
      rfl
    · obtain ⟨value, -, hm⟩ := bind_eq_ok.1 hm
      cases hm
      rfl
  | word m word => exact hone (getTokenTypeAlpha_ne (by decide) (by decide) word)
  | number m num =>
    refine hone fun htype => ?_
    have hmem := getTokenTypeDigit_mem num
    rw [htype] at hmem
    exact absurd hmem (by decide)

end Rounds

/-! ### The text up to a semicolon -/

/-- The characters `a` come next, and then a semicolon. -/
def Ahead (a : Str) (l : Lexer) : Prop := ∃ rest, l.query.drop l.position = a ++ ch ';' :: rest

/-- The lexer `n` characters further. -/
def skip (l : Lexer) (n : ℕ) : Lexer := { l with position := l.position + n }

section Ahead

variable {a : Str} {c : UInt8} {l m : Lexer}

theorem peek_eq (l : Lexer) : l.peek = (l.query.drop l.position).getD 1 0 := by
  rw [getD_drop]
  rfl

theorem Ahead.current_nil (h : Ahead [] l) : l.current = ch ';' := by
  obtain ⟨rest, hrest⟩ := h
  exact current_of_drop hrest

theorem Ahead.current_cons (h : Ahead (c :: a) l) : l.current = c := by
  obtain ⟨rest, hrest⟩ := h
  exact current_of_drop hrest

theorem Ahead.peek_eq (h : Ahead (c :: a) l) (h' : Ahead (c :: a) m) : m.peek = l.peek := by
  obtain ⟨rest, hrest⟩ := h
  obtain ⟨rest', hrest'⟩ := h'
  rw [Lexer.peek_eq, Lexer.peek_eq, hrest, hrest']
  cases a <;> rfl

theorem Ahead.skip (h : Ahead a l) {n : ℕ} (hn : n ≤ a.length) :
    Ahead (a.drop n) (l.skip n) := by
  obtain ⟨rest, hrest⟩ := h
  refine ⟨rest, ?_⟩
  change l.query.drop (l.position + n) = _
  rw [← List.drop_drop, hrest, List.drop_append_of_le_length hn]

theorem advance_skip (l : Lexer) (n : ℕ) : l.advance.skip n = l.skip (n + 1) := by
  simp only [Lexer.skip, Lexer.advance, Nat.add_assoc, Nat.add_comm 1]

theorem Ahead.advance (h : Ahead (c :: a) l) : Ahead a l.advance :=
  h.skip (Nat.le_add_left 1 a.length)

/-- Two loops over the same text pass the same part of it, if one of them does not come to the
semicolon. -/
theorem advanceWhile_ahead {p : UInt8 → Bool} {fuel fuel' : ℕ} {l l₁ m m₁ : Lexer}
    (h : Ahead a l) (h' : Ahead a m) (hl : advanceWhile p fuel l = .ok l₁)
    (hm : advanceWhile p fuel' m = .ok m₁) (hle : l₁.position ≤ l.position + a.length) :
    ∃ n ≤ a.length, l₁ = l.skip n ∧ m₁ = m.skip n := by
  induction a generalizing l m fuel fuel' with
  | nil =>
    cases fuel with
    | zero => cases hl
    | succ fuel =>
    cases fuel' with
    | zero => cases hm
    | succ fuel' =>
    rw [advanceWhile, h.current_nil] at hl
    rw [advanceWhile, h'.current_nil] at hm
    by_cases hp : p (ch ';') = true
    · -- the loop would pass the semicolon
      rw [if_pos hp] at hl
      have hnext := (advanceWhile_eq_ok hl).1.le
      simp only [Lexer.advance, List.length_nil] at hnext hle
      omega
    · rw [if_neg hp] at hl hm
      cases hl
      cases hm
      exact ⟨0, le_refl _, rfl, rfl⟩
  | cons c a ih =>
    cases fuel with
    | zero => cases hl
    | succ fuel =>
    cases fuel' with
    | zero => cases hm
    | succ fuel' =>
    rw [advanceWhile, h.current_cons] at hl
    rw [advanceWhile, h'.current_cons] at hm
    by_cases hp : p c = true
    · rw [if_pos hp] at hl hm
      obtain ⟨n, hn, rfl, rfl⟩ := ih h.advance h'.advance hl hm
        (by simp only [Lexer.advance, List.length_cons] at hle ⊢; omega)
      exact ⟨n + 1, Nat.succ_le_succ hn, advance_skip l n, advance_skip m n⟩
    · rw [if_neg hp] at hl hm
      cases hl
      cases hm
      exact ⟨0, Nat.zero_le _, rfl, rfl⟩

/-- Where the lexer is after a literal. -/
theorem literal_advance {fuel : ℕ} {line : ℤ} {l l' : Lexer} {ts : List Token}
    (h : literal fuel l line = .ok (l', ts)) :
    ∃ m, advanceWhile inLiteral fuel l.advance = .ok m ∧ l' = m.advance := by
  obtain ⟨m, hm, h⟩ := bind_eq_ok.1 h
  refine ⟨m, hm, ?_⟩
  split at h
  · cases h
    rfl
  · obtain ⟨value, -, h⟩ := bind_eq_ok.1 h
    cases h
    rfl

/-- Two literals over the same text, if one of them is closed before the semicolon. -/
theorem literal_ahead {fuel fuel' : ℕ} {line line' : ℤ} {l₁ m₁ : Lexer} {ts us : List Token}
    (h : Ahead (c :: a) l) (h' : Ahead (c :: a) m) (hl : literal fuel l line = .ok (l₁, ts))
    (hm : literal fuel' m line' = .ok (m₁, us))
    (hle : l₁.position ≤ l.position + (c :: a).length) :
    ∃ n ≤ (c :: a).length, l₁ = l.skip n ∧ m₁ = m.skip n := by
  obtain ⟨l₃, hl₃, rfl⟩ := literal_advance hl
  obtain ⟨m₃, hm₃, rfl⟩ := literal_advance hm
  have hnext : l₃.position ≤ l.advance.position + a.length := by
    simp only [Lexer.advance, List.length_cons] at hle ⊢
    omega
  obtain ⟨n, -, rfl, rfl⟩ := advanceWhile_ahead h.advance h'.advance hl₃ hm₃ hnext
  -- the two quotes around the `n` characters of the body
  refine ⟨n + 2, ?_, ?_, ?_⟩
  · simp only [Lexer.advance, Lexer.skip, List.length_cons] at hle ⊢
    omega
  · simp only [Lexer.advance, Lexer.skip, Lexer.mk.injEq, true_and]
    omega
  · simp only [Lexer.advance, Lexer.skip, Lexer.mk.injEq, true_and]
    omega

theorem advanceNumber_ahead {fuel fuel' : ℕ} {hasDot : Bool} {l l₁ m m₁ : Lexer}
    (h : Ahead a l) (h' : Ahead a m) (hl : advanceNumber fuel hasDot l = .ok l₁)
    (hm : advanceNumber fuel' hasDot m = .ok m₁) :
    ∃ n ≤ a.length, l₁ = l.skip n ∧ m₁ = m.skip n := by
  induction a generalizing l m fuel fuel' hasDot with
  | nil =>
    cases fuel with
    | zero => cases hl
    | succ fuel =>
    cases fuel' with
    | zero => cases hm
    | succ fuel' =>
    have hstop : ¬(Catalog.isDigit (ch ';') || (!hasDot && ch ';' == ch '.')) = true := by
      cases hasDot <;> decide
    rw [advanceNumber, h.current_nil, if_neg hstop] at hl
    rw [advanceNumber, h'.current_nil, if_neg hstop] at hm
    cases hl
    cases hm
    exact ⟨0, le_refl _, rfl, rfl⟩
  | cons c a ih =>
    cases fuel with
    | zero => cases hl
    | succ fuel =>
    cases fuel' with
    | zero => cases hm
    | succ fuel' =>
    rw [advanceNumber, h.current_cons] at hl
    rw [advanceNumber, h'.current_cons] at hm
    by_cases hp : (Catalog.isDigit c || (!hasDot && c == ch '.')) = true
    · rw [if_pos hp] at hl hm
      obtain ⟨n, hn, rfl, rfl⟩ := ih h.advance h'.advance hl hm
      exact ⟨n + 1, Nat.succ_le_succ hn, advance_skip l n, advance_skip m n⟩
    · rw [if_neg hp] at hl hm
      cases hl
      cases hm
      exact ⟨0, Nat.zero_le _, rfl, rfl⟩

theorem Ahead.two_le (h : Ahead (c :: a) l) (hpeek : l.peek ≠ ch ';') :
    2 ≤ (c :: a).length := by
  cases a with
  | nil => exact absurd h.advance.current_nil hpeek
  | cons b a => exact Nat.le_add_left 2 a.length

/-- Two rounds over the same text do the same, if one of them does not pass the semicolon. -/
theorem scan_ahead {fuel fuel' : ℕ} {l₁ m₁ : Lexer} {line line' line₁ line₁' : ℤ}
    {ts us : List Token} (h : Ahead (c :: a) l) (h' : Ahead (c :: a) m)
    (hl : scan fuel l line = .ok (l₁, line₁, ts)) (hm : scan fuel' m line' = .ok (m₁, line₁', us))
    (hle : l₁.position ≤ l.position + (c :: a).length) :
    ∃ n ≤ (c :: a).length, l₁ = l.skip n ∧ m₁ = m.skip n := by
  -- a round that passes one character, whatever tokens it reports
  have hone : 1 ≤ (c :: a).length := Nat.le_add_left 1 a.length
  have hsingle : ∀ {line₀ line₀' : ℤ} {ts₀ us₀ : List Token},
      (.ok (l.advance, line₀, ts₀) : Except Halt _) = .ok (l₁, line₁, ts) →
      (.ok (m.advance, line₀', us₀) : Except Halt _) = .ok (m₁, line₁', us) →
      ∃ n ≤ (c :: a).length, l₁ = l.skip n ∧ m₁ = m.skip n := by
    intro line₀ line₀' ts₀ us₀ hl hm
    cases hl
    cases hm
    exact ⟨1, hone, rfl, rfl⟩
  -- a round that passes two, of which the second is not the semicolon
  have hdouble : ∀ {line₀ line₀' : ℤ} {ts₀ us₀ : List Token}, l.peek ≠ ch ';' →
      (.ok (l.advance.advance, line₀, ts₀) : Except Halt _) = .ok (l₁, line₁, ts) →
      (.ok (m.advance.advance, line₀', us₀) : Except Halt _) = .ok (m₁, line₁', us) →
      ∃ n ≤ (c :: a).length, l₁ = l.skip n ∧ m₁ = m.skip n := by
    intro line₀ line₀' ts₀ us₀ hpeek hl hm
    cases hl
    cases hm
    exact ⟨2, h.two_le hpeek, rfl, rfl⟩
  -- both rounds take the branch of the same two characters
  obtain ⟨round, hround, hscan⟩ := scan_branch c l.peek
  have hat : l.At c l.peek := h.current_cons ▸ l.at_self
  have hat' : m.At c l.peek := ⟨h'.current_cons, fun d _ => by rw [h.peek_eq h']⟩
  rw [hscan hat] at hl
  rw [hscan hat'] at hm
  cases hround with
  | blank => exact hsingle hl hm
  | line => exact hsingle hl hm
  | single => exact hsingle hl hm
  | double type hmem =>
    have hsymbols : ∀ e ∈ doubles, e.2.1 ≠ ch ';' := by decide
    exact hdouble (hsymbols _ hmem) hl hm
  | minus => exact hsingle hl hm
  | comment =>
    obtain ⟨l₂, hl₂, hl⟩ := bind_eq_ok.1 hl
    obtain ⟨m₂, hm₂, hm⟩ := bind_eq_ok.1 hm
    cases hl
    cases hm
    obtain ⟨n, -, rfl, rfl⟩ := advanceWhile_ahead h h' hl₂ hm₂ (Nat.le_of_succ_le hle)
    exact ⟨n + 1, Nat.le_of_add_le_add_left hle, rfl, rfl⟩
  | literal =>
    obtain ⟨⟨l₂, ts₂⟩, hl₂, hl⟩ := bind_eq_ok.1 hl
    obtain ⟨⟨m₂, us₂⟩, hm₂, hm⟩ := bind_eq_ok.1 hm
    cases hl
    cases hm
    exact literal_ahead h h' hl₂ hm₂ hle
  | word =>
    obtain ⟨l₂, hl₂, hl⟩ := bind_eq_ok.1 hl
    obtain ⟨m₂, hm₂, hm⟩ := bind_eq_ok.1 hm
    cases hl
    cases hm
    exact advanceWhile_ahead h h' hl₂ hm₂ hle
  | number =>
    obtain ⟨l₂, hl₂, hl⟩ := bind_eq_ok.1 hl
    obtain ⟨m₂, hm₂, hm⟩ := bind_eq_ok.1 hm
    cases hl
    cases hm
    exact advanceNumber_ahead h h' hl₂ hm₂
  | other => exact hsingle hl hm

end Ahead

/-! ### Where the first semicolon is -/

section NextStatement

variable {fuel fuel' rounds rounds' : ℕ} {l m : Lexer} {line line' : ℤ}

/-- What is reported is a semicolon of the text. -/
theorem nextStatement_eq_some {k : ℕ} (h : nextStatement fuel rounds l line = .ok (some k)) :
    ∃ j, l.position ≤ j ∧ k = j + 1 ∧ l.query.getD j 0 = ch ';' := by
  induction rounds generalizing l line with
  | zero => cases h
  | succ rounds ih =>
    rw [nextStatement] at h
    by_cases hnul : l.current = 0
    · rw [if_pos hnul] at h
      cases h
    rw [if_neg hnul] at h
    by_cases hsemi : l.current = ch ';'
    · rw [scan_semicolon hsemi, ok_bind] at h
      cases h
      exact ⟨l.position, le_refl _, rfl, hsemi⟩
    · obtain ⟨⟨l₁, line₁, ts⟩, hscan, h⟩ := bind_eq_ok.1 h
      dsimp only at h
      rw [scan_other hscan hsemi, if_neg Bool.false_ne_true] at h
      have hmoves := scan_eq_ok hnul hscan
      obtain ⟨j, hj, hk, hat⟩ := ih h
      rw [hmoves.query_eq] at hat
      exact ⟨j, hmoves.lt.le.trans hj, hk, hat⟩

/-- The first semicolon that is reported depends on the text up to it. -/
theorem nextStatement_ahead {a : Str} {r : Option ℕ} (h : Ahead a l) (h' : Ahead a m)
    (hl : nextStatement fuel rounds l line = .ok (some (l.position + a.length + 1)))
    (hm : nextStatement fuel' rounds' m line' = .ok r) : r = some (m.position + a.length + 1) := by
  induction rounds generalizing l m a line line' rounds' with
  | zero => cases hl
  | succ rounds ih =>
    cases rounds' with
    | zero => cases hm
    | succ rounds' =>
    rw [nextStatement] at hl hm
    cases a with
    | nil =>
      have hcur := h'.current_nil
      rw [if_neg (by rw [hcur]; decide), scan_semicolon hcur, ok_bind] at hm
      cases hm
      rfl
    | cons c a =>
      have hnul : l.current ≠ 0 := by
        intro hnul
        rw [if_pos hnul] at hl
        cases hl
      have hnul' : m.current ≠ 0 := by
        rwa [h'.current_cons, ← h.current_cons]
      rw [if_neg hnul] at hl
      rw [if_neg hnul'] at hm
      have hsemi : l.current ≠ ch ';' := by
        intro hsemi
        rw [scan_semicolon hsemi, ok_bind] at hl
        have hshort := Option.some.inj (Except.ok.inj hl)
        simp only [Lexer.advance, List.length_cons] at hshort
        omega
      have hsemi' : m.current ≠ ch ';' := by
        rwa [h'.current_cons, ← h.current_cons]
      obtain ⟨⟨l₁, line₁, ts⟩, hscan, hl₁⟩ := bind_eq_ok.1 hl
      obtain ⟨⟨m₁, line₁', us⟩, hscan', hm₁⟩ := bind_eq_ok.1 hm
      dsimp only at hl₁ hm₁
      rw [scan_other hscan hsemi, if_neg Bool.false_ne_true] at hl₁
      rw [scan_other hscan' hsemi', if_neg Bool.false_ne_true] at hm₁
      -- the round has stayed before the semicolon that is reported later
      have hle : l₁.position ≤ l.position + (c :: a).length := by
        obtain ⟨j, hj, hk, -⟩ := nextStatement_eq_some hl₁
        omega
      obtain ⟨n, hn, rfl, rfl⟩ := scan_ahead h h' hscan hscan' hle
      have hlength : ((c :: a).drop n).length + n = (c :: a).length := by
        rw [List.length_drop]
        omega
      have hend := ih (h.skip hn) (h'.skip hn)
        (by rw [hl₁]; simp only [Lexer.skip]; congr 2; omega) hm₁
      rw [hend]
      simp only [Lexer.skip]
      congr 1
      omega

/-- Blanks before a text. -/
theorem scan_space (h : Catalog.isSpace l.current = true) :
    ∃ line', scan fuel l line = .ok (l.advance, line', []) := by
  simp only [Catalog.isSpace, Bool.or_eq_true, beq_iff_eq, Bool.and_eq_true, decide_eq_true_eq,
    UInt8.le_iff_toNat_le] at h
  have hcases : l.current = 32 ∨ l.current = 9 ∨ l.current = 10 ∨ l.current = 11 ∨
      l.current = 12 ∨ l.current = 13 := by
    rcases h with h | ⟨hlo, hhi⟩
    · exact .inl h
    · have hlo' : 9 ≤ l.current.toNat := hlo
      have hhi' : l.current.toNat ≤ 13 := hhi
      refine .inr ?_
      simp only [← UInt8.toNat_inj]
      change l.current.toNat = 9 ∨ l.current.toNat = 10 ∨ l.current.toNat = 11 ∨
        l.current.toNat = 12 ∨ l.current.toNat = 13
      omega
  unfold scan
  rcases hcases with h | h | h | h | h | h <;> rw [h] <;> exact ⟨_, rfl⟩

theorem nextStatement_spaces {w : Str} {t : Str} {r : Option ℕ} {k : ℕ} {q : Str}
    (hdrop : q.drop k = w ++ t) (hw : ∀ c ∈ w, Catalog.isSpace c = true)
    (h : nextStatement fuel rounds ⟨q, k⟩ line = .ok r) :
    ∃ rounds' line', nextStatement fuel rounds' ⟨q, k + w.length⟩ line' = .ok r := by
  induction w generalizing k rounds line with
  | nil => exact ⟨rounds, line, h⟩
  | cons c w ih =>
    cases rounds with
    | zero => cases h
    | succ rounds =>
    have hcur : (⟨q, k⟩ : Lexer).current = c := current_of_drop hdrop
    have hspace := hw c List.mem_cons_self
    obtain ⟨line₁, hscan⟩ : ∃ line', scan fuel ⟨q, k⟩ line =
        .ok (Lexer.advance ⟨q, k⟩, line', []) := scan_space (by rw [hcur]; exact hspace)
    rw [nextStatement] at h
    by_cases hnul : (⟨q, k⟩ : Lexer).current = 0
    · rw [hcur] at hnul
      subst hnul
      exact absurd hspace (by decide)
    rw [if_neg hnul, hscan, ok_bind] at h
    have hnext : q.drop (k + 1) = w ++ t := drop_tail hdrop
    obtain ⟨rounds', line', hrest⟩ := ih hnext (fun b hb => hw b (List.mem_cons_of_mem c hb)) h
    refine ⟨rounds', line', ?_⟩
    rw [← hrest, List.length_cons, Nat.add_assoc, Nat.add_comm 1]

/-- The tokens of a text have a semicolon exactly if there is a statement. -/
theorem nextStatement_of_loop {ts : List Token} (h : loop fuel rounds l line = .ok ts) :
    ∃ r, nextStatement fuel rounds l line = .ok r ∧
      (r = none ↔ ts.any (·.type == .semicolon) = false) := by
  induction rounds generalizing l line ts with
  | zero => cases h
  | succ rounds ih =>
    rw [loop] at h
    rw [nextStatement]
    by_cases hnul : l.current = 0
    · rw [if_pos hnul] at h ⊢
      cases h
      exact ⟨none, rfl, iff_of_true rfl rfl⟩
    rw [if_neg hnul] at h ⊢
    obtain ⟨⟨l₁, line₁, us⟩, hscan, h⟩ := bind_eq_ok.1 h
    obtain ⟨vs, hrest, h⟩ := bind_eq_ok.1 h
    cases h
    rw [hscan, ok_bind]
    dsimp only
    cases hany : us.any (·.type == .semicolon) with
    | true =>
      refine ⟨some l₁.position, by rw [if_pos rfl]; rfl, iff_of_false (by simp) ?_⟩
      simp [hany]
    | false =>
      obtain ⟨r, hr, hiff⟩ := ih hrest
      refine ⟨r, by rw [if_neg Bool.false_ne_true]; exact hr, ?_⟩
      rw [List.any_append, hany, Bool.false_or]
      exact hiff

end NextStatement

end Lexer

end MicroSql
