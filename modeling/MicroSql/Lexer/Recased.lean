import MicroSql.Lexer.Ends

/-!
# The letter case of keywords

A query in which only the letter case of keywords is changed, outside string literals and
comments, has the same tokens but for the spelling of its keywords.
-/

namespace MicroSql

open Lib

namespace Lexer

/-- The second text is the first with the letter case of keywords changed. -/
inductive Recased : Str → Str → Prop
  | nil : Recased [] []
  /-- a comment and the newline at its end -/
  | comment {body rest rest' : Str} (hbody : ∀ c ∈ body, (c != newline) = true)
      (hrest : Recased rest rest') :
      Recased (ch '-' :: ch '-' :: body ++ newline :: rest)
        (ch '-' :: ch '-' :: body ++ newline :: rest')
  | openComment {body : Str} (hbody : ∀ c ∈ body, (c != newline) = true) :
      Recased (ch '-' :: ch '-' :: body) (ch '-' :: ch '-' :: body)
  | literal {body rest rest' : Str} {close : UInt8} (hbody : ∀ c ∈ body, inLiteral c = true)
      (hclose : inLiteral close = false) (hrest : Recased rest rest') :
      Recased (quote :: body ++ close :: rest) (quote :: body ++ close :: rest')
  | openLiteral {body : Str} (hbody : ∀ c ∈ body, inLiteral c = true) :
      Recased (quote :: body) (quote :: body)
  /-- a word, which is a keyword if it is not kept -/
  | word {w w' rest rest' : Str} (hstart : isWordStart (w.getD 0 0) = true)
      (hword : ∀ c ∈ w, isWordChar c = true) (hend : isWordChar (rest.getD 0 0) = false)
      (hsame : w' = w ∨ getTokenTypeAlpha w ≠ .identifier ∧ toUpper w' = toUpper w)
      (hrest : Recased rest rest') : Recased (w ++ rest) (w' ++ rest')
  | other {c : UInt8} {rest rest' : Str} (hquote : c ≠ quote) (hstart : isWordStart c = false)
      (hcomment : ¬(c = ch '-' ∧ rest.getD 0 0 = ch '-')) (hrest : Recased rest rest') :
      Recased (c :: rest) (c :: rest')

/-! ### Keywords -/

/-- A letter of either case. -/
theorem isAlpha_of_upper {b : UInt8} (hlo : 65 ≤ upper b) (hhi : upper b ≤ 90) :
    isAlpha b = true := by
  simp only [upper] at hlo hhi
  simp only [isAlpha, Bool.or_eq_true, Bool.and_eq_true, decide_eq_true_eq]
  split at hlo
  next hlower => exact .inr (by simpa using hlower)
  next hother =>
    rw [if_neg hother] at hhi
    exact .inl ⟨hlo, hhi⟩

/-- A keyword is made of letters, also in another letter case. -/
theorem isAlpha_of_keyword {w w' : Str} (h : getTokenTypeAlpha w ≠ .identifier)
    (hsame : toUpper w' = toUpper w) : w' ≠ [] ∧ ∀ b ∈ w', isAlpha b = true := by
  have hkeys : ∀ e ∈ keywordMap, e.1 ≠ [] ∧ e.1.all (fun b => 65 ≤ b && b ≤ 90) = true := by
    decide
  obtain ⟨hne, hall⟩ := hkeys _ (getTokenTypeAlpha_mem h)
  rw [← hsame] at hne hall
  refine ⟨?_, fun b hb => ?_⟩
  · rintro rfl
    exact hne rfl
  · have hupper := List.all_eq_true.1 hall (upper b) (List.mem_map_of_mem hb)
    rw [Bool.and_eq_true, decide_eq_true_eq, decide_eq_true_eq] at hupper
    exact isAlpha_of_upper hupper.1 hupper.2

theorem isWordStart_of_isAlpha {b : UInt8} (h : isAlpha b = true) : isWordStart b = true := by
  rw [isWordStart, h, Bool.true_or]

/-- Both words of the rule for words. -/
theorem word_of_same {w w' : Str} (hstart : isWordStart (w.getD 0 0) = true)
    (hword : ∀ c ∈ w, isWordChar c = true)
    (hsame : w' = w ∨ getTokenTypeAlpha w ≠ .identifier ∧ toUpper w' = toUpper w) :
    isWordStart (w'.getD 0 0) = true ∧ (∀ c ∈ w', isWordChar c = true) ∧ w'.length = w.length := by
  rcases hsame with rfl | ⟨hkey, hupper⟩
  · exact ⟨hstart, hword, rfl⟩
  · obtain ⟨hne, halpha⟩ := isAlpha_of_keyword hkey hupper
    refine ⟨?_, fun c hc => isWordChar_of_isWordStart (isWordStart_of_isAlpha (halpha c hc)), ?_⟩
    · cases w' with
      | nil => exact absurd rfl hne
      | cons b bs => exact isWordStart_of_isAlpha (halpha b List.mem_cons_self)
    · have := congrArg List.length hupper
      simpa [toUpper] using this

namespace Recased

theorem length_eq {s s' : Str} (h : Recased s s') : s'.length = s.length := by
  induction h with
  | nil => rfl
  | comment _ _ ih => simp [ih]
  | openComment => rfl
  | literal _ _ _ ih => simp [ih]
  | openLiteral => rfl
  | word hstart hword _ hsame _ ih =>
    rw [List.length_append, List.length_append, ih, (word_of_same hstart hword hsame).2.2]
  | other _ _ _ _ ih => simp [ih]

/-- The first characters are equal, or both begin a word. -/
theorem head {s s' : Str} (h : Recased s s') : s'.getD 0 0 = s.getD 0 0 ∨
    (isWordStart (s.getD 0 0) = true ∧ isWordStart (s'.getD 0 0) = true) := by
  have hne : ∀ {w : Str}, isWordStart (w.getD 0 0) = true → ∀ rest : Str,
      (w ++ rest).getD 0 0 = w.getD 0 0 := by
    intro w hstart rest
    cases w with
    | nil => exact absurd hstart (by decide)
    | cons => rfl
  cases h with
  | nil => exact .inl rfl
  | comment => exact .inl rfl
  | openComment => exact .inl rfl
  | literal => exact .inl rfl
  | openLiteral => exact .inl rfl
  | word hstart hword _ hsame =>
    obtain ⟨hstart', -, -⟩ := word_of_same hstart hword hsame
    rw [hne hstart, hne hstart']
    exact .inr ⟨hstart, hstart'⟩
  | other => exact .inl rfl

/-- A character that begins no word is kept. -/
theorem head_eq {s s' : Str} (h : Recased s s') {c : UInt8} (hc : isWordStart c = false) :
    s'.getD 0 0 = c ↔ s.getD 0 0 = c := by
  rcases h.head with heq | ⟨hs, hs'⟩
  · rw [heq]
  · constructor
    · intro hcur
      rw [hcur, hc] at hs'
      cases hs'
    · intro hcur
      rw [hcur, hc] at hs
      cases hs

/-- The rule for a character that begins nothing. -/
theorem tail {c : UInt8} {rest s' : Str} (h : Recased (c :: rest) s') (hquote : c ≠ quote)
    (hstart : isWordStart c = false) (hcomment : ¬(c = ch '-' ∧ rest.getD 0 0 = ch '-')) :
    ∃ rest', s' = c :: rest' ∧ Recased rest rest' := by
  generalize hs : c :: rest = s at h
  cases h with
  | nil => cases hs
  | comment =>
    cases hs
    exact absurd ⟨rfl, rfl⟩ hcomment
  | openComment =>
    cases hs
    exact absurd ⟨rfl, rfl⟩ hcomment
  | literal =>
    cases hs
    exact absurd rfl hquote
  | openLiteral =>
    cases hs
    exact absurd rfl hquote
  | @word w _ _ _ hword =>
    cases w with
    | nil => exact absurd hword (by decide)
    | cons =>
      cases hs
      exact absurd hword (by simp [hstart])
  | other _ _ _ hrest =>
    cases hs
    exact ⟨_, rfl, hrest⟩

theorem symm {s s' : Str} (h : Recased s s') : Recased s' s := by
  induction h with
  | nil => exact .nil
  | comment hbody _ ih => exact .comment hbody ih
  | openComment hbody => exact .openComment hbody
  | literal hbody hclose _ ih => exact .literal hbody hclose ih
  | openLiteral hbody => exact .openLiteral hbody
  | @word w w' rest rest' hstart hword hend hsame hrest ih =>
    obtain ⟨hstart', hword', -⟩ := word_of_same hstart hword hsame
    refine .word hstart' hword' ?_ ?_ ih
    · rcases hrest.head with heq | ⟨hr, -⟩
      · rwa [heq]
      · rw [isWordChar_of_isWordStart hr] at hend
        cases hend
    · rcases hsame with rfl | ⟨hkey, hupper⟩
      · exact .inl rfl
      · refine .inr ⟨?_, hupper.symm⟩
        rwa [getTokenTypeAlpha, hupper]
  | other hquote hstart hcomment hrest ih =>
    exact .other hquote hstart
      (fun hboth => hcomment ⟨hboth.1, (hrest.head_eq (by decide)).1 hboth.2⟩) ih

/-- What a loop over the characters of `p` passes, and the rest. -/
theorem takeWhile_split (p : UInt8 → Bool) (s : Str) :
    (∀ c ∈ s.takeWhile p, p c = true) ∧ (s.dropWhile p = [] ∨
      ∃ c rest, s.dropWhile p = c :: rest ∧ p c = false) := by
  refine ⟨fun c hc => List.all_eq_true.1 (List.all_takeWhile) c hc, ?_⟩
  cases hrest : s.dropWhile p with
  | nil => exact .inl rfl
  | cons c rest =>
    refine .inr ⟨c, rest, rfl, ?_⟩
    have hhead := List.head?_dropWhile_not p s
    rw [hrest] at hhead
    simpa using hhead

/-- Every text is of this form. -/
theorem refl : ∀ s : Str, Recased s s
  | [] => .nil
  | c :: s => by
    by_cases hquote : c = quote
    · subst hquote
      obtain ⟨hbody, hend⟩ := takeWhile_split inLiteral s
      have hsplit := List.takeWhile_append_dropWhile (p := inLiteral) (l := s)
      rcases hend with hnone | ⟨close, rest, hrest, hclose⟩
      · rw [hnone, List.append_nil] at hsplit
        rw [hsplit] at hbody
        exact .openLiteral hbody
      · have hlt : rest.length < (quote :: s).length := by
          rw [← hsplit, hrest]
          simp only [List.length_cons, List.length_append]
          omega
        have hstep := Recased.literal hbody hclose (refl rest)
        rwa [List.cons_append, ← hrest, hsplit] at hstep
    by_cases hstart : isWordStart c = true
    · obtain ⟨hword, hend⟩ := takeWhile_split isWordChar s
      have hsplit := List.takeWhile_append_dropWhile (p := isWordChar) (l := s)
      have hlt : (s.dropWhile isWordChar).length < (c :: s).length := by
        have hlen := congrArg List.length hsplit
        rw [List.length_append] at hlen
        rw [List.length_cons]
        omega
      have hnot : isWordChar ((s.dropWhile isWordChar).getD 0 0) = false := by
        rcases hend with hnone | ⟨b, rest, hrest, hb⟩
        · rw [hnone]
          decide
        · rw [hrest]
          exact hb
      have hall : ∀ b ∈ c :: s.takeWhile isWordChar, isWordChar b = true := by
        intro b hb
        rcases List.mem_cons.1 hb with rfl | hb
        · exact isWordChar_of_isWordStart hstart
        · exact hword b hb
      have hstep := Recased.word (w := c :: s.takeWhile isWordChar) hstart hall hnot (.inl rfl)
        (refl (s.dropWhile isWordChar))
      rwa [List.cons_append, hsplit] at hstep
    by_cases hcomment : c = ch '-' ∧ s.getD 0 0 = ch '-'
    · obtain ⟨rfl, hnext⟩ := hcomment
      cases s with
      | nil => exact absurd hnext (by decide)
      | cons b s =>
        have hb : b = ch '-' := hnext
        subst hb
        obtain ⟨hbody, hend⟩ := takeWhile_split (· != newline) s
        have hsplit := List.takeWhile_append_dropWhile (p := (· != newline)) (l := s)
        rcases hend with hnone | ⟨e, rest, hrest, he⟩
        · rw [hnone, List.append_nil] at hsplit
          rw [hsplit] at hbody
          exact .openComment hbody
        · have hnewline : e = newline := by simpa using he
          subst hnewline
          have hlt : rest.length < (ch '-' :: ch '-' :: s).length := by
            rw [← hsplit, hrest]
            simp only [List.length_cons, List.length_append]
            omega
          have hstep := Recased.comment hbody (refl rest)
          rwa [List.cons_append, List.cons_append, ← hrest, hsplit] at hstep
    · exact .other hquote (by simpa using hstart) hcomment (refl s)
termination_by s => s.length
decreasing_by
  all_goals
    simp only [List.length_cons] at *
    omega

end Recased

/-! ### Two lexers side by side -/

/-- The same token, but for the letter case of a keyword. -/
structure TokenLike (t t' : Token) : Prop where
  type : t'.type = t.type
  line : t'.line = t.line
  value : t'.value = t.value ∨ getTokenTypeAlpha t.value ≠ .identifier ∧
    getTokenTypeAlpha t.value = t.type ∧ toUpper t'.value = toUpper t.value

theorem TokenLike.refl (t : Token) : TokenLike t t := ⟨rfl, rfl, .inl rfl⟩

/-- Two lexers at the same place of two queries that are alike from there on. -/
structure Alike (l l' : Lexer) : Prop where
  position : l'.position = l.position
  length : l'.query.length = l.query.length
  rest : Recased (l.query.drop l.position) (l'.query.drop l'.position)

/-- The same results of a round, but for the letter case of keywords. -/
def RoundLike : Except Halt (Lexer × ℤ × List Token) → Except Halt (Lexer × ℤ × List Token) → Prop
  | .ok (l, line, ts), .ok (l', line', ts') =>
    Alike l l' ∧ line' = line ∧ List.Forall₂ TokenLike ts ts'
  | .error e, .error e' => e' = e
  | _, _ => False

section Rounds

variable {l l' : Lexer} {line : ℤ} {fuel : ℕ}

theorem Alike.head_eq (h : Alike l l') {c : UInt8} (hc : isWordStart c = false) :
    l'.current = c ↔ l.current = c := by
  rw [current_eq, current_eq]
  exact h.rest.head_eq hc

/-- Past a character that begins nothing. -/
theorem Alike.advance (h : Alike l l') (hcur : l.current ≠ 0) (hquote : l.current ≠ quote)
    (hstart : isWordStart l.current = false)
    (hcomment : ¬(l.current = ch '-' ∧ l.peek = ch '-')) : Alike l.advance l'.advance := by
  have hrest := h.rest
  rw [drop_eq_cons hcur] at hrest
  have hpeek : (l.query.drop (l.position + 1)).getD 0 0 = l.peek := by
    rw [getD_drop]
    rfl
  obtain ⟨rest', hdrop, hrest⟩ := hrest.tail hquote hstart (by rwa [hpeek])
  refine ⟨by simp [Lexer.advance, h.position], h.length, ?_⟩
  have hnext : l'.query.drop (l'.position + 1) = rest' := drop_tail hdrop
  change Recased (l.query.drop (l.position + 1)) (l'.query.drop (l'.position + 1))
  rwa [hnext]

theorem roundLike_word (h : Alike l l') (hstart : isWordStart l.current = true) :
    RoundLike (do
        let m ← advanceWhile isWordChar fuel l
        let word := (l.query.drop l.position).take (m.position - l.position)
        return (m, line, [⟨getTokenTypeAlpha word, word, line⟩]))
      (do
        let m ← advanceWhile isWordChar fuel l'
        let word := (l'.query.drop l'.position).take (m.position - l'.position)
        return (m, line, [⟨getTokenTypeAlpha word, word, line⟩])) := by
  obtain ⟨q, k⟩ := l
  obtain ⟨q', k'⟩ := l'
  obtain ⟨hk, hlength, hrest⟩ := h
  cases hk
  rw [current_eq] at hstart
  dsimp only at *
  generalize hs : q.drop k = s at hrest hstart
  generalize hs' : q'.drop k = s' at hrest
  cases hrest with
  | nil => exact absurd hstart (by decide)
  | comment => exact absurd hstart (by simp [isWordStart, ch, isAlpha])
  | openComment => exact absurd hstart (by simp [isWordStart, ch, isAlpha])
  | literal => exact absurd hstart (by simp [isWordStart, quote, ch, isAlpha])
  | openLiteral => exact absurd hstart (by simp [isWordStart, quote, ch, isAlpha])
  | other _ hother => exact absurd hstart (by simp [hother])
  | @word w w' rest rest' hw hword hend hsame hrest =>
    obtain ⟨hw', hword', hlen⟩ := word_of_same hw hword hsame
    have hend' : isWordChar (rest'.getD 0 0) = false := by
      rcases hrest.head with heq | ⟨hr, -⟩
      · rwa [heq]
      · rw [isWordChar_of_isWordStart hr] at hend
        cases hend
    rw [advanceWhile_append fuel hs hword hend, advanceWhile_append fuel hs' hword' hend', hlen]
    split
    · refine ⟨⟨rfl, hlength, ?_⟩, rfl, .cons ?_ .nil⟩
      · change Recased (q.drop (k + w.length)) (q'.drop (k + w.length))
        rw [drop_of_append hs, ← hlen, drop_of_append hs']
        exact hrest
      · rw [Nat.add_sub_cancel_left, List.take_left, ← hlen, List.take_left]
        rcases hsame with rfl | ⟨hkey, hupper⟩
        · exact .refl _
        · refine ⟨?_, rfl, .inr ⟨hkey, rfl, hupper⟩⟩
          change getTokenTypeAlpha w' = getTokenTypeAlpha w
          rw [getTokenTypeAlpha, getTokenTypeAlpha, hupper]
    · exact rfl

/-- A comment that no newline ends is never left. -/
theorem advanceWhile_openComment {q body : Str} {k : ℕ} (hq : q.drop k = ch '-' :: ch '-' :: body)
    (hbody : ∀ c ∈ body, (c != newline) = true) :
    advanceWhile (· != newline) fuel ⟨q, k⟩ = .error .outOfFuel := by
  refine advanceWhile_diverges (fun j hj => ?_) fuel
  obtain ⟨i, rfl⟩ := Nat.exists_eq_add_of_le hj
  change (q.getD (k + i) 0 != newline) = true
  rw [← getD_drop, hq]
  rcases i with _ | _ | i
  · rfl
  · rfl
  · change (body.getD i 0 != newline) = true
    by_cases hi : i < body.length
    · rw [getD_eq_of_lt hi]
      exact hbody _ (List.getElem_mem hi)
    · -- past the end of the query a NUL is read, which is no newline
      rw [List.getD_eq_default _ _ (Nat.not_lt.1 hi)]
      rfl

theorem roundLike_comment (h : Alike l l') (hcur : l.current = ch '-') (hpeek : l.peek = ch '-') :
    RoundLike (do
        let m ← advanceWhile (· != newline) fuel l
        return (m.advance, line, []))
      (do
        let m ← advanceWhile (· != newline) fuel l'
        return (m.advance, line, [])) := by
  obtain ⟨q, k⟩ := l
  obtain ⟨q', k'⟩ := l'
  obtain ⟨hk, hlength, hrest⟩ := h
  cases hk
  rw [current_eq] at hcur
  have hpeek : (q.drop k).getD 1 0 = ch '-' := by rw [getD_drop]; exact hpeek
  dsimp only at *
  generalize hs : q.drop k = s at hrest hcur hpeek
  generalize hs' : q'.drop k = s' at hrest
  cases hrest with
  | nil => exact absurd hcur (by decide)
  | literal => exact absurd hcur (by decide : quote ≠ ch '-')
  | openLiteral => exact absurd hcur (by decide : quote ≠ ch '-')
  | @word w _ _ _ hw =>
    cases w with
    | nil => exact absurd hw (by decide)
    | cons b w =>
      have hb : b = ch '-' := hcur
      subst hb
      exact absurd hw (by simp [isWordStart, ch, isAlpha])
  | other _ _ hcomment => exact absurd ⟨hcur, hpeek⟩ hcomment
  | @comment body rest rest' hbody hrest =>
    have hpass : ∀ c ∈ ch '-' :: ch '-' :: body, (c != newline) = true := by
      intro c hc
      rcases List.mem_cons.1 hc with rfl | hc
      · decide
      rcases List.mem_cons.1 hc with rfl | hc
      · decide
      · exact hbody c hc
    rw [advanceWhile_append fuel hs hpass (by simp), advanceWhile_append fuel hs' hpass (by simp)]
    split
    · refine ⟨⟨rfl, hlength, ?_⟩, rfl, .nil⟩
      have hnext : ∀ {q rest : Str}, q.drop k = ch '-' :: ch '-' :: body ++ newline :: rest →
          q.drop (k + (ch '-' :: ch '-' :: body).length + 1) = rest :=
        fun hq => drop_tail (drop_of_append hq)
      change Recased (q.drop (k + (ch '-' :: ch '-' :: body).length + 1))
        (q'.drop (k + (ch '-' :: ch '-' :: body).length + 1))
      rwa [hnext hs, hnext hs']
    · exact rfl
  | @openComment body hbody =>
    rw [advanceWhile_openComment hs hbody, advanceWhile_openComment hs' hbody]
    exact rfl

section Literals

variable {q body rest : Str} {k : ℕ} {close : UInt8}

theorem drop_literal (hq : q.drop k = quote :: body ++ close :: rest) :
    q.drop (k + 1) = body ++ close :: rest := drop_tail hq

theorem drop_closed (hq : q.drop k = quote :: body ++ close :: rest) :
    q.drop (k + 1 + body.length + 1) = rest := drop_tail (drop_of_append (drop_literal hq))

/-- A literal that is closed, where `int` has a number for its first character. -/
theorem literal_closed (hstart : k + 1 < 2 ^ 31) (hq : q.drop k = quote :: body ++ close :: rest)
    (hbody : ∀ c ∈ body, inLiteral c = true) (hclose : inLiteral close = false) :
    literal fuel ⟨q, k⟩ line = if body.length < fuel then
      .ok (⟨q, k + 1 + body.length + 1⟩,
        [⟨.stringLiteral, body.take (body.length % 2 ^ 64), line⟩])
    else .error .outOfFuel := by
  have hi : literalStart k = k + 1 := by
    unfold literalStart
    rw [Nat.mod_eq_of_lt (by omega)]
    exact if_pos hstart
  have hlen : q.length = k + body.length + rest.length + 2 := by
    have hsub := congrArg List.length hq
    rw [List.length_drop] at hsub
    simp only [List.length_append, List.length_cons] at hsub
    omega
  have hsub : substr q (k + 1) ((k + 1 + body.length + 2 ^ 64 - (k + 1)) % 2 ^ 64) =
      .ok (body.take (body.length % 2 ^ 64)) := by
    rw [substr, if_pos (by omega), drop_literal hq,
      show k + 1 + body.length + 2 ^ 64 - (k + 1) = body.length + 2 ^ 64 by omega,
      Nat.add_mod_right, List.take_append_of_le_length (Nat.mod_le _ _)]
  unfold literal
  rw [hi]
  change (advanceWhile inLiteral fuel ⟨q, k + 1⟩ >>= _) = _
  rw [advanceWhile_append (p := inLiteral) fuel (drop_literal hq) hbody hclose]
  split
  · rw [ok_bind]
    dsimp only
    rw [if_neg (by omega), hsub]
    rfl
  · rfl

/-- A literal that is not closed reaches to the end of the query. -/
theorem length_openLiteral (hq : q.drop k = quote :: body) : k + 1 + body.length = q.length := by
  have hsub := congrArg List.length hq
  rw [List.length_drop, List.length_cons] at hsub
  omega

theorem literal_open (hq : q.drop k = quote :: body) (hbody : ∀ c ∈ body, inLiteral c = true) :
    literal fuel ⟨q, k⟩ line = if body.length < fuel then
      .ok (⟨q, k + 1 + body.length + 1⟩, [⟨.error, str "Unterminated string literal", line⟩])
    else .error .outOfFuel := by
  have hnext : q.drop (k + 1) = body ++ [] := by
    rw [drop_tail hq, List.append_nil]
  unfold literal
  change (advanceWhile inLiteral fuel ⟨q, k + 1⟩ >>= _) = _
  rw [advanceWhile_append (p := inLiteral) fuel hnext hbody rfl]
  split
  · rw [ok_bind]
    dsimp only
    rw [if_pos (length_openLiteral hq)]
    rfl
  · rfl

end Literals

/-- A literal that starts where `int` has a number for it. -/
theorem roundLike_literal (h : Alike l l') (hcur : l.current = quote)
    (hstart : l.position + 1 < 2 ^ 31) :
    RoundLike (do
        let (l, tokens) ← literal fuel l line
        return (l, line, tokens))
      (do
        let (l, tokens) ← literal fuel l' line
        return (l, line, tokens)) := by
  obtain ⟨q, k⟩ := l
  obtain ⟨q', k'⟩ := l'
  obtain ⟨hk, hlength, hrest⟩ := h
  cases hk
  rw [current_eq] at hcur
  dsimp only at *
  generalize hs : q.drop k = s at hrest hcur
  generalize hs' : q'.drop k = s' at hrest
  cases hrest with
  | nil => exact absurd hcur (by decide)
  | comment => exact absurd hcur (by decide : ch '-' ≠ quote)
  | openComment => exact absurd hcur (by decide : ch '-' ≠ quote)
  | @word w _ _ _ hw =>
    cases w with
    | nil => exact absurd hw (by decide)
    | cons b w =>
      have hb : b = quote := hcur
      subst hb
      exact absurd hw (by simp [isWordStart, quote, ch, isAlpha])
  | other hquote => exact absurd hcur hquote
  | @literal body rest rest' close hbody hclose hrest =>
    rw [literal_closed hstart hs hbody hclose, literal_closed hstart hs' hbody hclose]
    split
    · refine ⟨⟨rfl, hlength, ?_⟩, rfl, .cons (.refl _) .nil⟩
      change Recased (q.drop (k + 1 + body.length + 1)) (q'.drop (k + 1 + body.length + 1))
      rwa [drop_closed hs, drop_closed hs']
    · exact rfl
  | @openLiteral body hbody =>
    rw [literal_open hs hbody, literal_open hs' hbody]
    split
    · refine ⟨⟨rfl, hlength, ?_⟩, rfl, .cons (.refl _) .nil⟩
      have hend : ∀ {q : Str}, q.drop k = quote :: body →
          q.drop (k + 1 + body.length + 1) = [] := fun hq =>
        List.drop_of_length_le ((length_openLiteral hq).symm.le.trans (Nat.le_succ _))
      change Recased (q.drop (k + 1 + body.length + 1)) (q'.drop (k + 1 + body.length + 1))
      rw [hend hs, hend hs']
      exact .nil
    · exact rfl

/-- A character that begins a word belongs to no number. -/
theorem not_number_of_isWordStart {c : UInt8} (hc : isWordStart c = true) :
    Catalog.isDigit c = false ∧ (c == ch '.') = false := by
  refine ⟨?_, ?_⟩
  · simp only [isWordStart, isAlpha, Catalog.isDigit, Bool.or_eq_true, Bool.and_eq_true,
      decide_eq_true_eq, beq_iff_eq, Bool.and_eq_false_iff, decide_eq_false_iff_not,
      UInt8.le_iff_toNat_le] at hc ⊢
    rcases hc with (hc | hc) | rfl
    · exact .inr (by change ¬c.toNat ≤ 57; have : 65 ≤ c.toNat := hc.1; omega)
    · exact .inr (by change ¬c.toNat ≤ 57; have : 97 ≤ c.toNat := hc.1; omega)
    · exact .inr (by decide)
  · rw [beq_eq_false_iff_ne]
    rintro rfl
    exact absurd hc (by decide)

/-- The loop over a number passes the same characters in both queries. -/
theorem advanceNumber_alike : ∀ (fuel : ℕ) (hasDot : Bool) {l l' : Lexer}, Alike l l' →
    (advanceNumber fuel hasDot l = .error .outOfFuel ∧
      advanceNumber fuel hasDot l' = .error .outOfFuel) ∨
    ∃ w m m', advanceNumber fuel hasDot l = .ok m ∧ advanceNumber fuel hasDot l' = .ok m' ∧
      Alike m m' ∧ m.position = l.position + w.length ∧
      l.query.drop l.position = w ++ m.query.drop m.position ∧
      l'.query.drop l'.position = w ++ m'.query.drop m'.position
  | 0, _, _, _, _ => .inl ⟨rfl, rfl⟩
  | fuel + 1, hasDot, l, l', h => by
    rw [advanceNumber, advanceNumber]
    rcases h.rest.head with heq | ⟨hs, hs'⟩
    · rw [← current_eq, ← current_eq] at heq
      rw [heq]
      by_cases hpass : (Catalog.isDigit l.current || (!hasDot && l.current == ch '.')) = true
      · rw [if_pos hpass, if_pos hpass]
        have hnumber : inNumber l.current = true := by
          rcases Bool.or_eq_true_iff.1 hpass with hp | hp
          · rw [inNumber, hp, Bool.true_or]
          · rw [inNumber, (Bool.and_eq_true_iff.1 hp).2, Bool.or_true]
        have hne : ∀ {c}, inNumber c = false → l.current ≠ c := by
          rintro c hc rfl
          rw [hnumber] at hc
          cases hc
        have hstart : isWordStart l.current = false := by
          by_contra hstart
          obtain ⟨h1, h2⟩ := not_number_of_isWordStart (by simpa using hstart)
          rw [inNumber, h1, h2] at hnumber
          cases hnumber
        have hnul : l.current ≠ 0 := hne rfl
        have hnul' : l'.current ≠ 0 := by rwa [heq]
        have hnext := h.advance hnul (hne rfl) hstart fun hc => hne rfl hc.1
        rcases advanceNumber_alike fuel (hasDot || l.current == ch '.') hnext with
          hfail | ⟨w, m, m', hm, hm', halike, hpos, hdrop, hdrop'⟩
        · exact .inl hfail
        · refine .inr ⟨l.current :: w, m, m', hm, hm', halike, ?_, ?_, ?_⟩
          · rw [hpos, List.length_cons]
            simp only [Lexer.advance]
            omega
          · rw [drop_eq_cons hnul, List.cons_append, ← hdrop]
            rfl
          · rw [drop_eq_cons hnul', heq, List.cons_append, ← hdrop']
            rfl
      · rw [if_neg hpass, if_neg hpass]
        exact .inr ⟨[], l, l', rfl, rfl, h, rfl, rfl, rfl⟩
    · rw [← current_eq] at hs hs'
      -- both are at words, whose letters may differ: neither loop passes anything
      obtain ⟨h1, h2⟩ := not_number_of_isWordStart hs
      obtain ⟨h1', h2'⟩ := not_number_of_isWordStart hs'
      rw [h1, h2, h1', h2', Bool.and_false, Bool.or_false, if_neg Bool.false_ne_true,
        if_neg Bool.false_ne_true]
      exact .inr ⟨[], l, l', rfl, rfl, h, rfl, rfl, rfl⟩

theorem roundLike_number (h : Alike l l') :
    RoundLike (do
        let m ← advanceNumber fuel false l
        let num := (l.query.drop l.position).take (m.position - l.position)
        return (m, line, [⟨getTokenTypeDigit num, num, line⟩]))
      (do
        let m ← advanceNumber fuel false l'
        let num := (l'.query.drop l'.position).take (m.position - l'.position)
        return (m, line, [⟨getTokenTypeDigit num, num, line⟩])) := by
  rcases advanceNumber_alike fuel false h with
    ⟨hm, hm'⟩ | ⟨w, m, m', hm, hm', halike, hpos, hdrop, hdrop'⟩
  · rw [hm, hm']
    exact rfl
  · have hnum : (l.query.drop l.position).take (m.position - l.position) = w := by
      rw [hdrop, hpos, Nat.add_sub_cancel_left, List.take_left]
    have hnum' : (l'.query.drop l'.position).take (m'.position - l'.position) = w := by
      rw [hdrop', halike.position, h.position, hpos, Nat.add_sub_cancel_left, List.take_left]
    rw [hm, hm', ok_bind, ok_bind]
    dsimp only
    rw [hnum, hnum']
    exact ⟨halike, rfl, .cons (.refl _) .nil⟩

theorem scan_word (hstart : isWordStart l.current = true) :
    scan fuel l line = (do
      let m ← advanceWhile isWordChar fuel l
      let word := (l.query.drop l.position).take (m.position - l.position)
      return (m, line, [⟨getTokenTypeAlpha word, word, line⟩])) := by
  have hne : ∀ {c}, isWordStart c = false → l.current ≠ c := by
    rintro c hc rfl
    rw [hstart] at hc
    cases hc
  have hsymbol : symbolType l.current = none := by
    unfold symbolType
    simp only [if_neg (hne (c := ch '=') rfl), if_neg (hne (c := ch '+') rfl),
      if_neg (hne (c := ch '*') rfl), if_neg (hne (c := ch '/') rfl),
      if_neg (hne (c := ch ',') rfl), if_neg (hne (c := ch ';') rfl),
      if_neg (hne (c := ch '.') rfl), if_neg (hne (c := ch '(') rfl),
      if_neg (hne (c := ch ')') rfl)]
  unfold scan
  simp only [if_neg (hne (c := ch ' ') rfl), if_neg (hne (c := newline) rfl),
    if_neg (hne (c := ch '!') rfl), if_neg (hne (c := ch '<') rfl),
    if_neg (hne (c := ch '>') rfl), if_neg (hne (c := ch '-') rfl), hsymbol,
    if_neg (hne (c := quote) rfl), hstart, if_true]

/-- The second character of a comment, or of a minus sign. -/
theorem Alike.peek_minus (h : Alike l l') (hcur : l.current = ch '-') :
    l'.peek = ch '-' ↔ l.peek = ch '-' := by
  have hnul : l.current ≠ 0 := by rw [hcur]; decide
  by_cases hpeek : l.peek = ch '-'
  · refine iff_of_true ?_ hpeek
    have hrest := h.rest
    have hnext : l.query.drop (l.position + 1) = ch '-' :: l.query.drop (l.position + 1 + 1) :=
      (drop_eq_cons (l := l.advance) (by change l.peek ≠ 0; rw [hpeek]; decide)).trans
        (congrArg (· :: _) hpeek)
    rw [drop_eq_cons hnul, hcur, hnext] at hrest
    have hpeek' : l'.peek = (l'.query.drop l'.position).getD 1 0 := by
      rw [getD_drop]
      rfl
    rw [hpeek']
    generalize hs : ch '-' :: ch '-' :: l.query.drop (l.position + 1 + 1) = s at hrest
    generalize l'.query.drop l'.position = s' at hrest
    cases hrest with
    | nil => cases hs
    | comment => rfl
    | openComment => rfl
    | literal => cases hs
    | openLiteral => cases hs
    | @word w _ _ _ hw =>
      cases w with
      | nil => exact absurd hw (by decide)
      | cons b w =>
        have hb : b = ch '-' := (List.cons.inj hs).1.symm
        subst hb
        exact absurd hw (by simp [isWordStart, ch, isAlpha])
    | other _ _ hcomment =>
      cases hs
      exact absurd ⟨rfl, rfl⟩ hcomment
  · exact Alike.head_eq (h.advance hnul (by rw [hcur]; decide) (by rw [hcur]; decide)
      fun hc => hpeek hc.2) rfl

/-- Past a token of two characters. -/
theorem Alike.advance_two (h : Alike l l') {b c : UInt8} (hcur : l.current = b) (hpeek : l.peek = c)
    (hb : b ≠ 0 ∧ b ≠ quote ∧ isWordStart b = false ∧ b ≠ ch '-')
    (hc : c ≠ 0 ∧ c ≠ quote ∧ isWordStart c = false ∧ c ≠ ch '-') :
    Alike l.advance.advance l'.advance.advance := by
  obtain ⟨hb0, hbq, hbw, hbm⟩ := hb
  obtain ⟨hc0, hcq, hcw, hcm⟩ := hc
  have hnext : Alike l.advance l'.advance := by
    refine h.advance ?_ ?_ ?_ ?_
    all_goals rw [hcur]
    · exact hb0
    · exact hbq
    · exact hbw
    · exact fun hm => hbm hm.1
  have hcur' : l.advance.current = c := hpeek
  refine hnext.advance ?_ ?_ ?_ ?_
  all_goals rw [hcur']
  · exact hc0
  · exact hcq
  · exact hcw
  · exact fun hm => hcm hm.1

/-- One round of the lexer. -/
theorem scan_alike (h : Alike l l') (hnul : l.current ≠ 0)
    (hquotes : l.current = quote → l.position + 1 < 2 ^ 31) :
    RoundLike (scan fuel l line) (scan fuel l' line) := by
  by_cases hstart : isWordStart l.current = true
  · have hstart' : isWordStart l'.current = true := by
      rcases h.rest.head with heq | ⟨-, hs'⟩
      · rw [current_eq, heq, ← current_eq]
        exact hstart
      · rw [current_eq]
        exact hs'
    rw [scan_word hstart, scan_word hstart']
    exact roundLike_word h hstart
  rw [Bool.not_eq_true] at hstart
  have heq : l'.current = l.current := by
    rcases h.rest.head with heq | ⟨hs, -⟩
    · rw [current_eq, current_eq]
      exact heq
    · rw [← current_eq, hstart] at hs
      cases hs
  -- the next character may differ, but not where the round looks at it
  have hat : l'.At l.current l.peek := by
    refine ⟨heq, fun d hd => ?_⟩
    have hpairs : ∀ e ∈ pairs, e.1 ≠ quote ∧ isWordStart e.2 = false ∧
        (e.1 = ch '-' → e.2 = ch '-') :=
      List.forall_mem_cons.2 ⟨by decide, List.forall_mem_map.2 (by decide)⟩
    obtain ⟨hquote, hd', hcomment⟩ := hpairs _ hd
    by_cases hminus : l.current = ch '-'
    · obtain rfl : d = ch '-' := hcomment hminus
      exact h.peek_minus hminus
    · exact Alike.head_eq (h.advance hnul hquote hstart fun hm => hminus hm.1) hd'
  -- a token of one character, or none
  have hsingle : ∀ {line' : ℤ} {ts : List Token}, l.current ≠ quote →
      ¬(l.current = ch '-' ∧ l.peek = ch '-') →
      RoundLike (.ok (l.advance, line', ts)) (.ok (l'.advance, line', ts)) := by
    intro line' ts hquote hcomment
    exact ⟨h.advance hnul hquote hstart hcomment, rfl, List.forall₂_same.2 fun t _ => .refl t⟩
  obtain ⟨round, hround, hscan⟩ := scan_branch l.current l.peek
  rw [hscan l.at_self, hscan hat]
  cases hround with
  | blank hcur =>
    exact hsingle (by rw [hcur]; decide) fun hm => absurd (hcur.symm.trans hm.1) (by decide)
  | line hcur =>
    exact hsingle (by rw [hcur]; decide) fun hm => absurd (hcur.symm.trans hm.1) (by decide)
  | single type hmem =>
    have hsymbols : ∀ e ∈ singles, e.1 ≠ quote ∧ e.1 ≠ ch '-' := by decide
    obtain ⟨hquote, hminus⟩ := hsymbols _ hmem
    exact hsingle hquote fun hm => hminus hm.1
  | double type hmem =>
    have hsymbols : ∀ e ∈ doubles,
        (e.1 ≠ 0 ∧ e.1 ≠ quote ∧ isWordStart e.1 = false ∧ e.1 ≠ ch '-') ∧
        e.2.1 ≠ 0 ∧ e.2.1 ≠ quote ∧ isWordStart e.2.1 = false ∧ e.2.1 ≠ ch '-' := by decide
    obtain ⟨hb, hc⟩ := hsymbols _ hmem
    exact ⟨h.advance_two rfl rfl hb hc, rfl, List.forall₂_same.2 fun t _ => .refl t⟩
  | minus hcur hpeek => exact hsingle (by rw [hcur]; decide) fun hm => hpeek hm.2
  | comment hcur hpeek => exact roundLike_comment h hcur hpeek
  | literal hcur => exact roundLike_literal h hcur (hquotes hcur)
  | word hword =>
    rw [hstart] at hword
    cases hword
  | number => exact roundLike_number h
  | other _ _ hminus hquote => exact hsingle hquote fun hm => hminus hm.1

end Rounds

/-- The same tokens, but for the spelling of keywords. -/
def TokensLike : Except Halt (List Token) → Except Halt (List Token) → Prop
  | .ok ts, .ok ts' => List.Forall₂ TokenLike ts ts'
  | .error e, .error e' => e' = e
  | _, _ => False

theorem loop_alike (fuel : ℕ) : ∀ (rounds : ℕ) {l l' : Lexer} {line : ℤ}, Alike l l' →
    (∀ k, l.query.getD k 0 = quote → k + 1 < 2 ^ 31) →
    TokensLike (loop fuel rounds l line) (loop fuel rounds l' line)
  | 0, _, _, _, _, _ => rfl
  | rounds + 1, l, l', line, h, hquotes => by
    rw [loop, loop]
    by_cases hnul : l.current = 0
    · rw [if_pos hnul, if_pos ((h.head_eq (by decide)).2 hnul)]
      exact List.forall₂_same.2 fun t _ => .refl t
    · rw [if_neg hnul, if_neg (mt (h.head_eq (by decide)).1 hnul)]
      have hround : RoundLike (scan fuel l line) (scan fuel l' line) :=
        scan_alike h hnul (hquotes l.position)
      rcases hscan : scan fuel l line with e | ⟨m, line₁, ts⟩ <;>
        rcases hscan' : scan fuel l' line with e' | ⟨m', line₂, ts'⟩ <;>
        rw [hscan, hscan'] at hround
      · exact hround
      · exact hround.elim
      · exact hround.elim
      · obtain ⟨halike, hline, hts⟩ := hround
        subst hline
        rw [ok_bind, ok_bind]
        have hrest : TokensLike (loop fuel rounds m line₂) (loop fuel rounds m' line₂) :=
          loop_alike fuel rounds halike (by rw [(scan_eq_ok hnul hscan).query_eq]; exact hquotes)
        dsimp only
        rcases hloop : loop fuel rounds m line₂ with e | us <;>
          rcases hloop' : loop fuel rounds m' line₂ with e' | us' <;>
          rw [hloop, hloop'] at hrest
        · exact hrest
        · exact hrest.elim
        · exact hrest.elim
        · exact List.rel_append hts hrest

/-- The lexer reads a query and the same query with keywords in another letter case alike. -/
theorem tokenize_alike {q q' : Str} (h : Recased q q')
    (hquotes : ∀ k, q.getD k 0 = quote → k + 1 < 2 ^ 31) (fuel : ℕ) :
    TokensLike (tokenize fuel { query := q }) (tokenize fuel { query := q' }) :=
  loop_alike fuel fuel ⟨rfl, h.length_eq, h⟩ hquotes

end Lexer

end MicroSql
