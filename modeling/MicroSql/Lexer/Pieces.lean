import MicroSql.Lexer.Ends

/-!
# The pieces of a query

Each round of `tokenize` passes a piece of the query: a character that is no token, a token, a
comment or a string literal.  `spans` keeps with each token the stretch of the query that was
passed in its round, and `Pieces` says how the pieces make up the query.
-/

namespace MicroSql

open Lib

/-- A token, and the stretch of the query that was passed for it. -/
structure Span where
  token : Token
  start : ℕ
  stop : ℕ
  deriving DecidableEq, Repr

namespace Lexer

/-- How much of the query has been passed. -/
def offset (l : Lexer) : ℕ := min l.position l.query.length

/-- The loop of `tokenize`, with the stretch of each token. -/
def spans (fuel : ℕ) : ℕ → Lexer → ℤ → Except Halt (List Span)
  | 0, _, _ => .error .outOfFuel
  | rounds + 1, l, line =>
    if l.current = 0 then .ok [⟨endToken line, l.offset, l.offset⟩]
    else do
      let (l', line, tokens) ← scan fuel l line
      let rest ← spans fuel rounds l' line
      return tokens.map (⟨·, l.offset, l'.offset⟩) ++ rest

/-- Without the stretches, it is the loop of `tokenize`. -/
theorem spans_of_loop {fuel rounds : ℕ} {l : Lexer} {line : ℤ} {tokens : List Token}
    (h : loop fuel rounds l line = .ok tokens) :
    ∃ ss, spans fuel rounds l line = .ok ss ∧ ss.map (·.token) = tokens := by
  induction rounds generalizing l line tokens with
  | zero => cases h
  | succ rounds ih =>
    rw [loop] at h
    rw [spans]
    by_cases hcur : l.current = 0
    · rw [if_pos hcur] at h ⊢
      cases h
      exact ⟨_, rfl, rfl⟩
    · rw [if_neg hcur] at h ⊢
      obtain ⟨⟨l', line', ts⟩, hscan, h⟩ := bind_eq_ok.1 h
      obtain ⟨rest, hrest, h⟩ := bind_eq_ok.1 h
      cases h
      obtain ⟨ss, hss, hmap⟩ := ih hrest
      rw [hscan, ok_bind]
      dsimp only at hss ⊢
      rw [hss, ok_bind]
      exact ⟨_, rfl, by simp [hmap, Function.comp_def]⟩

/-! ### Characters and their places -/

/-- The characters that a round makes a token of, or a part of one. -/
def inToken (c : UInt8) : Bool := singles.any (·.1 == c) || c == ch '-' || isWordChar c

/-- Where in a query a character stands; what follows a NUL in the code is not read. -/
inductive Place
  | code
  | comment
  | literal
  | unread
  deriving DecidableEq, Repr

/-- The characters of a query with their places.  A comment has the newline at its end, and a
literal has its quotes. -/
def marks : Place → Str → List (UInt8 × Place)
  | _, [] => []
  | .code, c :: rest =>
    if c = 0 then (c, .unread) :: marks .unread rest
    else if c = ch '-' ∧ rest.getD 0 0 = ch '-' then (c, .comment) :: marks .comment rest
    else if c = quote then (c, .literal) :: marks .literal rest
    else (c, .code) :: marks .code rest
  | .comment, c :: rest =>
    (c, .comment) :: marks (if c = newline then .code else .comment) rest
  | .literal, c :: rest =>
    (c, .literal) :: marks (if inLiteral c then .literal else .code) rest
  | .unread, c :: rest => (c, .unread) :: marks .unread rest

@[simp] theorem marks_nil (place : Place) : marks place [] = [] := by
  cases place <;> rfl

@[simp] theorem length_marks (place : Place) (s : Str) : (marks place s).length = s.length := by
  induction s generalizing place with
  | nil => rw [marks_nil]
           rfl
  | cons c rest ih =>
    cases place <;> simp only [marks]
    · split_ifs <;> simp [ih]
    all_goals simp [ih]

theorem map_fst_marks (place : Place) (s : Str) : (marks place s).map Prod.fst = s := by
  induction s generalizing place with
  | nil => rw [marks_nil]
           rfl
  | cons c rest ih =>
    cases place <;> simp only [marks]
    · split_ifs <;> simp [ih]
    all_goals simp [ih]

theorem marks_unread (s : Str) : ∀ e ∈ marks .unread s, e.2 = .unread := by
  induction s with
  | nil => simp
  | cons c rest ih =>
    intro e he
    rcases List.mem_cons.1 he with rfl | he
    · rfl
    · exact ih e he

/-- Nothing is read from a NUL on. -/
theorem marks_nul {s : Str} (h : s.getD 0 0 = 0) : ∀ e ∈ marks .code s, e.2 = .unread := by
  cases s with
  | nil => simp
  | cons c rest =>
    have hc : c = 0 := h
    intro e he
    rw [marks, if_pos hc] at he
    rcases List.mem_cons.1 he with rfl | he
    · rfl
    · exact marks_unread rest e he

/-! ### One piece -/

/-- What one round passes, before `rest`: its characters, the line after it and its tokens. -/
inductive Piece (line : ℤ) : Str → Str → ℤ → List Token → Prop
  | blank {c : UInt8} {rest : Str} (hnul : c ≠ 0) (hquote : c ≠ quote) (hout : inToken c = false) :
      Piece line [c] rest (if c = newline then line + 1 else line) []
  | token {w rest : Str} {t : Token} (hin : ∀ c ∈ w, inToken c = true)
      (hminus : ch '-' ∉ w) (hline : t.line = line) : Piece line w rest line [t]
  | minus {rest : Str} {t : Token} (hpeek : rest.getD 0 0 ≠ ch '-') (hline : t.line = line) :
      Piece line [ch '-'] rest line [t]
  | comment {body rest : Str} (hbody : ∀ c ∈ body, (c != newline) = true) :
      Piece line (ch '-' :: ch '-' :: body ++ [newline]) rest line []
  | literal {body rest : Str} {close : UInt8} {t : Token} (hbody : ∀ c ∈ body, inLiteral c = true)
      (hclose : inLiteral close = false) (hline : t.line = line) :
      Piece line (quote :: body ++ [close]) rest line [t]
  | openLiteral {body : Str} {t : Token} (hbody : ∀ c ∈ body, inLiteral c = true)
      (hline : t.line = line) : Piece line (quote :: body) [] line [t]

section Scan

variable {fuel : ℕ} {l l' m : Lexer} {line line' : ℤ} {ts : List Token}

/-- A round without tokens that is at no comment passes a blank. -/
theorem scan_nothing (h : scan fuel l line = .ok (l', line', [])) (hminus : l.current ≠ ch '-')
    (hquote : l.current ≠ quote) :
    inToken l.current = false ∧ line' = if l.current = newline then line + 1 else line := by
  obtain ⟨round, hround, hscan⟩ := scan_branch l.current l.peek
  rw [hscan l.at_self] at h
  cases hround with
  | blank hcur =>
    cases h
    rw [hcur]
    exact ⟨by decide, rfl⟩
  | line hcur =>
    cases h
    rw [hcur]
    exact ⟨by decide, rfl⟩
  | single => cases h
  | double => cases h
  | minus hcur => exact absurd hcur hminus
  | comment hcur => exact absurd hcur hminus
  | literal hcur => exact absurd hcur hquote
  | word =>
    obtain ⟨m, -, hm⟩ := bind_eq_ok.1 h
    cases hm
  | number =>
    obtain ⟨m, -, hm⟩ := bind_eq_ok.1 h
    cases hm
  | other hsymbol hline _ _ hword hdigit =>
    cases h
    refine ⟨?_, (if_neg hline).symm⟩
    simp only [isWordStart, Bool.or_eq_true, not_or] at hword
    simp only [inToken, isWordChar, isAlnum, Bool.or_eq_false_iff, List.any_eq_false, beq_iff_eq,
      beq_eq_false_iff_ne]
    exact ⟨⟨hsymbol, hminus⟩, ⟨by simpa using hword.1, by simpa using hdigit⟩,
      by simpa using hword.2⟩

/-- What a loop passes, and what is left. -/
theorem Passes.split {p : UInt8 → Bool} (h : Passes p l m) :
    ∃ w, l.query.drop l.position = w ++ m.query.drop m.position ∧ ∀ c ∈ w, p c = true := by
  obtain ⟨n, hn⟩ := Nat.exists_eq_add_of_le h.le
  refine ⟨(l.query.drop l.position).take n, ?_, fun c hc => ?_⟩
  · rw [h.query_eq, hn, ← List.drop_drop, List.take_append_drop]
  · obtain ⟨i, hi, rfl⟩ := List.getElem_of_mem hc
    rw [List.length_take, List.length_drop] at hi
    have hpass := h.pass (l.position + i) (Nat.le_add_right _ _) (by omega)
    rw [getD_eq_of_lt (by omega)] at hpass
    rw [List.getElem_take, List.getElem_drop]
    exact hpass

/-- The characters `w` have been passed. -/
theorem offset_eq {w : Str} (hq : l'.query = l.query) (hle : l.position ≤ l.query.length)
    (h : l.query.drop l.position = w ++ l'.query.drop l'.position) :
    l'.offset = l.offset + w.length := by
  have hlength := congrArg List.length h
  rw [List.length_append, List.length_drop, List.length_drop, hq] at hlength
  rw [offset, offset, hq]
  omega

theorem inToken_of_isWordChar {c : UInt8} (h : isWordChar c = true) : inToken c = true := by
  rw [inToken, h, Bool.or_true]

theorem inToken_of_inNumber {c : UInt8} (h : inNumber c = true) : inToken c = true := by
  rcases Bool.or_eq_true_iff.1 h with hdigit | hdot
  · refine inToken_of_isWordChar ?_
    rw [isWordChar, isAlnum, hdigit, Bool.or_true, Bool.true_or]
  · rw [eq_of_beq hdot]
    decide

theorem ne_minus_of {p : UInt8 → Bool} (hminus : p (ch '-') = false) {w : Str}
    (hw : ∀ c ∈ w, p c = true) : ch '-' ∉ w := by
  intro hmem
  rw [hw _ hmem] at hminus
  cases hminus

theorem singles_inToken : ∀ e ∈ singles, inToken e.1 = true ∧ e.1 ≠ ch '-' := by decide

theorem doubles_inToken :
    ∀ e ∈ doubles, (inToken e.1 = true ∧ e.1 ≠ ch '-') ∧ inToken e.2.1 = true ∧ e.2.1 ≠ ch '-' ∧
      e.2.1 ≠ 0 := by decide

/-- The piece of a comment. -/
theorem piece_comment (hcur : l.current = ch '-') (hpeek : l.peek = ch '-')
    (hm : advanceWhile (· != newline) fuel l = .ok m) :
    ∃ w, l.query.drop l.position = w ++ m.advance.query.drop m.advance.position ∧
      Piece line w (m.advance.query.drop m.advance.position) line [] := by
  obtain ⟨hpass, hend⟩ := advanceWhile_eq_ok hm
  obtain ⟨w, hw, hall⟩ := hpass.split
  have hnewline : m.current = newline := by simpa using hend
  have hrest := drop_eq_cons (l := m) (by rw [hnewline]; decide)
  rw [hnewline] at hrest
  -- the two minus signs are among what the loop passes
  have hfirst := drop_eq_cons (l := l) (by rw [hcur]; decide)
  have hsecond : l.query.drop (l.position + 1) = l.peek :: l.query.drop (l.position + 2) :=
    drop_eq_cons (l := l.advance) (by change l.peek ≠ 0; rw [hpeek]; decide)
  rw [hfirst, hsecond, hcur, hpeek, hrest] at hw
  rw [hfirst, hsecond, hcur, hpeek]
  match w, hw, hall with
  | [], hw, _ => exact absurd (List.cons.inj hw).1 (by decide)
  | [b], hw, _ => exact absurd (List.cons.inj (List.cons.inj hw).2).1 (by decide)
  | b :: c :: body, hw, hall =>
    simp only [List.cons_append, List.cons.injEq] at hw
    obtain ⟨rfl, rfl, hw⟩ := hw
    have hbody : ∀ c ∈ body, (c != newline) = true := fun c hc =>
      hall c (List.mem_cons_of_mem _ (List.mem_cons_of_mem _ hc))
    refine ⟨_, ?_, .comment hbody⟩
    rw [hw]
    simp [Lexer.advance]

/-- The piece of a string literal. -/
theorem piece_literal (hcur : l.current = quote) (h : Lexer.literal fuel l line = .ok (l', ts)) :
    ∃ w, l.query.drop l.position = w ++ l'.query.drop l'.position ∧
      Piece line w (l'.query.drop l'.position) line ts := by
  obtain ⟨m, hm, h⟩ := bind_eq_ok.1 h
  obtain ⟨hpass, hend⟩ := advanceWhile_eq_ok hm
  obtain ⟨w, hw, hall⟩ := hpass.split
  have hle := hpass.le_length rfl (lt_of_current (by rw [hcur]; decide))
  have hfirst := drop_eq_cons (l := l) (by rw [hcur]; decide)
  rw [hcur] at hfirst
  have hq : m.query = l.query := hpass.query_eq
  change l.query.drop (l.position + 1) = _ at hw
  split at h
  · next hopen =>
    cases h
    have hnone : m.advance.query.drop m.advance.position = [] :=
      List.drop_of_length_le (by simp only [Lexer.advance]; omega)
    have hnone' : m.query.drop m.position = [] := List.drop_of_length_le hopen.ge
    rw [hnone', List.append_nil] at hw
    rw [hnone, hfirst, hw]
    exact ⟨_, (List.append_nil _).symm, .openLiteral hall rfl⟩
  · next hclosed =>
    obtain ⟨value, -, h⟩ := bind_eq_ok.1 h
    cases h
    have hlt : m.position < m.query.length := by
      rw [hq] at hclosed ⊢
      exact lt_of_le_of_ne hle hclosed
    have hrest : m.query.drop m.position = m.current :: m.query.drop (m.position + 1) := by
      rw [List.drop_eq_getElem_cons hlt, current, getD_eq_of_lt hlt]
    refine ⟨quote :: w ++ [m.current], ?_, .literal hall hend rfl⟩
    rw [hfirst, hw, hrest]
    simp [Lexer.advance]

/-- What a round passes. -/
theorem scan_piece (hcur : l.current ≠ 0) (h : scan fuel l line = .ok (l', line', ts)) :
    ∃ w, l.query.drop l.position = w ++ l'.query.drop l'.position ∧
      Piece line w (l'.query.drop l'.position) line' ts := by
  have hfirst := drop_eq_cons hcur
  cases scan_cases h with
  | skip _ hminus hquote =>
    obtain ⟨hout, rfl⟩ := scan_nothing h hminus hquote
    exact ⟨[l.current], hfirst, .blank hcur hquote hout⟩
  | single type hmem =>
    obtain ⟨hin, hne⟩ := singles_inToken _ hmem
    exact ⟨[l.current], hfirst, .token (by simpa using hin) (by simpa using hne.symm) rfl⟩
  | double type hmem =>
    obtain ⟨⟨hin, hne⟩, hin', hne', hnul⟩ := doubles_inToken _ hmem
    have hsecond := drop_eq_cons (l := l.advance) hnul
    refine ⟨[l.current, l.peek], ?_, .token ?_ ?_ rfl⟩
    · rw [hfirst]
      exact congrArg (l.current :: ·) hsecond
    · simpa using ⟨hin, hin'⟩
    · simpa using ⟨hne.symm, hne'.symm⟩
  | minus hc hp =>
    refine ⟨[ch '-'], ?_, .minus ?_ rfl⟩
    · rw [hfirst, hc]
      rfl
    · change (l.query.drop (l.position + 1)).getD 0 0 ≠ _
      rw [getD_drop]
      exact hp
  | comment m hc hp hm => exact piece_comment hc hp hm
  | literal m _ hquote hm => exact piece_literal hquote hm
  | word m word hword hm =>
    obtain ⟨w, hw, hall⟩ := (advanceWhile_eq_ok hm).1.split
    exact ⟨w, hw, .token (fun c hc => inToken_of_isWordChar (hall c hc))
      (ne_minus_of (by decide) hall) rfl⟩
  | number m num hdigit hm =>
    obtain ⟨w, hw, hall⟩ := (advanceNumber_eq_ok hm).split
    exact ⟨w, hw, .token (fun c hc => inToken_of_inNumber (hall c hc))
      (ne_minus_of (by decide) hall) rfl⟩

end Scan

/-! ### The whole query -/

/-- The pieces that make up the text from offset `k` on, up to where reading stops. -/
inductive Pieces : ℕ → Str → ℤ → List Span → Prop
  | stop {k : ℕ} {rest : Str} {line : ℤ} (hnul : rest.getD 0 0 = 0) :
      Pieces k rest line [⟨endToken line, k, k⟩]
  | piece {k : ℕ} {w rest : Str} {line line' : ℤ} {ts : List Token} {ss : List Span}
      (hpiece : Piece line w rest line' ts) (hrest : Pieces (k + w.length) rest line' ss) :
      Pieces k (w ++ rest) line (ts.map (⟨·, k, k + w.length⟩) ++ ss)

theorem pieces_of_spans {fuel rounds : ℕ} {l : Lexer} {line : ℤ} {ss : List Span}
    (h : spans fuel rounds l line = .ok ss) :
    Pieces l.offset (l.query.drop l.position) line ss := by
  induction rounds generalizing l line ss with
  | zero => cases h
  | succ rounds ih =>
    rw [spans] at h
    by_cases hcur : l.current = 0
    · rw [if_pos hcur] at h
      cases h
      exact .stop (by rw [← current_eq, hcur])
    · rw [if_neg hcur] at h
      obtain ⟨⟨l', line', ts⟩, hscan, h⟩ := bind_eq_ok.1 h
      obtain ⟨rest, hrest, h⟩ := bind_eq_ok.1 h
      cases h
      obtain ⟨w, hw, hpiece⟩ := scan_piece hcur hscan
      have hoffset := offset_eq (scan_eq_ok hcur hscan).query_eq (lt_of_current hcur).le hw
      have hpieces := ih hrest
      rw [hoffset] at hpieces ⊢
      rw [hw]
      exact .piece hpiece hpieces

/-! ### The marks of a piece -/

/-- The characters that a token is made of. -/
def Taken (e : UInt8 × Place) : Prop := e.2 = .literal ∨ e.2 = .code ∧ inToken e.1 = true

theorem marks_run {place : Place} {w : Str}
    (hstay : ∀ c ∈ w, ∀ s, marks place (c :: s) = (c, place) :: marks place s) (rest : Str) :
    marks place (w ++ rest) = w.map (·, place) ++ marks place rest := by
  induction w with
  | nil => rfl
  | cons c w ih =>
    rw [List.cons_append, hstay c List.mem_cons_self,
      ih fun b hb => hstay b (List.mem_cons_of_mem c hb)]
    rfl

theorem marks_code {c : UInt8} {rest : Str} (hnul : c ≠ 0)
    (hcomment : ¬(c = ch '-' ∧ rest.getD 0 0 = ch '-')) (hquote : c ≠ quote) :
    marks .code (c :: rest) = (c, .code) :: marks .code rest := by
  rw [marks, if_neg hnul, if_neg hcomment, if_neg hquote]

theorem marks_comment {c : UInt8} (h : (c != newline) = true) (rest : Str) :
    marks .comment (c :: rest) = (c, .comment) :: marks .comment rest := by
  rw [marks, if_neg (bne_iff_ne.1 h)]

theorem marks_literal {c : UInt8} (h : inLiteral c = true) (rest : Str) :
    marks .literal (c :: rest) = (c, .literal) :: marks .literal rest := by
  rw [marks, if_pos h]

theorem count_map_place {place : Place} (h : place ≠ .code) (w : Str) :
    (w.map (·, place)).count (newline, .code) = 0 := by
  rw [List.count_eq_zero]
  intro hmem
  obtain ⟨c, -, hc⟩ := List.mem_map.1 hmem
  exact h (Prod.mk.inj hc).2

/-- The characters of a piece have the same place.  They belong to a token exactly if the piece
has one, and newlines are counted in the code only. -/
theorem Piece.marks {line line' : ℤ} {w rest : Str} {ts : List Token}
    (h : Piece line w rest line' ts) :
    ∃ place, place ≠ .unread ∧
      Lexer.marks .code (w ++ rest) = w.map (·, place) ++ Lexer.marks .code rest ∧
      (∀ c ∈ w, Taken (c, place) ↔ ts ≠ []) ∧
      line' = line + ((w.map (·, place)).count (newline, .code) : ℕ) := by
  cases h with
  | @blank c _ hnul hquote hout =>
    refine ⟨.code, by decide, marks_code hnul ?_ hquote, fun b hb => ?_, ?_⟩
    · rintro ⟨rfl, -⟩
      exact absurd hout (by decide)
    · rw [List.mem_singleton.1 hb]
      simp [Taken, hout]
    · by_cases hline : c = newline <;> simp [hline]
  | @token _ _ t hin hminus =>
    have hne : ∀ {b}, inToken b = false → b ∉ w := by
      intro b hb hmem
      rw [hin b hmem] at hb
      cases hb
    refine ⟨.code, by decide, marks_run (fun c hc s => ?_) rest, fun c hc => ?_, ?_⟩
    · refine marks_code ?_ ?_ ?_
      · rintro rfl
        exact hne (by decide) hc
      · rintro ⟨rfl, -⟩
        exact hminus hc
      · rintro rfl
        exact hne (by decide) hc
    · simp [Taken, hin c hc]
    · have hnone : newline ∉ w := hne (by decide)
      simp [List.count_eq_zero, hnone]
  | minus hpeek =>
    refine ⟨.code, by decide, marks_code (by decide) (fun hc => hpeek hc.2) (by decide),
      fun c hc => ?_, ?_⟩
    · rw [List.mem_singleton.1 hc]
      simp [Taken, show inToken (ch '-') = true by decide]
    · simp [show ch '-' ≠ newline by decide]
  | @comment body _ hbody =>
    refine ⟨.comment, by decide, ?_, fun c _ => by simp [Taken], by simp [count_map_place]⟩
    have hfirst : Lexer.marks .code (ch '-' :: ch '-' :: body ++ [newline] ++ rest) =
        (ch '-', .comment) :: Lexer.marks .comment (ch '-' :: body ++ [newline] ++ rest) := rfl
    have hstay : ∀ c ∈ ch '-' :: body, (c != newline) = true :=
      List.forall_mem_cons.2 ⟨by decide, hbody⟩
    have hrun := marks_run (fun c hc s => marks_comment (hstay c hc) s) (newline :: rest)
    rw [hfirst, List.append_assoc, List.singleton_append, hrun]
    simp [Lexer.marks]
  | @literal body _ close t hbody hclose =>
    refine ⟨.literal, by decide, ?_, fun c _ => by simp [Taken], by simp [count_map_place]⟩
    have hfirst : Lexer.marks .code (quote :: body ++ [close] ++ rest) =
        (quote, .literal) :: Lexer.marks .literal (body ++ [close] ++ rest) := rfl
    rw [hfirst, List.append_assoc, List.singleton_append,
      marks_run (fun c hc s => marks_literal (hbody c hc) s)]
    simp [Lexer.marks, hclose]
  | @openLiteral body t hbody =>
    refine ⟨.literal, by decide, ?_, fun c _ => by simp [Taken], by simp [count_map_place]⟩
    have hfirst : Lexer.marks .code (quote :: body ++ []) =
        (quote, .literal) :: Lexer.marks .literal (body ++ []) := rfl
    rw [hfirst, marks_run (fun c hc s => marks_literal (hbody c hc) s)]
    simp

end Lexer

end MicroSql
