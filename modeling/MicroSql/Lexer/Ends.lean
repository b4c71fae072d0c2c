import Mathlib.Data.List.GetD
import MicroSql.Lexer.Lexer

/-!
# Where tokenizing ends

Every round of `tokenize` that returns moves the position forward, and never past the end by
more than one.  What may not return is a comment without a newline after it, at whose end the
loop runs on past the query, and a literal that starts so far to the right that its position
does not fit into an `int`.  `Closed` says of a text that it has neither.
-/

namespace MicroSql

open Lib

namespace Lexer

/-! ### The loops inside a round -/

/-- The loop over `p` that starts at `l` comes to `m`. -/
structure Passes (p : UInt8 → Bool) (l m : Lexer) : Prop where
  query_eq : m.query = l.query
  le : l.position ≤ m.position
  pass : ∀ k, l.position ≤ k → k < m.position → p (l.query.getD k 0) = true

theorem Passes.refl (p : UInt8 → Bool) (l : Lexer) : Passes p l l :=
  ⟨rfl, le_refl _, fun _ h1 h2 => absurd h2 (Nat.not_lt.2 h1)⟩

theorem Passes.advance {p : UInt8 → Bool} {l m : Lexer} (hp : p l.current = true)
    (h : Passes p l.advance m) : Passes p l m := by
  refine ⟨h.query_eq, Nat.le_of_succ_le h.le, fun k h1 h2 => ?_⟩
  rcases Nat.eq_or_lt_of_le h1 with rfl | h1
  · exact hp
  · exact h.pass k h1 h2

/-- A loop that does not pass NUL stays inside the query. -/
theorem Passes.le_length {p : UInt8 → Bool} (h0 : p 0 = false) {l m : Lexer} (h : Passes p l m)
    (hl : l.position ≤ l.query.length) : m.position ≤ l.query.length := by
  by_contra hlt
  have hpass := h.pass l.query.length hl (by omega)
  rw [List.getD_eq_default _ _ (le_refl _), h0] at hpass
  cases hpass

theorem advanceWhile_eq_ok {p : UInt8 → Bool} {fuel : ℕ} {l m : Lexer}
    (h : advanceWhile p fuel l = .ok m) : Passes p l m ∧ p m.current = false := by
  induction fuel generalizing l with
  | zero => cases h
  | succ fuel ih =>
    rw [advanceWhile] at h
    by_cases hp : p l.current = true
    · rw [if_pos hp] at h
      obtain ⟨hpass, hend⟩ := ih h
      exact ⟨hpass.advance hp, hend⟩
    · rw [if_neg hp] at h
      cases h
      exact ⟨Passes.refl p _, by simpa using hp⟩

/-- A loop ends where a character does not pass. -/
theorem advanceWhile_returns {p : UInt8 → Bool} {fuel n : ℕ} {l : Lexer}
    (h : p (l.query.getD (l.position + n) 0) = false) (hfuel : n < fuel) :
    ∃ m, advanceWhile p fuel l = .ok m := by
  induction fuel generalizing l n with
  | zero => exact absurd hfuel (Nat.not_lt_zero n)
  | succ fuel ih =>
    rw [advanceWhile]
    by_cases hp : p l.current = true
    · rw [if_pos hp]
      cases n with
      | zero =>
        have hcur : p l.current = false := h
        rw [hcur] at hp
        cases hp
      | succ n =>
        refine ih (n := n) ?_ (by omega)
        rw [show l.advance.position + n = l.position + (n + 1) by
          simp only [Lexer.advance]
          omega]
        exact h
    · exact ⟨l, if_neg hp⟩

/-- A loop that every character passes, the end included, never returns. -/
theorem advanceWhile_diverges {p : UInt8 → Bool} {l : Lexer}
    (h : ∀ k, l.position ≤ k → p (l.query.getD k 0) = true) (fuel : ℕ) :
    advanceWhile p fuel l = .error .outOfFuel := by
  induction fuel generalizing l with
  | zero => rfl
  | succ fuel ih =>
    have hcur : p l.current = true := h l.position (le_refl _)
    rw [advanceWhile, if_pos hcur]
    exact ih fun k hk => h k (Nat.le_of_succ_le hk)

/-- The characters of a number. -/
def inNumber (c : UInt8) : Bool := Catalog.isDigit c || c == ch '.'

theorem advanceNumber_eq_ok {fuel : ℕ} {hasDot : Bool} {l m : Lexer}
    (h : advanceNumber fuel hasDot l = .ok m) : Passes inNumber l m := by
  induction fuel generalizing l hasDot with
  | zero => cases h
  | succ fuel ih =>
    rw [advanceNumber] at h
    split at h
    · next hp =>
      refine (ih h).advance ?_
      rw [inNumber]
      rcases Bool.or_eq_true_iff.1 hp with hp | hp
      · rw [hp, Bool.true_or]
      · rw [(Bool.and_eq_true_iff.1 hp).2, Bool.or_true]
    · cases h
      exact Passes.refl _ _

theorem advanceNumber_returns {fuel n : ℕ} {hasDot : Bool} {l : Lexer}
    (h : inNumber (l.query.getD (l.position + n) 0) = false) (hfuel : n < fuel) :
    ∃ m, advanceNumber fuel hasDot l = .ok m := by
  induction fuel generalizing l n hasDot with
  | zero => exact absurd hfuel (Nat.not_lt_zero n)
  | succ fuel ih =>
    rw [advanceNumber]
    split
    · next hp =>
      cases n with
      | zero =>
        have hcur : inNumber l.current = false := h
        rw [inNumber, Bool.or_eq_false_iff] at hcur
        rw [hcur.1, hcur.2, Bool.and_false, Bool.or_false] at hp
        cases hp
      | succ n =>
        refine ih (n := n) ?_ (by omega)
        rw [show l.advance.position + n = l.position + (n + 1) by
          simp only [Lexer.advance]
          omega]
        exact h
    · exact ⟨l, rfl⟩

/-! ### Closed texts -/

/-- What a reader of the query is in the middle of. -/
inductive Mode
  | code
  | comment
  /-- a string literal, with what the lexer takes for the position after its quote -/
  | literal (start : ℕ)

/-- The rest of a query of length `n`, from position `k` on, has a newline after each comment,
and no terminated literal whose start lies outside the query.  Nothing is read past a NUL
outside comments. -/
def ClosedFrom (n : ℕ) : Mode → ℕ → Str → Prop
  | .code, _, [] => True
  | .comment, _, [] => False
  | .literal _, _, [] => True
  | .code, k, c :: rest =>
    if c = 0 then True
    else if c = ch '-' ∧ rest.getD 0 0 = ch '-' then ClosedFrom n .comment (k + 1) rest
    else if c = quote then ClosedFrom n (.literal (literalStart k)) (k + 1) rest
    else ClosedFrom n .code (k + 1) rest
  | .comment, k, c :: rest =>
    if c = newline then ClosedFrom n .code (k + 1) rest else ClosedFrom n .comment (k + 1) rest
  | .literal start, k, c :: rest =>
    if inLiteral c then ClosedFrom n (.literal start) (k + 1) rest
    else start ≤ n ∧ ClosedFrom n .code (k + 1) rest

instance decidableClosedFrom (n : ℕ) :
    (mode : Mode) → (k : ℕ) → (s : Str) → Decidable (ClosedFrom n mode k s)
  | .code, _, [] => isTrue trivial
  | .comment, _, [] => isFalse id
  | .literal _, _, [] => isTrue trivial
  | .code, k, c :: rest => by
    have := decidableClosedFrom n .comment (k + 1) rest
    have := decidableClosedFrom n (.literal (literalStart k)) (k + 1) rest
    have := decidableClosedFrom n .code (k + 1) rest
    unfold ClosedFrom
    infer_instance
  | .comment, k, c :: rest => by
    have := decidableClosedFrom n .code (k + 1) rest
    have := decidableClosedFrom n .comment (k + 1) rest
    unfold ClosedFrom
    infer_instance
  | .literal start, k, c :: rest => by
    have := decidableClosedFrom n (.literal start) (k + 1) rest
    have := decidableClosedFrom n .code (k + 1) rest
    unfold ClosedFrom
    infer_instance

/-- Each comment of the query is followed by a newline, and no terminated literal starts where
`int` has no number for it. -/
def Closed (query : Str) : Prop := ClosedFrom query.length .code 0 query

instance (query : Str) : Decidable (Closed query) :=
  inferInstanceAs (Decidable (ClosedFrom _ _ _ _))

/-- The same, from a position on. -/
def ClosedAt (query : Str) (mode : Mode) (k : ℕ) : Prop :=
  ClosedFrom query.length mode k (query.drop k)

section ClosedAt

variable {q : Str} {k : ℕ}

theorem getD_eq_of_lt (h : k < q.length) : q.getD k 0 = q[k] := List.getD_eq_getElem q 0 h

theorem lt_length_of_getD {c : UInt8} (hc : c ≠ 0) (h : q.getD k 0 = c) : k < q.length := by
  by_contra hlt
  rw [List.getD_eq_default _ _ (Nat.not_lt.1 hlt)] at h
  exact hc h.symm

theorem getD_drop (q : Str) (k j : ℕ) : (q.drop k).getD j 0 = q.getD (k + j) 0 := by
  rw [List.getD_eq_getElem?_getD, List.getD_eq_getElem?_getD, List.getElem?_drop]

theorem current_eq (l : Lexer) : l.current = (l.query.drop l.position).getD 0 0 := by
  rw [getD_drop]
  rfl

theorem closedAt_past (h : q.length ≤ k) : ClosedAt q .code k := by
  rw [ClosedAt, List.drop_of_length_le h]
  trivial

theorem closedAt_nul (h : q.getD k 0 = 0) : ClosedAt q .code k := by
  by_cases hk : k < q.length
  · rw [ClosedAt, List.drop_eq_getElem_cons hk, ClosedFrom, if_pos]
    · trivial
    · rw [← getD_eq_of_lt hk, h]
  · exact closedAt_past (Nat.not_lt.1 hk)

/-- One character of code. -/
theorem closedAt_code (h : q.getD k 0 ≠ 0) : ClosedAt q .code k ↔
    if q.getD k 0 = ch '-' ∧ q.getD (k + 1) 0 = ch '-' then ClosedAt q .comment (k + 1)
    else if q.getD k 0 = quote then ClosedAt q (.literal (literalStart k)) (k + 1)
    else ClosedAt q .code (k + 1) := by
  have hk := lt_length_of_getD h rfl
  have hnext : (q.drop (k + 1)).getD 0 0 = q.getD (k + 1) 0 := getD_drop q (k + 1) 0
  rw [getD_eq_of_lt hk] at h ⊢
  rw [ClosedAt, List.drop_eq_getElem_cons hk, ClosedFrom, if_neg h, hnext]
  rfl

theorem closedAt_comment (h : k < q.length) : ClosedAt q .comment k ↔
    if q.getD k 0 = newline then ClosedAt q .code (k + 1) else ClosedAt q .comment (k + 1) := by
  rw [getD_eq_of_lt h, ClosedAt, List.drop_eq_getElem_cons h, ClosedFrom]
  rfl

theorem closedAt_literal {start : ℕ} (h : k < q.length) : ClosedAt q (.literal start) k ↔
    if inLiteral (q.getD k 0) then ClosedAt q (.literal start) (k + 1)
    else start ≤ q.length ∧ ClosedAt q .code (k + 1) := by
  rw [getD_eq_of_lt h, ClosedAt, List.drop_eq_getElem_cons h, ClosedFrom]
  rfl

end ClosedAt

/-- Characters that begin neither a comment nor a literal. -/
def isPlain (c : UInt8) : Bool := c != 0 && c != ch '-' && c != quote

theorem closedAt_plain {q : Str} {k : ℕ} (h : isPlain (q.getD k 0) = true) :
    ClosedAt q .code k ↔ ClosedAt q .code (k + 1) := by
  simp only [isPlain, Bool.and_eq_true_iff, bne_iff_ne] at h
  rw [closedAt_code h.1.1, if_neg fun hc => h.1.2 hc.1, if_neg h.2]

/-- A run of plain characters. -/
theorem Passes.closedAt {p : UInt8 → Bool} (hplain : ∀ c, p c = true → isPlain c = true)
    {l m : Lexer} (h : Passes p l m) :
    ClosedAt l.query .code l.position ↔ ClosedAt l.query .code m.position := by
  obtain ⟨n, hn⟩ := Nat.exists_eq_add_of_le h.le
  have hpass := h.pass
  rw [hn] at hpass ⊢
  clear hn h
  induction n with
  | zero => exact Iff.rfl
  | succ n ih =>
    have hprev := ih fun k h1 h2 => hpass k h1 (by omega)
    exact hprev.trans (closedAt_plain (hplain _ (hpass _ (by omega) (by omega))))

/-- A run inside a comment. -/
theorem Passes.closedAt_comment {l m : Lexer} (h : Passes (· != newline) l m)
    (hm : m.position ≤ l.query.length) :
    ClosedAt l.query .comment l.position ↔ ClosedAt l.query .comment m.position := by
  obtain ⟨n, hn⟩ := Nat.exists_eq_add_of_le h.le
  have hpass := h.pass
  rw [hn] at hpass hm ⊢
  clear hn h
  induction n with
  | zero => exact Iff.rfl
  | succ n ih =>
    have hprev := ih (by omega) fun k h1 h2 => hpass k h1 (by omega)
    have hne : l.query.getD (l.position + n) 0 ≠ newline :=
      bne_iff_ne.1 (hpass _ (by omega) (by omega))
    refine hprev.trans ?_
    rw [Lexer.closedAt_comment (by omega), if_neg hne]
    rfl

/-- A run inside a literal. -/
theorem Passes.closedAt_literal {l m : Lexer} {start : ℕ} (h : Passes inLiteral l m)
    (hm : m.position ≤ l.query.length) :
    ClosedAt l.query (.literal start) l.position ↔
      ClosedAt l.query (.literal start) m.position := by
  obtain ⟨n, hn⟩ := Nat.exists_eq_add_of_le h.le
  have hpass := h.pass
  rw [hn] at hpass hm ⊢
  clear hn h
  induction n with
  | zero => exact Iff.rfl
  | succ n ih =>
    have hprev := ih (by omega) fun k h1 h2 => hpass k h1 (by omega)
    refine hprev.trans ?_
    rw [Lexer.closedAt_literal (by omega), if_pos (hpass _ (by omega) (by omega))]
    rfl

/-- Inside a comment that no newline follows. -/
theorem not_closedAt_comment {q : Str} {k : ℕ}
    (h : ∀ j, k ≤ j → (q.getD j 0 != newline) = true) : ¬ClosedAt q .comment k := by
  have hpass : Passes (· != newline) ⟨q, k⟩ ⟨q, max k q.length⟩ :=
    ⟨rfl, le_max_left _ _, fun j h1 _ => h j h1⟩
  rcases Nat.le_total k q.length with hk | hk
  · rw [hpass.closedAt_comment (max_le hk (le_refl _)), ClosedAt,
      List.drop_of_length_le (le_max_right _ _)]
    exact id
  · rw [ClosedAt, List.drop_of_length_le hk]
    exact id

/-! ### The characters ahead -/

theorem drop_eq_cons {l : Lexer} (hcur : l.current ≠ 0) :
    l.query.drop l.position = l.current :: l.query.drop (l.position + 1) := by
  have hlt : l.position < l.query.length := lt_length_of_getD hcur rfl
  rw [List.drop_eq_getElem_cons hlt, Lexer.current, getD_eq_of_lt hlt]

theorem current_of_drop {q s : Str} {k : ℕ} (h : q.drop k = s) :
    (⟨q, k⟩ : Lexer).current = s.getD 0 0 := by
  rw [current_eq, h]

theorem drop_tail {q s : Str} {c : UInt8} {k : ℕ} (h : q.drop k = c :: s) :
    q.drop (k + 1) = s := by
  rw [← List.drop_drop, h]
  rfl

/-- The lexer after `n` characters of the rest. -/
theorem drop_of_append {q w rest : Str} {k : ℕ} (h : q.drop k = w ++ rest) :
    q.drop (k + w.length) = rest := by
  rw [← List.drop_drop, h, List.drop_left]

/-- A loop over characters that pass, up to one that does not. -/
theorem advanceWhile_append {p : UInt8 → Bool} {q rest : Str} :
    ∀ {w : Str} {k : ℕ} (fuel : ℕ), q.drop k = w ++ rest → (∀ c ∈ w, p c = true) →
      p (rest.getD 0 0) = false →
      advanceWhile p fuel ⟨q, k⟩ =
        if w.length < fuel then .ok ⟨q, k + w.length⟩ else .error .outOfFuel
  | _, _, 0, _, _, _ => rfl
  | [], k, fuel + 1, hdrop, _, hend => by
    have hcur : (⟨q, k⟩ : Lexer).current = rest.getD 0 0 := current_of_drop hdrop
    rw [advanceWhile, hcur, hend, if_neg Bool.false_ne_true]
    exact (if_pos (Nat.succ_pos fuel)).symm
  | c :: w, k, fuel + 1, hdrop, hw, hend => by
    have hcur : (⟨q, k⟩ : Lexer).current = c := current_of_drop hdrop
    have hnext : q.drop (k + 1) = w ++ rest := drop_tail hdrop
    rw [advanceWhile, hcur, hw c List.mem_cons_self, if_pos rfl]
    refine (advanceWhile_append (k := k + 1) fuel hnext
      (fun b hb => hw b (List.mem_cons_of_mem c hb)) hend).trans ?_
    simp only [List.length_cons, Nat.add_lt_add_iff_right, Nat.add_assoc, Nat.add_comm 1]

/-! ### One round -/

/-- What a round that returns has done: it has moved forward, past the end by at most one, over
a text that is closed if the rest is, and has not reported the end. -/
structure Moves (l l' : Lexer) (tokens : List Token) : Prop where
  query_eq : l'.query = l.query
  lt : l.position < l'.position
  le : l'.position ≤ l.query.length + 1
  closed_iff : ClosedAt l.query .code l.position ↔ ClosedAt l.query .code l'.position
  tokens : ∀ t ∈ tokens, t.type ≠ .endOfFile

section Moves

variable {l l' : Lexer} {tokens : List Token}

theorem lt_of_current (h : l.current ≠ 0) : l.position < l.query.length :=
  lt_length_of_getD h rfl

/-- A round over one plain character. -/
theorem Moves.advance (h : isPlain l.current = true)
    (htokens : ∀ t ∈ tokens, t.type ≠ .endOfFile) : Moves l l.advance tokens := by
  have h0 : l.current ≠ 0 := by
    simp only [isPlain, Bool.and_eq_true_iff, bne_iff_ne] at h
    exact h.1.1
  have hlt := lt_of_current h0
  exact ⟨rfl, Nat.lt_succ_self _, by simp only [Lexer.advance]; omega, closedAt_plain h, htokens⟩

/-- A round over two plain characters. -/
theorem Moves.advance_advance (h : isPlain l.current = true) (h' : isPlain l.peek = true)
    (htokens : ∀ t ∈ tokens, t.type ≠ .endOfFile) : Moves l l.advance.advance tokens := by
  have h1 : Moves l l.advance tokens := Moves.advance h htokens
  have h2 : Moves l.advance l.advance.advance tokens := Moves.advance h' htokens
  exact ⟨rfl, h1.lt.trans h2.lt, h2.le, h1.closed_iff.trans h2.closed_iff, htokens⟩

/-- A round over a run of plain characters. -/
theorem Moves.of_passes {p : UInt8 → Bool} (hplain : ∀ c, p c = true → isPlain c = true)
    (h : Passes p l l') (hfirst : l.position < l'.position) (hle : l.position < l.query.length)
    (htokens : ∀ t ∈ tokens, t.type ≠ .endOfFile) : Moves l l' tokens := by
  have h0 : p 0 = false := by
    by_contra hp
    have := hplain 0 (by simpa using hp)
    cases this
  exact ⟨h.query_eq, hfirst, Nat.le_succ_of_le (h.le_length h0 hle.le), h.closedAt hplain, htokens⟩

/-- A round over a comment. -/
theorem Moves.comment {m : Lexer} (hcur : l.current = ch '-') (hpeek : l.peek = ch '-')
    (h : Passes (· != newline) l m) (hend : (m.current != newline) = false) :
    Moves l m.advance [] := by
  have hm : m.current = newline := by simpa using hend
  have hmlt : m.position < m.query.length := lt_of_current (by rw [hm]; decide)
  have hq := h.query_eq
  rw [hq] at hmlt
  have hne : l.position ≠ m.position := by
    intro heq
    have hsame : m.current = l.current := by rw [Lexer.current, Lexer.current, hq, heq]
    rw [hm, hcur] at hsame
    cases hsame
  have hlt : l.position < m.position := lt_of_le_of_ne h.le hne
  refine ⟨hq, ?_, ?_, ?_, by simp⟩
  · simp only [Lexer.advance]
    omega
  · simp only [Lexer.advance]
    omega
  · have hnul : l.query.getD l.position 0 ≠ 0 := by
      rw [show l.query.getD l.position 0 = ch '-' from hcur]
      decide
    have hrest : Passes (· != newline) l.advance m := ⟨hq, hlt, fun k h1 h2 =>
      h.pass k (Nat.le_of_succ_le h1) h2⟩
    rw [closedAt_code hnul, if_pos ⟨hcur, hpeek⟩]
    refine (hrest.closedAt_comment hmlt.le).trans ?_
    have hcode : l.query.getD m.position 0 = newline := by
      rw [← hq]
      exact hm
    rw [show l.advance.query = l.query from rfl, closedAt_comment hmlt, if_pos hcode]
    rfl

/-- The text of a literal, up to where its loop comes. -/
theorem Passes.closedAt_open {m : Lexer} (hcur : l.current = quote)
    (h : Passes inLiteral l.advance m) (hle : m.position ≤ l.query.length) :
    ClosedAt l.query .code l.position ↔
      ClosedAt l.query (.literal (literalStart l.position)) m.position := by
  have hquote : l.query.getD l.position 0 = quote := hcur
  have hnul : l.query.getD l.position 0 ≠ 0 := by
    rw [hquote]
    decide
  have hminus : ¬(l.query.getD l.position 0 = ch '-' ∧
      l.query.getD (l.position + 1) 0 = ch '-') := by
    rintro ⟨hc, -⟩
    rw [hquote] at hc
    cases hc
  rw [closedAt_code hnul, if_neg hminus, if_pos hquote]
  exact h.closedAt_literal hle

/-- A round over a literal. -/
theorem literal_eq_ok {fuel : ℕ} {line : ℤ} (hcur : l.current = quote)
    (h : literal fuel l line = .ok (l', tokens)) : Moves l l' tokens := by
  have hnul : l.current ≠ 0 := by
    rw [hcur]
    decide
  have hlt := lt_of_current hnul
  obtain ⟨m, hm, h⟩ := bind_eq_ok.1 h
  obtain ⟨hpass, hend⟩ := advanceWhile_eq_ok hm
  have hq : m.query = l.query := hpass.query_eq
  have hle : m.position ≤ l.query.length := hpass.le_length rfl hlt
  have hfrom : l.position < m.position := hpass.le
  have hopen := hpass.closedAt_open hcur hle
  by_cases hpos : m.position = m.query.length
  · -- the literal is not terminated
    rw [if_pos hpos] at h
    cases h
    refine ⟨hq, ?_, ?_, ?_, by simp⟩
    · simp only [Lexer.advance]
      omega
    · simp only [Lexer.advance]
      omega
    · rw [hq] at hpos
      refine hopen.trans (iff_of_true ?_ (closedAt_past ?_))
      · rw [ClosedAt, List.drop_of_length_le hpos.ge]
        trivial
      · simp only [Lexer.advance]
        omega
  · rw [if_neg hpos] at h
    obtain ⟨value, hvalue, h⟩ := bind_eq_ok.1 h
    cases h
    -- the round returns, so `substr` has not thrown
    have hstart : literalStart l.position ≤ l.query.length := by
      unfold substr at hvalue
      split at hvalue
      · next hi => rwa [hq] at hi
      · cases hvalue
    rw [hq] at hpos
    refine ⟨hq, ?_, ?_, ?_, by simp⟩
    · simp only [Lexer.advance]
      omega
    · simp only [Lexer.advance]
      omega
    · have hclosing : inLiteral (l.query.getD m.position 0) = false := by
        rw [← hq]
        exact hend
      refine hopen.trans ?_
      rw [Lexer.closedAt_literal (by omega), hclosing, if_neg Bool.false_ne_true]
      exact and_iff_right hstart

end Moves

theorem singles_plain {e : UInt8 × TokenType} (h : e ∈ singles) :
    isPlain e.1 = true ∧ e.2 ≠ .endOfFile := by
  revert e
  decide

theorem doubles_plain {e : UInt8 × UInt8 × TokenType} (h : e ∈ doubles) :
    isPlain e.1 = true ∧ isPlain e.2.1 = true ∧ e.2.2 ≠ .endOfFile := by
  revert e
  decide

theorem getTokenTypeAlpha_mem {word : Str} (h : getTokenTypeAlpha word ≠ .identifier) :
    (toUpper word, getTokenTypeAlpha word) ∈ keywordMap := by
  unfold getTokenTypeAlpha at *
  cases hlookup : keywordMap.lookup (toUpper word) with
  | none =>
    rw [hlookup] at h
    exact absurd rfl h
  | some type =>
    obtain ⟨l₁, l₂, hmap, -⟩ := List.lookup_eq_some_iff.1 hlookup
    rw [hmap]
    exact List.mem_append_right _ List.mem_cons_self

/-- Words are identifiers and keywords. -/
theorem getTokenTypeAlpha_ne {type : TokenType} (hne : type ≠ .identifier)
    (hnone : ∀ e ∈ keywordMap, e.2 ≠ type) (word : Str) : getTokenTypeAlpha word ≠ type := by
  rintro rfl
  exact hnone _ (getTokenTypeAlpha_mem hne) rfl

/-- The types that `getTokenTypeDigit` gives. -/
theorem getTokenTypeDigit_mem (word : Str) :
    getTokenTypeDigit word ∈ [TokenType.integerLiteral, .floatLiteral, .unknown] := by
  unfold getTokenTypeDigit
  split
  · decide
  · split <;> decide

theorem isWordChar_of_isWordStart {c : UInt8} (h : isWordStart c = true) :
    isWordChar c = true := by
  simp only [isWordStart, isWordChar, isAlnum, Bool.or_eq_true] at h ⊢
  exact h.imp_left .inl

theorem isSpace_of_isWordChar {b : UInt8} (h : isWordChar b = true) :
    Catalog.isSpace b = false := by
  have hunderscore : ch '_' = 95 := by decide
  simp only [isWordChar, isAlnum, isAlpha, Catalog.isDigit, hunderscore, Bool.or_eq_true,
    Bool.and_eq_true, decide_eq_true_eq, beq_iff_eq, UInt8.le_iff_toNat_le,
    ← UInt8.toNat_inj] at h
  simp only [Catalog.isSpace, Bool.or_eq_false_iff, beq_eq_false_iff_ne, ne_eq,
    Bool.and_eq_false_imp, decide_eq_true_eq, decide_eq_false_iff_not, UInt8.le_iff_toNat_le,
    ← UInt8.toNat_inj]
  simp only [UInt8.reduceToNat] at h ⊢
  omega

theorem isPlain_of {p : UInt8 → Bool} (h0 : p 0 = false) (hminus : p (ch '-') = false)
    (hquote : p quote = false) (c : UInt8) (h : p c = true) : isPlain c = true := by
  simp only [isPlain, Bool.and_eq_true_iff, bne_iff_ne]
  refine ⟨⟨?_, ?_⟩, ?_⟩
  · rintro rfl
    rw [h0] at h
    cases h
  · rintro rfl
    rw [hminus] at h
    cases h
  · rintro rfl
    rw [hquote] at h
    cases h

/-- A loop that passes the first character moves. -/
theorem advanceWhile_lt {p : UInt8 → Bool} {fuel : ℕ} {l m : Lexer} (hp : p l.current = true)
    (h : advanceWhile p fuel l = .ok m) : l.position < m.position := by
  obtain ⟨hpass, hend⟩ := advanceWhile_eq_ok h
  refine lt_of_le_of_ne hpass.le fun heq => ?_
  have hsame : m.current = l.current := by rw [current, current, hpass.query_eq, heq]
  rw [hsame, hp] at hend
  cases hend

theorem advanceNumber_lt {fuel : ℕ} {l m : Lexer} (hp : Catalog.isDigit l.current = true)
    (h : advanceNumber fuel false l = .ok m) : l.position < m.position := by
  cases fuel with
  | zero => cases h
  | succ fuel =>
    rw [advanceNumber, hp, Bool.true_or, if_pos rfl] at h
    exact (advanceNumber_eq_ok h).le

/-- **A round that returns** has moved forward. -/
theorem scan_eq_ok {fuel : ℕ} {l l' : Lexer} {line line' : ℤ} {tokens : List Token}
    (hcur : l.current ≠ 0) (h : scan fuel l line = .ok (l', line', tokens)) :
    Moves l l' tokens := by
  have hlt := lt_of_current hcur
  have hone : ∀ {type value}, type ≠ TokenType.endOfFile →
      ∀ t ∈ [(⟨type, value, line⟩ : Token)], t.type ≠ .endOfFile := by
    rintro type value hne t ht
    rw [List.mem_singleton.1 ht]
    exact hne
  cases scan_cases h with
  | skip _ hminus hquote =>
    refine Moves.advance ?_ (by simp)
    simp only [isPlain, Bool.and_eq_true_iff, bne_iff_ne]
    exact ⟨⟨hcur, hminus⟩, hquote⟩
  | single type hmem =>
    obtain ⟨hplain, htype⟩ := singles_plain hmem
    exact Moves.advance hplain (hone htype)
  | double type hmem =>
    obtain ⟨hplain, hplain', htype⟩ := doubles_plain hmem
    exact Moves.advance_advance hplain hplain' (hone htype)
  | minus hc hp =>
    have hminus : l.query.getD l.position 0 = ch '-' := hc
    have hnext : ¬l.query.getD (l.position + 1) 0 = ch '-' := hp
    have hnul : l.query.getD l.position 0 ≠ 0 := hcur
    refine ⟨rfl, Nat.lt_succ_self _, by simp only [Lexer.advance]; omega, ?_, hone (by decide)⟩
    rw [closedAt_code hnul, if_neg fun hboth => hnext hboth.2, if_neg]
    · rfl
    · rw [hminus]
      decide
  | comment m hc hp hm =>
    obtain ⟨hpass, hend⟩ := advanceWhile_eq_ok hm
    exact Moves.comment hc hp hpass hend
  | literal m ts hquote hm => exact literal_eq_ok hquote hm
  | word m word hword hm =>
    exact Moves.of_passes (isPlain_of rfl (by decide) (by decide)) (advanceWhile_eq_ok hm).1
      (advanceWhile_lt (isWordChar_of_isWordStart hword) hm) hlt
      (hone (getTokenTypeAlpha_ne (by decide) (by decide) _))
  | number m num hdigit hm =>
    refine Moves.of_passes (isPlain_of rfl (by decide) (by decide)) (advanceNumber_eq_ok hm)
      (advanceNumber_lt hdigit hm) hlt (hone fun htype => ?_)
    have hmem := getTokenTypeDigit_mem num
    rw [htype] at hmem
    exact absurd hmem (by decide)

/-- A round in a closed text returns. -/
theorem scan_returns {fuel : ℕ} {l : Lexer} (hcur : l.current ≠ 0)
    (hclosed : ClosedAt l.query .code l.position) (hfuel : l.query.length < fuel) (line : ℤ) :
    ∃ r, scan fuel l line = .ok r := by
  have hlt := lt_of_current hcur
  have hend : l.query.getD l.query.length 0 = 0 := List.getD_eq_default _ _ (le_refl _)
  -- loops that do not pass NUL end
  have hreturns : ∀ {p : UInt8 → Bool} (m : Lexer), m.query = l.query →
      m.position ≤ l.query.length → p 0 = false → ∃ m', advanceWhile p fuel m = .ok m' := by
    intro p m hq hm h0
    refine advanceWhile_returns (n := l.query.length - m.position) ?_ (by omega)
    rw [hq, Nat.add_sub_cancel' hm, hend, h0]
  obtain ⟨round, hround, hscan⟩ := scan_branch l.current l.peek
  rw [hscan l.at_self]
  cases hround with
  | blank => exact ⟨_, rfl⟩
  | line => exact ⟨_, rfl⟩
  | single => exact ⟨_, rfl⟩
  | double => exact ⟨_, rfl⟩
  | minus => exact ⟨_, rfl⟩
  | comment hc hp =>
    -- the text is closed, so there is a newline after the comment
    have hminus : l.query.getD l.position 0 = ch '-' ∧
        l.query.getD (l.position + 1) 0 = ch '-' := ⟨hc, hp⟩
    rw [closedAt_code hcur, if_pos hminus] at hclosed
    obtain ⟨k, hk, hnl⟩ : ∃ k, l.position + 1 ≤ k ∧ l.query.getD k 0 = newline := by
      by_contra hno
      refine not_closedAt_comment (fun j hj => ?_) hclosed
      by_contra hnl
      exact hno ⟨j, hj, by simpa using hnl⟩
    have hkl : k < l.query.length := lt_length_of_getD (by decide) hnl
    obtain ⟨m, hm⟩ : ∃ m, advanceWhile (· != newline) fuel l = .ok m := by
      refine advanceWhile_returns (n := k - l.position) ?_ (by omega)
      rw [Nat.add_sub_cancel' (by omega : l.position ≤ k), hnl]
      decide
    beta_reduce
    rw [hm]
    exact ⟨_, rfl⟩
  | literal hquote =>
    obtain ⟨m, hm⟩ : ∃ m, advanceWhile inLiteral fuel l.advance = .ok m :=
      hreturns l.advance rfl hlt rfl
    obtain ⟨hpass, hstop⟩ := advanceWhile_eq_ok hm
    have hq : m.query = l.query := hpass.query_eq
    have hle : m.position ≤ l.query.length := hpass.le_length rfl hlt
    beta_reduce
    rw [literal, hm, ok_bind, hq]
    by_cases hpos : m.position = l.query.length
    · rw [if_pos hpos]
      exact ⟨_, rfl⟩
    · -- a literal that is terminated starts inside the query
      have hclosing : inLiteral (l.query.getD m.position 0) = false := by
        rw [← hq]
        exact hstop
      rw [hpass.closedAt_open hquote hle, closedAt_literal (by omega), hclosing,
        if_neg Bool.false_ne_true] at hclosed
      rw [if_neg hpos, substr, if_pos hclosed.1]
      exact ⟨_, rfl⟩
  | word =>
    obtain ⟨m, hm⟩ : ∃ m, advanceWhile isWordChar fuel l = .ok m := hreturns l rfl hlt.le rfl
    beta_reduce
    rw [hm]
    exact ⟨_, rfl⟩
  | number =>
    obtain ⟨m, hm⟩ : ∃ m, advanceNumber fuel false l = .ok m := by
      refine advanceNumber_returns (n := l.query.length - l.position) ?_ (by omega)
      rw [Nat.add_sub_cancel' hlt.le, hend]
      rfl
    beta_reduce
    rw [hm]
    exact ⟨_, rfl⟩
  | other => exact ⟨_, rfl⟩

/-! ### The whole query -/

/-- The lexers that tokenizing a query comes to, with the line, before each round. -/
inductive Visits (query : Str) : Lexer → ℤ → Prop
  | start : Visits query ⟨query, 0⟩ 1
  | round {fuel : ℕ} {l l' : Lexer} {line line' : ℤ} {tokens : List Token}
      (h : Visits query l line) (hcur : l.current ≠ 0)
      (hscan : scan fuel l line = .ok (l', line', tokens)) : Visits query l' line'

theorem Visits.query_eq {query : Str} {l : Lexer} {line : ℤ} (h : Visits query l line) :
    l.query = query := by
  induction h with
  | start => rfl
  | round _ hcur hscan ih => rw [(scan_eq_ok hcur hscan).query_eq, ih]

/-- The loop inside the round that starts at `l`, if there is one: the characters that it
passes, and where it starts. -/
def innerLoop (l : Lexer) : Option ((UInt8 → Bool) × Lexer) :=
  if l.current = ch '-' ∧ l.peek = ch '-' then some ((· != newline), l)
  else if l.current = quote then some (inLiteral, l.advance)
  else if isWordStart l.current then some (isWordChar, l)
  else if Catalog.isDigit l.current then some (inNumber, l)
  else none

/-- What is asked of tokenizing: it ends, with the end of file as its last token and only
there, and each round and each loop inside a round moves forward, never further than one past
the end of the query. -/
structure Ends (query : Str) : Prop where
  returns : ∃ fuel tokens line, tokenize fuel ⟨query, 0⟩ = .ok (tokens ++ [endToken line]) ∧
    ∀ t ∈ tokens, t.type ≠ .endOfFile
  round : ∀ l line, Visits query l line → l.current ≠ 0 →
    ∃ fuel l' line' tokens, scan fuel l line = .ok (l', line', tokens) ∧
      l.position < l'.position ∧ l'.position ≤ query.length + 1
  inner : ∀ l line, Visits query l line → l.current ≠ 0 → ∀ p m, innerLoop l = some (p, m) →
    ∀ m', Passes p m m' → m'.position ≤ query.length + 1

/-- Rounds in a closed text come to the end. -/
theorem loop_returns {fuel rounds : ℕ} {l : Lexer} (hfuel : l.query.length < fuel)
    (hrounds : l.query.length + 2 ≤ l.position + rounds) (hle : l.position ≤ l.query.length + 1)
    (hclosed : ClosedAt l.query .code l.position) (line : ℤ) :
    ∃ tokens line', loop fuel rounds l line = .ok (tokens ++ [endToken line']) ∧
      ∀ t ∈ tokens, t.type ≠ .endOfFile := by
  induction rounds generalizing l line with
  | zero => omega
  | succ rounds ih =>
    rw [loop]
    by_cases hcur : l.current = 0
    · rw [if_pos hcur]
      exact ⟨[], line, rfl, by simp⟩
    · rw [if_neg hcur]
      -- each round moves, so the rounds that are left are enough for the rest
      obtain ⟨⟨l', line', tokens⟩, hscan⟩ := scan_returns hcur hclosed hfuel line
      have hmoves := scan_eq_ok hcur hscan
      have hq := hmoves.query_eq
      have hlt := hmoves.lt
      have hle' := hmoves.le
      obtain ⟨rest, line'', hrest, hall⟩ := ih (l := l') (by rw [hq]; exact hfuel)
        (by rw [hq]; omega) (by rw [hq]; exact hle')
        (by rw [hq]; exact hmoves.closed_iff.1 hclosed) line'
      rw [hscan, ok_bind]
      dsimp only
      rw [hrest]
      refine ⟨tokens ++ rest, line'', ?_, ?_⟩
      · rw [List.append_assoc]
        rfl
      · intro t ht
        rcases List.mem_append.1 ht with ht | ht
        · exact hmoves.tokens t ht
        · exact hall t ht

/-- A loop that returns has read a closed text. -/
theorem closedAt_of_loop {fuel rounds : ℕ} {l : Lexer} {line : ℤ} {tokens : List Token}
    (h : loop fuel rounds l line = .ok tokens) : ClosedAt l.query .code l.position := by
  induction rounds generalizing l line tokens with
  | zero => cases h
  | succ rounds ih =>
    rw [loop] at h
    by_cases hcur : l.current = 0
    · exact closedAt_nul hcur
    · rw [if_neg hcur] at h
      obtain ⟨⟨l', line', ts⟩, hscan, h⟩ := bind_eq_ok.1 h
      obtain ⟨rest, hrest, -⟩ := bind_eq_ok.1 h
      have hmoves := scan_eq_ok hcur hscan
      have hrest' := ih hrest
      rw [hmoves.query_eq] at hrest'
      exact hmoves.closed_iff.2 hrest'

/-- In a closed text every lexer that is visited is before a closed rest. -/
theorem Visits.closedAt {query : Str} (hclosed : Closed query) {l : Lexer} {line : ℤ}
    (h : Visits query l line) : ClosedAt query .code l.position := by
  induction h with
  | start => exact hclosed
  | round h hcur hscan ih =>
    have hmoves := scan_eq_ok hcur hscan
    have hiff := hmoves.closed_iff
    rw [h.query_eq] at hiff
    exact hiff.1 ih

/-- The loops inside the rounds of a closed text stay inside it. -/
theorem innerLoop_le {query : Str} (hclosed : Closed query) {l : Lexer} {line : ℤ}
    (h : Visits query l line) (hcur : l.current ≠ 0) {p : UInt8 → Bool} {m m' : Lexer}
    (hinner : innerLoop l = some (p, m)) (hpass : Passes p m m') :
    m'.position ≤ query.length + 1 := by
  have hq := h.query_eq
  have hlt := lt_of_current hcur
  unfold innerLoop at hinner
  split at hinner
  · next hminus =>
    cases hinner
    -- the newline that ends the comment is not passed
    have hat := h.closedAt hclosed
    have hboth : l.query.getD l.position 0 = ch '-' ∧
        l.query.getD (l.position + 1) 0 = ch '-' := hminus
    rw [← hq, closedAt_code hcur, if_pos hboth] at hat
    by_contra hfar
    refine not_closedAt_comment (fun k hk => ?_) hat
    by_cases hkm : k < m'.position
    · exact hpass.pass k (by omega) hkm
    · rw [List.getD_eq_default _ _ (by rw [hq]; omega)]
      rfl
  split at hinner
  · cases hinner
    have := hpass.le_length rfl hlt
    rw [show l.advance.query = query from hq] at this
    omega
  split at hinner
  · cases hinner
    have := hpass.le_length rfl hlt.le
    rw [hq] at this
    omega
  split at hinner
  · cases hinner
    have := hpass.le_length rfl hlt.le
    rw [hq] at this
    omega
  · cases hinner

/-- **Tokenizing a query ends** exactly if the query is closed. -/
theorem ends_iff_closed (query : Str) : Ends query ↔ Closed query := by
  constructor
  · rintro ⟨⟨fuel, tokens, line, h, -⟩, -, -⟩
    exact closedAt_of_loop h
  · intro hclosed
    refine ⟨?_, fun l line hvisit hcur => ?_, fun l line hvisit hcur p m hinner m' hpass => ?_⟩
    · have hall : ∃ tokens line', loop (query.length + 2) (query.length + 2) ⟨query, 0⟩ 1 =
          .ok (tokens ++ [endToken line']) ∧ ∀ t ∈ tokens, t.type ≠ .endOfFile := by
        refine loop_returns ?_ ?_ (Nat.zero_le _) ?_ 1
        · show query.length < query.length + 2
          omega
        · show query.length + 2 ≤ 0 + (query.length + 2)
          omega
        · exact hclosed
      exact ⟨_, hall⟩
    · have hat := hvisit.closedAt hclosed
      rw [← hvisit.query_eq] at hat ⊢
      obtain ⟨⟨l', line', tokens⟩, hscan⟩ := scan_returns hcur hat (Nat.lt_succ_self _) line
      have hmoves := scan_eq_ok hcur hscan
      exact ⟨_, l', line', tokens, hscan, hmoves.lt, hmoves.le⟩
    · exact innerLoop_le hclosed hvisit hcur hinner hpass

/-- The query of a comment that ends the line, as the prompt passes it on. -/
def commentedQuery : Str := str "SELECT a FROM t -- note;"

/-- The loop over the comment never comes to a newline. -/
theorem comment_never_ends : ¬Ends commentedQuery := by
  rintro ⟨⟨fuel, tokens, line, h, -⟩, -, -⟩
  have hclosed : Closed commentedQuery := closedAt_of_loop h
  have hopen : ¬Closed commentedQuery := by decide
  exact hopen hclosed

end Lexer

end MicroSql
