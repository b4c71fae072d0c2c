import MicroSql.Lexer.Pieces

/-!
# Where the tokens stand

The stretches that are passed for the tokens of a query are disjoint and in order.  They have
every character that is not white space and not in a comment exactly if the code of the query
has no character that the lexer knows nothing about: it passes such a character without a word.

The line of a token is one plus the newlines before it exactly if no newline ends a comment or
stands in a literal: those are passed without being counted.
-/

namespace MicroSql

open Lib

namespace Lexer

section Pieces

variable {k : ℕ} {s : Str} {line : ℤ} {ss : List Span}

theorem Piece.tokens {line' : ℤ} {w rest : Str} {ts : List Token}
    (h : Piece line w rest line' ts) : ts = [] ∨ ∃ t, ts = [t] ∧ t.line = line := by
  cases h with
  | blank => exact .inl rfl
  | token _ _ hline => exact .inr ⟨_, rfl, hline⟩
  | minus _ hline => exact .inr ⟨_, rfl, hline⟩
  | comment => exact .inl rfl
  | literal _ _ hline => exact .inr ⟨_, rfl, hline⟩
  | openLiteral _ hline => exact .inr ⟨_, rfl, hline⟩

/-! ### Stretches -/

theorem Pieces.le (h : Pieces k s line ss) : ∀ x ∈ ss, k ≤ x.start := by
  induction h with
  | stop =>
    intro x hx
    rw [List.mem_singleton.1 hx]
  | piece _ _ ih =>
    intro x hx
    rcases List.mem_append.1 hx with hx | hx
    · obtain ⟨t, -, rfl⟩ := List.mem_map.1 hx
      exact le_refl _
    · exact (Nat.le_add_right _ _).trans (ih x hx)

/-- Each stretch ends before the next one begins. -/
theorem Pieces.ordered (h : Pieces k s line ss) : ss.Pairwise (·.stop ≤ ·.start) := by
  induction h with
  | stop => exact List.pairwise_singleton _ _
  | piece hpiece hrest ih =>
    rcases hpiece.tokens with rfl | ⟨t, rfl, -⟩
    · exact ih
    · exact List.Pairwise.cons hrest.le ih

/-- The characters of the stretches are those that tokens are made of. -/
theorem Pieces.taken (h : Pieces k s line ss) (j : ℕ) :
    (∃ x ∈ ss, x.start ≤ k + j ∧ k + j < x.stop) ↔
      ∃ e, (marks .code s)[j]? = some e ∧ Taken e := by
  induction h generalizing j with
  | @stop k rest line hnul =>
    refine iff_of_false ?_ ?_
    · rintro ⟨x, hx, hle, hlt⟩
      rw [List.mem_singleton.1 hx] at hle hlt
      exact absurd (hlt.trans_le hle) (lt_irrefl _)
    · rintro ⟨e, he, htaken⟩
      have hunread := marks_nul hnul e (List.mem_of_getElem? he)
      rw [Taken, hunread] at htaken
      simp at htaken
  | @piece k w rest line line' ts ss hpiece hrest ih =>
    obtain ⟨place, -, hmarks, htaken, -⟩ := hpiece.marks
    rw [hmarks]
    by_cases hj : j < w.length
    · -- inside the piece: its token, if it has one, is the only one there
      rw [List.getElem?_append_left (by simpa using hj), List.getElem?_map,
        List.getElem?_eq_getElem hj]
      constructor
      · rintro ⟨x, hx, hle, -⟩
        refine ⟨_, rfl, (htaken _ (List.getElem_mem hj)).2 ?_⟩
        rintro rfl
        have := hrest.le x (by simpa using hx)
        omega
      · rintro ⟨e, he, he'⟩
        cases he
        obtain ⟨t, ht⟩ := List.exists_mem_of_ne_nil _ ((htaken _ (List.getElem_mem hj)).1 he')
        exact ⟨_, List.mem_append_left _ (List.mem_map_of_mem ht), Nat.le_add_right k j,
          Nat.add_lt_add_left hj k⟩
    · -- behind the piece
      obtain ⟨i, rfl⟩ := Nat.exists_eq_add_of_le (Nat.not_lt.1 hj)
      have hi := ih i
      rw [List.getElem?_append_right (by simp)]
      rw [List.length_map, Nat.add_sub_cancel_left, ← hi, ← Nat.add_assoc]
      constructor
      · rintro ⟨x, hx, hle, hlt⟩
        rcases List.mem_append.1 hx with hx | hx
        · obtain ⟨t, -, rfl⟩ := List.mem_map.1 hx
          dsimp only at hlt
          omega
        · exact ⟨x, hx, hle, hlt⟩
      · rintro ⟨x, hx, hle, hlt⟩
        exact ⟨x, List.mem_append_right _ hx, hle, hlt⟩

/-! ### Lines -/

/-- The line of a token counts the newlines in the code before it, all of which is read. -/
theorem Pieces.lines (h : Pieces k s line ss) : ∀ x ∈ ss, ∃ n, x.start = k + n ∧
    (∀ e ∈ (marks .code s).take n, e.2 ≠ .unread) ∧
    x.token.line = line + (((marks .code s).take n).count (newline, .code) : ℕ) := by
  induction h with
  | stop =>
    intro x hx
    rw [List.mem_singleton.1 hx]
    exact ⟨0, rfl, by simp, by simp [endToken]⟩
  | @piece k w rest line line' ts ss hpiece hrest ih =>
    intro x hx
    rcases List.mem_append.1 hx with hx | hx
    · obtain ⟨t, ht, rfl⟩ := List.mem_map.1 hx
      refine ⟨0, rfl, by simp, ?_⟩
      rcases hpiece.tokens with rfl | ⟨u, rfl, hline⟩
      · cases ht
      · rw [List.mem_singleton.1 ht, hline]
        simp
    · obtain ⟨n, hstart, hread, hline⟩ := ih x hx
      obtain ⟨place, hplace, hmarks, -, hline'⟩ := hpiece.marks
      have hlength : (w.map (·, place)).length = w.length := List.length_map _
      refine ⟨w.length + n, by rw [hstart, Nat.add_assoc], fun e he => ?_, ?_⟩
      · rw [hmarks, ← hlength, List.take_length_add_append] at he
        rcases List.mem_append.1 he with he | he
        · obtain ⟨c, -, rfl⟩ := List.mem_map.1 he
          exact hplace
        · exact hread e he
      · rw [hline, hline', hmarks, ← hlength, List.take_length_add_append, List.count_append]
        push_cast
        rw [add_assoc]

/-- The last stretch is where reading stops. -/
theorem Pieces.last (h : Pieces k s line ss) : ∃ n line', ⟨endToken line', k + n, k + n⟩ ∈ ss ∧
    ∀ e ∈ (marks .code s).drop n, e.2 = .unread := by
  induction h with
  | @stop k rest line hnul => exact ⟨0, line, List.mem_singleton_self _, marks_nul hnul⟩
  | @piece k w rest line line' ts ss hpiece hrest ih =>
    obtain ⟨n, line'', hmem, hunread⟩ := ih
    obtain ⟨place, -, hmarks, -⟩ := hpiece.marks
    refine ⟨w.length + n, line'', ?_, ?_⟩
    · rw [← Nat.add_assoc]
      exact List.mem_append_right _ hmem
    · have hlength : (w.map (·, place)).length = w.length := List.length_map _
      rwa [hmarks, ← hlength, List.drop_length_add_append]

end Pieces

theorem pieces_of_query {query : Str} {fuel : ℕ} {ss : List Span}
    (h : spans fuel fuel { query } 1 = .ok ss) : Pieces 0 query 1 ss := by
  have hpieces := pieces_of_spans h
  rwa [show Lexer.offset { query } = 0 from Nat.zero_min _, List.drop_zero] at hpieces

/-! ### Nothing is dropped -/

/-- Printable ASCII characters, blanks, tabs and newlines. -/
def isPrintable (c : UInt8) : Bool := (32 ≤ c && c ≤ 126) || c == 9 || c == newline

/-- Blanks, tabs and newlines. -/
def isWhitespace (c : UInt8) : Bool := c == ch ' ' || c == 9 || c == newline

/-- Every character but white space and comments is in a stretch, and the stretches are
disjoint and in order. -/
structure Covers (query : Str) (ss : List Span) : Prop where
  covered : ∀ (k : ℕ) (e : UInt8 × Place), (marks .code query)[k]? = some e →
    isWhitespace e.1 = false → e.2 ≠ .comment → ∃ x ∈ ss, x.start ≤ k ∧ k < x.stop
  ordered : ss.Pairwise (·.stop ≤ ·.start)

/-- The tokens of the query, with what was passed for each. -/
def DropsNothing (fuel : ℕ) (query : Str) (tokens : List Token) : Prop :=
  ∃ ss, spans fuel fuel { query } 1 = .ok ss ∧ ss.map (·.token) = tokens ∧ Covers query ss

/-- Outside comments and literals there are only white space and characters of tokens. -/
def Known (query : Str) : Prop :=
  ∀ e ∈ marks .code query, e.2 = .code → isWhitespace e.1 = true ∨ inToken e.1 = true

instance (query : Str) : Decidable (Known query) :=
  inferInstanceAs (Decidable (∀ e ∈ marks .code query, _))

/-- A text without NUL is read to its end. -/
theorem marks_read {place : Place} {s : Str} (hplace : place ≠ .unread) (h : (0 : UInt8) ∉ s) :
    ∀ e ∈ marks place s, e.2 ≠ .unread := by
  induction s generalizing place with
  | nil => simp
  | cons c rest ih =>
    have hrest : (0 : UInt8) ∉ rest := fun hmem => h (List.mem_cons_of_mem c hmem)
    have hnul : c ≠ 0 := fun hc => h (hc ▸ List.mem_cons_self)
    intro e he
    have hcons : ∀ {here next : Place}, here ≠ .unread → next ≠ .unread →
        e ∈ (c, here) :: marks next rest → e.2 ≠ .unread := by
      intro here next hhere hnext he
      rcases List.mem_cons.1 he with rfl | he
      · exact hhere
      · exact ih hnext hrest e he
    cases place with
    | code =>
      rw [marks, if_neg hnul] at he
      split at he
      · exact hcons (by decide) (by decide) he
      split at he
      · exact hcons (by decide) (by decide) he
      · exact hcons (by decide) (by decide) he
    | comment => exact hcons (by decide) (by split <;> decide) he
    | literal => exact hcons (by decide) (by split <;> decide) he
    | unread => exact absurd rfl hplace

section Covers

variable {query : Str} {ss : List Span}

theorem known_of_covers (h : Pieces 0 query 1 ss) (hcovers : Covers query ss) : Known query := by
  intro e he hcode
  by_contra hno
  rw [not_or, Bool.not_eq_true] at hno
  obtain ⟨k, hk⟩ := List.getElem?_of_mem he
  have hstretch := hcovers.covered k e hk hno.1 (by rw [hcode]; decide)
  rw [← Nat.zero_add k] at hstretch
  obtain ⟨e', he', htaken⟩ := (h.taken k).1 hstretch
  rw [hk] at he'
  cases he'
  rcases htaken with hliteral | ⟨-, hin⟩
  · rw [hcode] at hliteral
    cases hliteral
  · exact hno.2 hin

theorem covers_of_known (h : Pieces 0 query 1 ss) (hnul : (0 : UInt8) ∉ query)
    (hknown : Known query) : Covers query ss := by
  refine ⟨fun k e hk hblank hcomment => ?_, h.ordered⟩
  have htaken := (h.taken k).2
  rw [Nat.zero_add] at htaken
  refine htaken ⟨e, hk, ?_⟩
  have hmem := List.mem_of_getElem? hk
  have hread := marks_read (by decide) hnul e hmem
  have hcode := hknown e hmem
  obtain ⟨c, place⟩ := e
  cases place with
  | code =>
    rcases hcode rfl with hspace | hin
    · rw [hblank] at hspace
      cases hspace
    · exact .inr ⟨rfl, hin⟩
  | comment => exact absurd rfl hcomment
  | literal => exact .inl rfl
  | unread => exact absurd rfl hread

end Covers

/-- **The lexer drops nothing** exactly if every character of the code is known to it. -/
theorem dropsNothing_iff {query : Str} (hprint : ∀ c ∈ query, isPrintable c = true) {fuel : ℕ}
    {tokens : List Token} (h : tokenize fuel { query } = .ok tokens) :
    DropsNothing fuel query tokens ↔ Known query := by
  obtain ⟨ss, hss, hmap⟩ := spans_of_loop h
  have hpieces := pieces_of_query hss
  constructor
  · rintro ⟨ss', hss', -, hcovers⟩
    rw [hss] at hss'
    cases hss'
    exact known_of_covers hpieces hcovers
  · intro hknown
    have hnul : (0 : UInt8) ∉ query := fun hmem => absurd (hprint 0 hmem) (by decide)
    exact ⟨ss, hss, hmap, covers_of_known hpieces hnul hknown⟩

/-- A comment may have any characters. -/
theorem dropsNothing_iff_comment :
    DropsNothing 20 (str "a--#\nb") [⟨.identifier, str "a", 1⟩, ⟨.identifier, str "b", 1⟩,
      endToken 1] ↔ Known (str "a--#\nb") :=
  dropsNothing_iff (List.all_eq_true.1 (by decide)) (by rfl)

/-- A number sign in the middle of a query leaves no trace. -/
theorem numberSign_dropped :
    (∀ c ∈ str "SELECT a# FROM t;", isPrintable c = true) ∧
    ∃ tokens, tokenize 20 { query := str "SELECT a# FROM t;" } = .ok tokens ∧
      tokens.map (·.value) = [str "SELECT", str "a", str "FROM", str "t", str ";", []] ∧
      ¬DropsNothing 20 (str "SELECT a# FROM t;") tokens := by
  refine ⟨List.all_eq_true.1 (by decide), _, rfl, rfl, ?_⟩
  rintro ⟨ss, hss, -, hcovers⟩
  have hknown : ¬Known (str "SELECT a# FROM t;") := by decide
  exact hknown (known_of_covers (pieces_of_query hss) hcovers)

/-! ### Lines are counted -/

/-- The line of a token is one plus the newlines before it, as an `int`. -/
def LineRight (query : Str) (x : Span) : Prop :=
  x.token.line = 1 + ((query.take x.start).count newline : ℕ) ∧ x.token.line < 2 ^ 31

/-- The tokens of the query, with their lines. -/
def LinesRight (fuel : ℕ) (query : Str) (tokens : List Token) : Prop :=
  ∃ ss, spans fuel fuel { query } 1 = .ok ss ∧ ss.map (·.token) = tokens ∧
    ∀ x ∈ ss, LineRight query x

/-- No newline ends a comment or stands in a literal, and `int` has room for the others. -/
structure Counted (query : Str) : Prop where
  code : ∀ e ∈ marks .code query, e.1 = newline → e.2 = .code ∨ e.2 = .unread
  fits : 1 + (marks .code query).count (newline, .code) < 2 ^ 31

/-- Newlines with their places. -/
theorem count_places (es : List (UInt8 × Place)) :
    es.count (newline, .code) ≤ (es.map Prod.fst).count newline ∧
      (es.count (newline, .code) = (es.map Prod.fst).count newline ↔
        ∀ e ∈ es, e.1 = newline → e.2 = .code) := by
  induction es with
  | nil => simp
  | cons e es ih =>
    obtain ⟨c, place⟩ := e
    obtain ⟨hle, hiff⟩ := ih
    rw [List.map_cons, List.count_cons, List.count_cons, List.forall_mem_cons, ← hiff]
    by_cases hc : c = newline
    · by_cases hplace : place = .code
      · simpa [hc, hplace] using hle
      · -- a newline that is not counted
        simp only [hc, hplace, Prod.mk.injEq, beq_iff_eq, if_false, if_true, and_false, imp_false,
          false_and, not_true_eq_false, iff_false]
        omega
    · simpa [hc] using hle

section Lines

variable {query : Str} {ss : List Span}

/-- What the lexer counts before a stretch. -/
theorem Pieces.counts (h : Pieces 0 query 1 ss) {x : Span} (hx : x ∈ ss) :
    (∀ e ∈ (marks .code query).take x.start, e.2 ≠ .unread) ∧
      x.token.line = 1 + (((marks .code query).take x.start).count (newline, .code) : ℕ) := by
  obtain ⟨n, hstart, hread, hline⟩ := h.lines x hx
  rw [Nat.zero_add] at hstart
  rw [hstart]
  exact ⟨hread, hline⟩

/-- The newlines before a stretch. -/
theorem take_eq (query : Str) (n : ℕ) :
    query.take n = ((marks .code query).take n).map Prod.fst := by
  rw [List.map_take, map_fst_marks]

theorem counted_of_lineRight (h : Pieces 0 query 1 ss) (hright : ∀ x ∈ ss, LineRight query x) :
    Counted query := by
  obtain ⟨n, line, hmem, hunread⟩ := h.last
  rw [Nat.zero_add] at hmem
  obtain ⟨hline, hfits⟩ := hright _ hmem
  have hcounts := (h.counts hmem).2
  dsimp only at hline hfits hcounts
  rw [hcounts] at hline hfits
  rw [take_eq] at hline
  have hsplit := List.take_append_drop n (marks .code query)
  have hcode := (count_places ((marks .code query).take n)).2.1 (by omega)
  have hnone : ((marks .code query).drop n).count (newline, .code) = 0 := by
    rw [List.count_eq_zero]
    intro hin
    exact absurd (hunread _ hin) (by decide)
  constructor
  · intro e he hnewline
    rw [← hsplit] at he
    rcases List.mem_append.1 he with he | he
    · exact .inl (hcode e he hnewline)
    · exact .inr (hunread e he)
  · rw [← hsplit, List.count_append, hnone]
    omega

theorem lineRight_of_counted (h : Pieces 0 query 1 ss) (hcounted : Counted query) :
    ∀ x ∈ ss, LineRight query x := by
  intro x hx
  obtain ⟨hread, hline⟩ := h.counts hx
  have hcode : ∀ e ∈ (marks .code query).take x.start, e.1 = newline → e.2 = .code :=
    fun e he hnewline => (hcounted.code e (List.mem_of_mem_take he) hnewline).resolve_right
      (hread e he)
  have hle : ((marks .code query).take x.start).count (newline, .code) ≤
      (marks .code query).count (newline, .code) := (List.take_sublist _ _).count_le _
  have hfits := hcounted.fits
  constructor
  · rw [hline, take_eq, (count_places _).2.2 hcode]
  · rw [hline]
    omega

end Lines

/-- **The lines are right** exactly if every newline that is read is counted. -/
theorem linesRight_iff {query : Str} {fuel : ℕ} {tokens : List Token}
    (h : tokenize fuel { query } = .ok tokens) : LinesRight fuel query tokens ↔ Counted query := by
  obtain ⟨ss, hss, hmap⟩ := spans_of_loop h
  have hpieces := pieces_of_query hss
  constructor
  · rintro ⟨ss', hss', -, hright⟩
    rw [hss] at hss'
    cases hss'
    exact counted_of_lineRight hpieces hright
  · intro hcounted
    exact ⟨ss, hss, hmap, lineRight_of_counted hpieces hcounted⟩

theorem linesRight_iff_two :
    LinesRight 20 (str "a\nb") [⟨.identifier, str "a", 1⟩, ⟨.identifier, str "b", 2⟩,
      endToken 2] ↔ Counted (str "a\nb") :=
  linesRight_iff (by rfl)

/-- What comes after a comment is one line too far up. -/
theorem comment_not_counted :
    ∃ tokens, tokenize 20 { query := str "-- a\nb" } = .ok tokens ∧
      tokens = [⟨.identifier, str "b", 1⟩, endToken 1] ∧
      ¬LinesRight 20 (str "-- a\nb") tokens := by
  refine ⟨_, rfl, rfl, ?_⟩
  rintro ⟨ss, hss, -, hright⟩
  have hcode := (counted_of_lineRight (pieces_of_query hss) hright).code (newline, .comment)
    (by decide) rfl
  exact absurd hcode (by decide)

end Lexer

end MicroSql
