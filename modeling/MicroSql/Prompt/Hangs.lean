import MicroSql.Lexer.Ends
import MicroSql.Parser.CreateLoop
import MicroSql.Parser.Lengths
import MicroSql.Prompt.Prompt

/-!
# Queries at which the prompt hangs

The rounds of the lexer and of the parser are a device of the model.  Two more than the query has
characters are enough, unless no number is: the lexer does not come out of a comment, an INSERT has
a value that is stuck, or a CREATE TABLE has half a constraint.
-/

namespace MicroSql

open Lib

namespace Lexer

/-! ### The lexer -/

section

variable {fuel rounds : ℕ} {l l' : Lexer} {line line' : ℤ} {tokens : List Token} {e : Halt}

theorem advanceWhile_error {p : UInt8 → Bool} : ∀ {fuel : ℕ} {l : Lexer},
    advanceWhile p fuel l = .error e → e = .outOfFuel
  | 0, _, h => (Except.error.inj h).symm
  | fuel + 1, l, h => by
    rw [advanceWhile] at h
    split at h
    · exact advanceWhile_error h
    · cases h

theorem advanceNumber_error : ∀ {fuel : ℕ} {hasDot : Bool} {l : Lexer},
    advanceNumber fuel hasDot l = .error e → e = .outOfFuel
  | 0, _, _, h => (Except.error.inj h).symm
  | fuel + 1, hasDot, l, h => by
    rw [advanceNumber] at h
    split at h
    · exact advanceNumber_error h
    · cases h

/-- An `int` holds the start of every literal of a query that is not too long. -/
theorem literal_error (hcur : l.current ≠ 0) (hlength : l.query.length < 2 ^ 31)
    (h : literal fuel l line = .error e) : e = .outOfFuel := by
  have hlt := lt_of_current hcur
  rcases bind_eq_error.1 h with hloop | ⟨m, hloop, h⟩
  · exact advanceWhile_error hloop
  split at h
  · cases h
  have hstart : literalStart l.position ≤ m.query.length := by
    have hquery : m.query = l.query := (advanceWhile_eq_ok hloop).1.query_eq
    unfold literalStart
    rw [if_pos (by omega), hquery]
    omega
  rcases bind_eq_error.1 h with hvalue | ⟨value, -, h⟩
  · rw [substr, if_pos hstart] at hvalue
    cases hvalue
  · cases h

theorem scan_error (hcur : l.current ≠ 0) (hlength : l.query.length < 2 ^ 31)
    (h : scan fuel l line = .error e) : e = .outOfFuel := by
  obtain ⟨round, hround, hscan⟩ := scan_branch l.current l.peek
  rw [hscan l.at_self] at h
  -- the error of a round is that of its loop
  cases hround with
  | comment | word =>
    rcases bind_eq_error.1 h with hloop | ⟨m, -, h⟩
    · exact advanceWhile_error hloop
    · cases h
  | literal =>
    rcases bind_eq_error.1 h with hloop | ⟨m, -, h⟩
    · exact literal_error hcur hlength hloop
    · cases h
  | number =>
    rcases bind_eq_error.1 h with hloop | ⟨m, -, h⟩
    · exact advanceNumber_error hloop
    · cases h
  | _ => cases h

theorem loop_error (hlength : l.query.length < 2 ^ 31) (h : loop fuel rounds l line = .error e) :
    e = .outOfFuel := by
  induction rounds generalizing l line with
  | zero => exact (Except.error.inj h).symm
  | succ rounds ih =>
    rw [loop] at h
    by_cases hcur : l.current = 0
    · rw [if_pos hcur] at h
      cases h
    rw [if_neg hcur] at h
    rcases bind_eq_error.1 h with hscan | ⟨⟨l', line', ts⟩, hscan, h⟩
    · exact scan_error hcur hlength hscan
    rcases bind_eq_error.1 h with hrest | ⟨rest, -, h⟩
    · exact ih ((scan_eq_ok hcur hscan).query_eq ▸ hlength) hrest
    · cases h

/-- A round has one token at most. -/
theorem scan_length (h : scan fuel l line = .ok (l', line', tokens)) : tokens.length ≤ 1 := by
  cases scan_cases h with
  | literal _ _ _ hliteral =>
    obtain ⟨m, -, hliteral⟩ := bind_eq_ok.1 hliteral
    split at hliteral
    · cases hliteral
      exact le_rfl
    · obtain ⟨value, -, hliteral⟩ := bind_eq_ok.1 hliteral
      cases hliteral
      exact le_rfl
  | skip | comment => exact Nat.zero_le 1
  | _ => exact le_rfl

/-- There are no more tokens than characters, but for the last one. -/
theorem loop_length (h : loop fuel rounds l line = .ok tokens) :
    tokens.length ≤ l.query.length - l.position + 1 := by
  induction rounds generalizing l line tokens with
  | zero => cases h
  | succ rounds ih =>
    rw [loop] at h
    by_cases hcur : l.current = 0
    · rw [if_pos hcur] at h
      cases h
      exact Nat.le_add_left 1 _
    rw [if_neg hcur] at h
    obtain ⟨⟨l', line', ts⟩, hscan, h⟩ := bind_eq_ok.1 h
    obtain ⟨rest, hrest, h⟩ := bind_eq_ok.1 h
    cases h
    have hmoves := scan_eq_ok hcur hscan
    have hround := scan_length hscan
    have htail := ih hrest
    have hlt := lt_of_current hcur
    have hmoved := hmoves.lt
    rw [hmoves.query_eq] at htail
    rw [List.length_append]
    omega

/-! #### More rounds -/

theorem advanceWhile_mono {p : UInt8 → Bool} : ∀ {n m : ℕ} {l : Lexer}, n ≤ m →
    advanceWhile p n l = .ok l' → advanceWhile p m l = .ok l'
  | 0, _, _, _, h => by cases h
  | n + 1, m + 1, l, hle, h => by
    rw [advanceWhile] at h ⊢
    split at h
    · next hp => rw [if_pos hp, advanceWhile_mono (Nat.le_of_succ_le_succ hle) h]
    · next hp => rw [if_neg hp, h]

theorem advanceNumber_mono : ∀ {n m : ℕ} {hasDot : Bool} {l : Lexer}, n ≤ m →
    advanceNumber n hasDot l = .ok l' → advanceNumber m hasDot l = .ok l'
  | 0, _, _, _, _, h => by cases h
  | n + 1, m + 1, hasDot, l, hle, h => by
    rw [advanceNumber] at h ⊢
    split at h
    · next hp => rw [if_pos hp, advanceNumber_mono (Nat.le_of_succ_le_succ hle) h]
    · next hp => rw [if_neg hp, h]

theorem scan_mono {n m : ℕ} (hle : n ≤ m) (h : scan n l line = .ok (l', line', tokens)) :
    scan m l line = .ok (l', line', tokens) := by
  obtain ⟨round, hround, hscan⟩ := scan_branch l.current l.peek
  rw [hscan l.at_self] at h ⊢
  cases hround with
  | comment | word =>
    obtain ⟨k, hloop, h⟩ := bind_eq_ok.1 h
    exact bind_eq_ok.2 ⟨k, advanceWhile_mono hle hloop, h⟩
  | literal =>
    obtain ⟨⟨k, ts⟩, hliteral, h⟩ := bind_eq_ok.1 h
    obtain ⟨k', hloop, hliteral⟩ := bind_eq_ok.1 hliteral
    exact bind_eq_ok.2 ⟨_, bind_eq_ok.2 ⟨k', advanceWhile_mono hle hloop, hliteral⟩, h⟩
  | number =>
    obtain ⟨k, hloop, h⟩ := bind_eq_ok.1 h
    exact bind_eq_ok.2 ⟨k, advanceNumber_mono hle hloop, h⟩
  | _ => exact h

theorem loop_mono {n m : ℕ} (hle : n ≤ m) {k : ℕ} (hrounds : rounds ≤ k)
    (h : loop n rounds l line = .ok tokens) : loop m k l line = .ok tokens := by
  induction rounds generalizing k l line tokens with
  | zero => cases h
  | succ rounds ih =>
    obtain ⟨k, rfl⟩ := Nat.exists_eq_succ_of_ne_zero (by omega : k ≠ 0)
    rw [loop] at h ⊢
    by_cases hcur : l.current = 0
    · rw [if_pos hcur] at h ⊢
      exact h
    · rw [if_neg hcur] at h ⊢
      obtain ⟨r, hscan, h⟩ := bind_eq_ok.1 h
      obtain ⟨rest, hrest, h⟩ := bind_eq_ok.1 h
      exact bind_eq_ok.2 ⟨r, scan_mono hle hscan,
        bind_eq_ok.2 ⟨rest, ih (Nat.le_of_succ_le_succ hrounds) hrest, h⟩⟩

end

theorem tokenize_mono {n m : ℕ} (hle : n ≤ m) {l : Lexer} {tokens : List Token}
    (h : tokenize n l = .ok tokens) : tokenize m l = .ok tokens :=
  loop_mono hle hle h

/-- A closed query has its tokens after so many rounds, and one that is not closed never. -/
theorem tokenize_outOfFuel_iff {query : Str} (hlength : query.length < 2 ^ 31) {fuel : ℕ}
    (hfuel : query.length + 2 ≤ fuel) :
    tokenize fuel ⟨query, 0⟩ = .error .outOfFuel ↔ ¬Closed query := by
  constructor
  · intro h hclosed
    obtain ⟨tokens, line, hloop, -⟩ := @loop_returns fuel fuel ⟨query, 0⟩
      (show query.length < fuel by omega) (by simpa using hfuel) (Nat.zero_le _) hclosed 1
    rw [tokenize, hloop] at h
    cases h
  · intro hopen
    rcases hrun : tokenize fuel ⟨query, 0⟩ with e | tokens
    · rw [loop_error hlength hrun]
    · exact absurd (closedAt_of_loop hrun) hopen

end Lexer

/-! ### The parser -/

/-- The statement is one of the two at which the parser does not come to an end. -/
inductive Input.Hangs (inp : Input) : Prop
  /-- a value that begins no expression, is no comma and does not end the list -/
  | insert {p : ℕ} (hinsert : (inp.token 0).type = .insert) (hpass : inp.PassAt p)
      (hstuck : inp.Stuck p)
  /-- `PRIMARY` without `KEY`, or `NOT` without `NULL` -/
  | createTable {p : ℕ} (hcreate : (inp.token 0).type = .create)
      (htable : (inp.token 1).value = str "TABLE") (hat : inp.ConstraintAt p)
      (hhalf : inp.HalfConstraint p)

section

variable {inp : Input} {fuel : ℕ}

theorem parse_outOfFuel : parse fuel inp = .error .outOfFuel ↔
    (Parser.parseStatement inp fuel {}).1 = .error .outOfFuel :=
  map_eq_error

/-- A function that ends does not run out of rounds. -/
theorem Parser.Ends.ne_outOfFuel {α : Type} {c : Prog Parser Halt α}
    (h : Ends (· ≠ .outOfFuel) c) (s : Parser) : (c s).1 ≠ .error .outOfFuel := by
  intro hout
  rcases hrun : c s with ⟨e | a, s'⟩
  · rw [hrun] at hout
    exact (h s.position).error le_rfl hrun (Except.error.inj hout)
  · rw [hrun] at hout
    cases hout

namespace Parser

variable (heof : inp.EofLast) (hstof : ∀ text, inp.stof text ≠ .error .outOfFuel)
  (hfuel : inp.tokens.length ≤ fuel)
include heof hstof hfuel

theorem parseInsert_outOfFuel_iff : (parseInsert inp fuel {}).1 = .error .outOfFuel ↔
    ∃ p, inp.PassAt p ∧ inp.Stuck p := by
  constructor
  · intro hout
    by_contra hnone
    exact (parseInsert_ends heof hstof hfuel fun p hpass hstuck => hnone ⟨p, hpass, hstuck⟩).1 hout
  · rintro ⟨p, hpass, hstuck⟩
    exact parseInsert_spins heof hstof hfuel hpass fun s hs =>
      spins_of_stuck heof hstof hfuel hstuck hs

omit hstof in
theorem parseCreateTable_outOfFuel_iff {s : Parser} (hs : s.position = 1) :
    (parseCreateTable inp fuel s).1 = .error .outOfFuel ↔
      ∃ p, inp.ConstraintAt p ∧ inp.HalfConstraint p := by
  constructor
  · intro hout
    by_contra hnone
    exact parseCreateTable_ends heof (fun p hat hhalf => hnone ⟨p, hat, hhalf⟩) hfuel hs hout
  · rintro ⟨p, hat, hhalf⟩
    refine parseCreateTable_spins hat (fun s column hs => ?_) hs
    subst hs
    exact columnConstraints_spins hat hhalf column

/-- **The parser hangs** at these two statements and at no other one. -/
theorem parse_outOfFuel_iff : MicroSql.parse fuel inp = .error .outOfFuel ↔ inp.Hangs := by
  have hthrows : ∀ e, inp.Throws e → e ≠ .outOfFuel := fun e he =>
    ne_outOfFuel_of_throws hstof he
  rw [parse_outOfFuel, parseStatement, current_bind]
  have hother : ∀ {c : Prog Parser Halt Unit}, Ends (· ≠ .outOfFuel) c →
      (inp.token 0).type ≠ .insert → (inp.token 0).type ≠ .create →
      ((c {}).1 = .error .outOfFuel ↔ inp.Hangs) := by
    intro c hc hinsert hcreate
    refine ⟨fun hout => absurd hout (hc.ne_outOfFuel {}), fun hhangs => ?_⟩
    cases hhangs with
    | insert h => exact absurd h hinsert
    | createTable h => exact absurd h hcreate
  cases htype : (inp.token 0).type
  case insert =>
    refine (parseInsert_outOfFuel_iff heof hstof hfuel).trans ⟨?_, fun hhangs => ?_⟩
    · rintro ⟨p, hpass, hstuck⟩
      exact .insert htype hpass hstuck
    · cases hhangs with
      | insert _ hpass hstuck => exact ⟨_, hpass, hstuck⟩
      | createTable hcreate => exact absurd (htype.symm.trans hcreate) (by decide)
  case create =>
    have htable : ∀ {c : Prog Parser Halt Unit}, Ends (· ≠ .outOfFuel) c →
        (inp.token 1).value ≠ str "TABLE" → ∀ s, ((c s).1 = .error .outOfFuel ↔ inp.Hangs) := by
      intro c hc hvalue s
      refine ⟨fun hout => absurd hout (hc.ne_outOfFuel s), fun hhangs => ?_⟩
      cases hhangs with
      | insert hinsert => exact absurd (htype.symm.trans hinsert) (by decide)
      | createTable _ h => exact absurd h hvalue
    show (parseCreate inp fuel {}).1 = _ ↔ _
    rw [parseCreate, advance_bind, current_bind]
    by_cases hvalue : (inp.token 1).value = str "TABLE"
    · rw [if_pos hvalue]
      refine (parseCreateTable_outOfFuel_iff heof hfuel rfl).trans ⟨?_, fun hhangs => ?_⟩
      · rintro ⟨p, hat, hhalf⟩
        exact .createTable htype hvalue hat hhalf
      · cases hhangs with
        | insert hinsert => exact absurd (htype.symm.trans hinsert) (by decide)
        | createTable _ _ hat hhalf => exact ⟨_, hat, hhalf⟩
    · rw [if_neg hvalue]
      exact htable (.ite parseCreateIndex_ends (setError_ends _)) hvalue _
  case select =>
    exact hother (parseSelect_ends heof hthrows hfuel) (by rw [htype]; decide)
      (by rw [htype]; decide)
  case update =>
    exact hother (parseUpdate_ends heof hthrows hfuel) (by rw [htype]; decide)
      (by rw [htype]; decide)
  case delete =>
    exact hother (parseDelete_ends heof hthrows hfuel) (by rw [htype]; decide)
      (by rw [htype]; decide)
  case drop => exact hother parseDrop_ends (by rw [htype]; decide) (by rw [htype]; decide)
  all_goals exact hother (setError_ends _) (by rw [htype]; decide) (by rw [htype]; decide)

end Parser

end

/-! ### The prompt -/

namespace Prompt

/-- The prompt does not come back from the query. -/
inductive Hangs (stof : Str → Except Halt Double) (textLength : ℕ → Int32) (query : Str) : Prop
  /-- the lexer does not come to the end of the query -/
  | lexer (h : ¬Lexer.Closed query)
  | parser {inp : Input} {n : ℕ} (htokens : Lexer.tokenize n ⟨query, 0⟩ = .ok inp.tokens)
      (hstof : inp.stof = stof) (htextLength : inp.textLength = textLength) (h : inp.Hangs)

section

variable {stof : Str → Except Halt Double} {textLength : ℕ → Int32} {query : Str} {fuel : ℕ}

/-- What is read with some rounds is read so with more. -/
theorem parseQuery_mono (hlength : query.length < 2 ^ 31) {n m : ℕ} (hle : n ≤ m)
    (h : parseQuery n stof textLength query ≠ .error .outOfFuel) :
    parseQuery m stof textLength query = parseQuery n stof textLength query := by
  unfold parseQuery at h ⊢
  rcases hrun : Lexer.tokenize n ⟨query, 0⟩ with e | tokens
  · rw [hrun, Lexer.loop_error hlength hrun] at h
    exact absurd rfl h
  rw [hrun, ok_bind] at h
  rw [Lexer.tokenize_mono hle hrun, ok_bind, ok_bind]
  by_cases hne : tokens ≠ []
  · rw [dif_pos hne] at h ⊢
    rw [dif_pos hne]
    exact parse_mono hle h
  · rw [dif_neg hne, dif_neg hne]

theorem parseQuery_outOfFuel_iff (hlength : query.length < 2 ^ 31)
    (hstof : ∀ text, stof text ≠ .error .outOfFuel) (hfuel : query.length + 2 ≤ fuel) :
    parseQuery fuel stof textLength query = .error .outOfFuel ↔
      Hangs stof textLength query := by
  by_cases hclosed : Lexer.Closed query
  swap
  · have hout := (Lexer.tokenize_outOfFuel_iff hlength hfuel).2 hclosed
    refine ⟨fun _ => .lexer hclosed, fun _ => ?_⟩
    rw [parseQuery, hout]
    rfl
  have hlexer := mt (Lexer.tokenize_outOfFuel_iff hlength hfuel).1 (not_not.2 hclosed)
  rcases hrun : Lexer.tokenize fuel ⟨query, 0⟩ with e | tokens
  · rw [hrun, Lexer.loop_error hlength hrun] at hlexer
    exact absurd rfl hlexer
  obtain ⟨ts, line, htokens, -⟩ := Lexer.tokenize_rounds (fun _ => Lexer.scan_isDecimal) hrun
  have hne : tokens ≠ [] := by simp [htokens]
  have hcount : tokens.length ≤ fuel := (Lexer.loop_length hrun).trans (by simp; omega)
  have heof : (⟨tokens, hne, stof, textLength⟩ : Input).EofLast :=
    Input.Lexed.eofLast ⟨query, fuel, hrun⟩
  rw [parseQuery, hrun, ok_bind, dif_pos hne, Parser.parse_outOfFuel_iff heof hstof hcount]
  refine ⟨fun h => .parser hrun rfl rfl h, fun h => ?_⟩
  cases h with
  | lexer hopen => exact absurd hclosed hopen
  | @parser inp n htokens' hstof' htextLength h =>
    obtain ⟨tokens', hne', stof', textLength'⟩ := inp
    obtain rfl : stof' = stof := hstof'
    obtain rfl : textLength' = textLength := htextLength
    have hsame := (Lexer.tokenize_mono (Nat.le_max_left fuel n) hrun).symm.trans
      (Lexer.tokenize_mono (Nat.le_max_right fuel n) htokens')
    obtain rfl : tokens = tokens' := Except.ok.inj hsame
    exact h

end

/-- **Rounds are no limit of the program.**  With two more rounds than the query has characters,
the prompt runs out of them exactly if it hangs, and then no number of rounds is enough. -/
theorem parseQuery_hangs_iff {query : Str} (hlength : query.length < 2 ^ 31)
    {stof : Str → Except Halt Double} (hstof : ∀ text, stof text ≠ .error .outOfFuel)
    {textLength : ℕ → Int32} {fuel : ℕ} (hfuel : query.length + 2 ≤ fuel) :
    (parseQuery fuel stof textLength query = .error .outOfFuel ↔ Hangs stof textLength query) ∧
      (Hangs stof textLength query ↔
        ∀ n, parseQuery n stof textLength query = .error .outOfFuel) := by
  have hiff := @parseQuery_outOfFuel_iff stof textLength query fuel hlength hstof hfuel
  refine ⟨hiff, fun h n => ?_, fun h => hiff.1 (h fuel)⟩
  by_contra hn
  rcases Nat.le_total n fuel with hle | hle
  · rw [← parseQuery_mono hlength hle hn] at hn
    exact hn (hiff.2 h)
  · exact hn ((parseQuery_outOfFuel_iff hlength hstof (hfuel.trans hle)).2 h)

example : parseQuery 40 (fun _ => .ok ⟨0⟩) (fun _ => 255)
    (str "CREATE TABLE t (a INTEGER PRIMARY);") = .error .outOfFuel := by rfl

theorem parseQuery_hangs_iff_sample :
    (parseQuery 40 (fun _ => .ok ⟨0⟩) (fun _ => 255) (str "CREATE TABLE t (a INTEGER PRIMARY);") =
        .error .outOfFuel ↔
      Hangs (fun _ => .ok ⟨0⟩) (fun _ => 255) (str "CREATE TABLE t (a INTEGER PRIMARY);")) ∧
    (Hangs (fun _ => .ok ⟨0⟩) (fun _ => 255) (str "CREATE TABLE t (a INTEGER PRIMARY);") ↔
      ∀ n, parseQuery n (fun _ => .ok ⟨0⟩) (fun _ => 255)
        (str "CREATE TABLE t (a INTEGER PRIMARY);") = .error .outOfFuel) :=
  parseQuery_hangs_iff (by decide) (fun _ h => by cases h) (by decide)

end Prompt

end MicroSql
