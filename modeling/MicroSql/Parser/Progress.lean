import MicroSql.Parser.Obeys
import MicroSql.Parser.InsertValues
import MicroSql.Parser.Lexed

/-!
# SELECT, UPDATE and DELETE end

A loop that passes a token in each round ends, since there are only so many tokens: the measure
is the number of tokens from the position to the last one, and the position can only be past it
where the tokens read are all `END_OF_FILE`, at which every loop stops.
-/

namespace MicroSql

open Lib Prog

/-- A conversion of a literal is left by the exception. -/
def Input.Throws (inp : Input) (e : Halt) : Prop :=
  ∃ token ∈ inp.tokens, inp.literal token = some (.error e)

namespace Parser

/-! ### Functions that end -/

/-- The function returns without having gone back, or it is left by an exception in `E`. -/
def Ends {α : Type} (E : Halt → Prop) (c : Prog Parser Halt α) : Prop :=
  ∀ n, Spec (fun s => n ≤ s.position) c (fun _ s => n ≤ s.position) fun e _ => E e

variable {inp : Input} {E : Halt → Prop} {fuel : ℕ}

namespace Ends

variable {α β : Type} {c d : Prog Parser Halt α}

theorem pure (a : α) : Ends E (pure a) := fun _ => Spec.pure fun _ h => h

theorem fail {e : Halt} (he : E e) : Ends E (.fail e : Prog Parser Halt α) :=
  fun _ => Spec.fail fun _ _ => he

theorem bind {k : α → Prog Parser Halt β} (hc : Ends E c) (hk : ∀ a, Ends E (k a)) :
    Ends E (c >>= k) := fun n => Spec.bind (hc n) fun a => hk a n

theorem ite {p : Prop} [Decidable p] (hc : Ends E c) (hd : Ends E d) :
    Ends E (if p then c else d) := fun n => Spec.ite (fun _ => hc n) fun _ => hd n

theorem «when» {p : Prop} [Decidable p] {c : Prog Parser Halt Unit} (hc : Ends E c) :
    Ends E (when p c) := ite hc (pure ())

/-- The rest of a statement, after a check. -/
theorem guard {c : Prog Parser Halt Bool} {d : Prog Parser Halt Unit} (hc : Ends E c)
    (hd : Ends E d) : Ends E (do if ← c then d) := bind hc fun _ => ite hd (pure ())

/-- A function that returns in every state. -/
theorem of_apply (h : ∀ s, ∃ a s', c s = (.ok a, s') ∧ s.position ≤ s'.position) : Ends E c := by
  intro n s hs
  obtain ⟨a, s', heq, hle⟩ := h s
  rw [heq]
  exact le_trans hs hle

theorem returns (h : Ends E c) (hE : ∀ e, ¬E e) (s : Parser) :
    ∃ a s', c s = (.ok a, s') ∧ s.position ≤ s'.position := by
  rcases hrun : c s with ⟨e | a, s'⟩
  · exact absurd ((h s.position).error le_rfl hrun) (hE e)
  · exact ⟨a, s', rfl, (h s.position).ok le_rfl hrun⟩

end Ends

/-! ### The small functions -/

theorem current_ends : Ends E (current inp) := .of_apply fun s => ⟨_, s, rfl, le_rfl⟩

theorem currentIs_ends (type : TokenType) : Ends E (currentIs inp type) :=
  .of_apply fun s => ⟨_, s, rfl, le_rfl⟩

theorem advance_ends : Ends E advance := .of_apply fun _ => ⟨_, _, rfl, Nat.le_succ _⟩

theorem setError_ends (text : Str) : Ends E (setError text) :=
  .of_apply fun _ => ⟨_, _, rfl, le_rfl⟩

theorem setErrorIfEmpty_ends (text : Str) : Ends E (setErrorIfEmpty text) :=
  .of_apply fun s => ⟨_, _, setErrorIfEmpty_apply s text, by split <;> exact le_rfl⟩

theorem setStatement_ends (f : Statement → Statement) : Ends E (setStatement f) :=
  .of_apply fun _ => ⟨_, _, rfl, le_rfl⟩

theorem consume_ends (type : TokenType) (name : Str) : Ends E (consume inp type name) :=
  .bind current_ends fun _ => .ite (.bind advance_ends fun _ => .pure _)
    (.bind (setError_ends _) fun _ => .pure _)

theorem consumeIdentifier_ends (context : Str) : Ends E (consumeIdentifier inp context) :=
  .bind current_ends fun _ => .ite (.bind advance_ends fun _ => .pure _)
    (.bind (setError_ends _) fun _ => .pure _)

theorem skipComma_ends : Ends E (skipComma inp) :=
  .bind (currentIs_ends _) fun _ => .when advance_ends

theorem parseTableName_ends (context : Str) : Ends E (parseTableName inp context) := by
  refine .bind (consumeIdentifier_ends _) fun name => ?_
  cases name with
  | none => exact .pure _
  | some name => exact .bind (setStatement_ends _) fun _ => .pure _

/-- The semicolon of a statement. -/
theorem semicolon_ends : Ends E (do let _ ← consume inp .semicolon (str ";")) :=
  .bind (consume_ends _ _) fun _ => .pure _

/-! ### Expressions -/

section Expressions

variable (heof : inp.EofLast) (hthrows : ∀ e, inp.Throws e → E e)
  (hfuel : inp.tokens.length ≤ fuel)
include heof hthrows hfuel

/-- A call for an expression ends, and passes a token if it finds one. -/
theorem parseExpression_moves (n : ℕ) : Spec (fun s => n ≤ s.position) (parseExpression inp fuel)
    (fun i s => n ≤ s.position ∧ (i ≠ -1 → n < s.position)) fun e _ => E e := by
  refine Spec.intro (fun s i s' hs h => ?_) fun s e s' hs h => ?_
  all_goals
    have hattempt := parseExpression_attempt heof hfuel h
  · refine ⟨le_trans hs hattempt.le, fun hi => ?_⟩
    rw [ending_ok hi] at hattempt
    exact lt_of_le_of_lt hs hattempt.lt
  · exact hthrows e hattempt.thrown_of

theorem parseExpression_ends : Ends E (parseExpression inp fuel) := fun n =>
  (parseExpression_moves heof hthrows hfuel n).conseq (fun _ h => h) (fun _ _ h => h.1)
    fun _ _ h => h

theorem requireExpression_ends (context : Str) : Ends E (requireExpression inp fuel context) :=
  .bind (parseExpression_ends heof hthrows hfuel) fun _ => .bind current_ends fun _ =>
    .bind (.when (setErrorIfEmpty_ends _)) fun _ => .pure _

theorem parseWhere_ends : Ends E (parseWhere inp fuel) :=
  .bind (currentIs_ends _) fun _ => .ite
    (.bind advance_ends fun _ => .bind (requireExpression_ends heof hthrows hfuel _) fun _ =>
      .ite (.pure _) (.bind (setStatement_ends _) fun _ => .pure _))
    (.bind (setStatement_ends _) fun _ => .pure _)

/-! ### SELECT -/

/-- Each round of the list passes an expression. -/
theorem selectList_ends (rounds : ℕ) : ∀ n, inp.last - n < rounds →
    Spec (fun s => n ≤ s.position) (selectList inp fuel rounds) (fun _ s => n ≤ s.position)
      fun e _ => E e := by
  induction rounds with
  | zero => exact fun _ h => absurd h (Nat.not_lt_zero _)
  | succ rounds ih =>
    intro n hrounds s hs
    rw [selectList, current_bind]
    by_cases hends : selectEnds (inp.token s.position).type = true
    · rw [if_pos hends]
      exact hs
    have hgoes : selectEnds (inp.token s.position).type = false := by simpa using hends
    rw [if_neg hends]
    have hlt := heof.lt_last_of_goes hgoes rfl
    refine Spec.bind (parseExpression_moves heof hthrows hfuel n)
      (fun i => Spec.ite (fun _ => ?_) fun hi => ?_) s hs
    · refine Spec.conseq ?_ (fun _ h => h.1) (fun _ _ h => h) fun _ _ h => h
      exact Ends.bind current_ends (fun _ => .bind (setErrorIfEmpty_ends _) fun _ => .pure _) n
    · refine Spec.conseq ?_ (fun _ h => Nat.succ_le_of_lt (h.2 hi))
        (fun _ _ h => Nat.le_of_succ_le h) fun _ _ h => h
      exact Spec.bind (setStatement_ends _ (n + 1)) fun _ =>
        Spec.bind (skipComma_ends (n + 1)) fun _ => ih (n + 1) (by omega)

theorem selectColumns_ends : Ends E (selectColumns inp fuel) := by
  have hlist : Ends E (selectList inp fuel fuel) := fun n =>
    selectList_ends heof hthrows hfuel fuel n (Input.last_sub_lt hfuel n)
  exact .bind (currentIs_ends _) fun _ => .ite
    (.bind advance_ends fun _ => .bind current_ends fun _ => .ite (.pure _)
      (.bind (setError_ends _) fun _ => .pure _)) hlist

theorem parseSelect_ends : Ends E (parseSelect inp fuel) :=
  .bind advance_ends fun _ => .bind (setStatement_ends _) fun _ =>
    .guard (selectColumns_ends heof hthrows hfuel) <| .guard (currentIs_ends _) <|
      .bind advance_ends fun _ => .guard (parseTableName_ends _) <|
        .bind (parseWhere_ends heof hthrows hfuel) fun _ => .pure _

/-! ### UPDATE and DELETE -/

theorem parseAssignment_ends : Ends E (parseAssignment inp fuel) := by
  refine .bind (consumeIdentifier_ends _) fun name => ?_
  cases name with
  | none => exact .pure _
  | some colName =>
    exact .bind (consume_ends _ _) fun _ => .ite
      (.bind (requireExpression_ends heof hthrows hfuel _) fun _ => .ite (.pure _)
        (.bind (setStatement_ends _) fun _ => .pure _)) (.pure _)

/-- Each round of the list passes a comma. -/
theorem assignments_ends (rounds : ℕ) : ∀ n, inp.last - n < rounds →
    Spec (fun s => n ≤ s.position) (assignments inp fuel rounds) (fun _ s => n ≤ s.position)
      fun e _ => E e := by
  induction rounds with
  | zero => exact fun _ h => absurd h (Nat.not_lt_zero _)
  | succ rounds ih =>
    intro n hrounds s hs
    rw [assignments, currentIs_bind]
    by_cases hcomma : (inp.token s.position).type = .comma
    swap
    · rw [if_neg (by simpa using hcomma)]
      exact hs
    rw [if_pos (by simpa using hcomma), advance_bind]
    have hlt : s.position < inp.last := heof.lt_last (by simp [hcomma])
    have hrest : Spec (fun s => n + 1 ≤ s.position) (do
          if ← parseAssignment inp fuel then assignments inp fuel rounds else return false)
        (fun _ s => n + 1 ≤ s.position) fun e _ => E e :=
      Spec.bind (parseAssignment_ends heof hthrows hfuel (n + 1)) fun _ =>
        Spec.ite (fun _ => ih (n + 1) (by omega)) fun _ => Spec.pure fun _ h => h
    exact hrest.conseq (fun _ h => h) (fun _ _ h => Nat.le_of_succ_le h) (fun _ _ h => h) _
      (Nat.succ_le_succ hs)

theorem parseUpdate_ends : Ends E (parseUpdate inp fuel) := by
  have hlist : Ends E (assignments inp fuel fuel) := fun n =>
    assignments_ends heof hthrows hfuel fuel n (Input.last_sub_lt hfuel n)
  exact .bind advance_ends fun _ => .bind (setStatement_ends _) fun _ =>
    .guard (parseTableName_ends _) <| .guard (consume_ends _ _) <|
      .guard (parseAssignment_ends heof hthrows hfuel) <| .guard hlist <|
        .guard (parseWhere_ends heof hthrows hfuel) semicolon_ends

theorem parseDelete_ends : Ends E (parseDelete inp fuel) :=
  .bind advance_ends fun _ => .bind (setStatement_ends _) fun _ => .guard (consume_ends _ _) <|
    .guard (parseTableName_ends _) <| .guard (parseWhere_ends heof hthrows hfuel) semicolon_ends

end Expressions

end Parser

/-- **The expression parser and the parsers of SELECT, UPDATE and DELETE end**, and an expression
that is found has moved the position, not past the last token. -/
theorem parsers_end {inp : Input} (hlexed : inp.Lexed) (hfloats : inp.FloatsConvert) {fuel : ℕ}
    (hfuel : inp.tokens.length ≤ fuel) (s : Parser) :
    (s.position ≤ inp.last → ∃ i s', Parser.parseExpression inp fuel s = (.ok i, s') ∧
      s'.position ≤ inp.last ∧ (i ≠ -1 → s.position < s'.position)) ∧
    (∃ s', Parser.parseSelect inp fuel s = (.ok (), s')) ∧
    (∃ s', Parser.parseUpdate inp fuel s = (.ok (), s')) ∧
    ∃ s', Parser.parseDelete inp fuel s = (.ok (), s') := by
  have heof := hlexed.eofLast
  have hnever : ∀ e, ¬inp.Throws e := fun e ⟨token, hmem, h⟩ =>
    hlexed.converts hfloats token hmem e h
  have hends : ∀ {c : Prog Parser Halt Unit}, Parser.Ends inp.Throws c →
      ∃ s', c s = (.ok (), s') := fun hc =>
    let ⟨_, s', h, _⟩ := hc.returns hnever s
    ⟨s', h⟩
  refine ⟨fun hpos => ?_, hends (Parser.parseSelect_ends heof (fun _ h => h) hfuel),
    hends (Parser.parseUpdate_ends heof (fun _ h => h) hfuel),
    hends (Parser.parseDelete_ends heof (fun _ h => h) hfuel)⟩
  obtain ⟨i, s', h, -⟩ :=
    (Parser.parseExpression_ends heof (fun _ h => h) hfuel).returns hnever s
  have hattempt := Parser.parseExpression_attempt heof hfuel h
  refine ⟨i, s', h, ?_, fun hi => ?_⟩
  · have := hattempt.le_last heof
    omega
  · rw [Parser.ending_ok hi] at hattempt
    exact hattempt.lt

/-- The tokens of `DELETE FROM t WHERE a<1;`. -/
def deleteInput : Input where
  tokens := [⟨.delete, str "DELETE", 1⟩, ⟨.from, str "FROM", 1⟩, ⟨.identifier, str "t", 1⟩,
    ⟨.where, str "WHERE", 1⟩, ⟨.identifier, str "a", 1⟩, ⟨.lessThan, str "<", 1⟩,
    ⟨.integerLiteral, str "1", 1⟩, ⟨.semicolon, str ";", 1⟩, ⟨.endOfFile, [], 1⟩]
  nonempty := by simp
  stof _ := .ok ⟨0⟩
  textLength _ := 0

theorem parsers_end_sample :
    ∃ s', Parser.parseDelete deleteInput 9 {} = (.ok (), s') :=
  (parsers_end ⟨str "DELETE FROM t WHERE a<1;", 25, by rfl⟩ (fun _ _ _ => ⟨_, rfl⟩)
    (by decide) {}).2.2.2

end MicroSql
