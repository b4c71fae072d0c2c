import MicroSql.Parser.Attempts
import MicroSql.Parser.Complete

/-!
# The parser obeys the rules

A call with more rounds than there are tokens left goes the way that the rules of `Attempt` say,
so whatever holds of every attempt holds of every call: it moves when it finds an expression, it
does not go past the last token, and it is left only by the exception of a conversion.
-/

namespace MicroSql

open Lib Prog

namespace Parser

/-- How a call has ended. -/
def ending : Except Halt ℤ → Ending
  | .ok i => if i = -1 then .missing else .found
  | .error e => .thrown e

variable (inp : Input)

/-- The call goes the way that the rules say. -/
def Obeys (stage : Stage) (lvl : Level) (c : Prog Parser Halt ℤ) (s : Parser) : Prop :=
  inp.Attempt stage lvl s.position (ending (c s).1) (c s).2.position

variable {inp} {stage : Stage} {lvl lvl' : Level} {c : Prog Parser Halt ℤ} {s s' : Parser} {i : ℤ}

theorem ending_ok (h : i ≠ -1) : ending (.ok i) = .found := if_neg h

theorem ending_ok_ne_thrown (i : ℤ) (e : Halt) : ending (.ok i) ≠ .thrown e := by
  unfold ending
  dsimp only
  split <;> simp

theorem Obeys.of_eq {x : Except Halt ℤ} {o : Ending} (h : c s = (x, s')) (hx : ending x = o)
    (hattempt : inp.Attempt stage lvl s.position o s'.position) : Obeys inp stage lvl c s := by
  unfold Obeys
  rw [h, hx]
  exact hattempt

/-- A call and what is done with the index that it returns. -/
theorem Obeys.bind (h : Obeys inp .operand lvl c s) (k : ℤ → Prog Parser Halt ℤ) :
    (∃ i s', i ≠ -1 ∧ inp.Attempt .operand lvl s.position .found s'.position ∧
      (do let i ← c; if i = -1 then return -1 else k i) s = k i s') ∨
    ∃ x s', ending x ≠ .found ∧ inp.Attempt .operand lvl s.position (ending x) s'.position ∧
      (do let i ← c; if i = -1 then return -1 else k i) s = (x, s') := by
  unfold Obeys at h
  rcases hc : c s with ⟨e | i, s'⟩ <;> rw [hc] at h
  · exact .inr ⟨_, s', by simp [ending], h, bind_error hc _⟩
  by_cases hi : i = -1
  · subst hi
    exact .inr ⟨_, s', by simp [ending], h, bind_ok hc _⟩
  · rw [ending_ok hi] at h
    refine .inl ⟨i, s', hi, h, ?_⟩
    rw [bind_ok hc, if_neg hi]

theorem ending_length (xs : List Expression) : ending (.ok xs.length) = .found :=
  ending_ok (by omega)

theorem parsePrefix_obeys {op : UnaryOperator} {operand : Prog Parser Halt ℤ}
    (htype : lvl.prefixOf = some (inp.token s.position).type)
    (h : Obeys inp .operand lvl.next operand { s with position := s.position + 1 }) :
    Obeys inp .operand lvl (parsePrefix op operand) s := by
  rcases h.bind fun i => push (.unary op i) with ⟨i, s', hi, hattempt, heq⟩ |
    ⟨x, s', -, hattempt, heq⟩
  · exact .of_eq (heq.trans (push_apply s' _)) (ending_length _) (.unary htype hattempt)
  · exact .of_eq heq rfl (.unary htype hattempt)

/-! ### Primary expressions -/

theorem parseLiteral_apply (expr : Expression) (s : Parser) :
    parseLiteral expr s = (.ok s.result.expressions.length, { s with
      position := s.position + 1
      result := { s.result with expressions := s.result.expressions ++ [expr] } }) := rfl

theorem parsePrimary_literal {rec : Prog Parser Halt ℤ} {x : Except Halt Expression}
    (h : inp.literal (inp.token s.position) = some x) :
    parsePrimary inp rec s = (Prog.lift x >>= parseLiteral) s := by
  unfold parsePrimary
  rw [current_bind]
  unfold Input.literal at h
  cases htype : (inp.token s.position).type <;> rw [htype] at h <;> cases h <;> try rfl
  · rcases stoi (inp.token s.position).value with e | n <;> rfl
  · rcases inp.stof (inp.token s.position).value with e | n <;> rfl

theorem parseParen_obeys {rec : Prog Parser Halt ℤ}
    (hopen : (inp.token s.position).type = .leftParen)
    (h : Obeys inp .operand .or rec { s with position := s.position + 1 }) :
    Obeys inp .operand .primary (parseParen inp rec) s := by
  rcases h.bind fun i => do
      let token ← current inp
      if token.type = .rightParen then do
        advance
        return i
      else do
        setError (syntaxError token.line ++ str "expected ')'" ++ butFound token)
        return -1 with ⟨i, s', hi, hattempt, heq⟩ | ⟨x, s', hx, hattempt, heq⟩
  · rw [current_bind] at heq
    by_cases hclose : (inp.token s'.position).type = .rightParen
    · rw [if_pos hclose] at heq
      exact .of_eq heq (ending_ok hi) (.paren hopen hattempt hclose)
    · rw [if_neg hclose] at heq
      exact .of_eq heq rfl (.unclosed hopen hattempt hclose)
  · exact .of_eq heq rfl (.noInside hopen hattempt hx)

theorem parseColumn_obeys (htype : (inp.token s.position).type = .identifier) :
    Obeys inp .operand .primary (parseColumn inp) s := by
  unfold Obeys parseColumn
  simp only [current_bind, peek_bind]
  by_cases hdot : (inp.token (s.position + 1)).type = .dot
  swap
  · rw [if_neg hdot, parseLiteral_apply, ending_length]
    exact .column htype hdot
  rw [if_pos hdot]
  simp only [advance_bind, peek_bind]
  by_cases hcolumn : (inp.token (s.position + 1 + 1)).type = .identifier
  · rw [if_pos hcolumn, advance_bind, parseLiteral_apply, ending_length]
    exact .qualified htype hdot hcolumn
  · rw [if_neg hcolumn]
    exact .noColumn htype hdot hcolumn

theorem parsePrimary_obeys {rec : Prog Parser Halt ℤ}
    (hrec : (inp.token s.position).type = .leftParen →
      Obeys inp .operand .or rec { s with position := s.position + 1 }) :
    Obeys inp .operand .primary (parsePrimary inp rec) s := by
  rcases hlit : inp.literal (inp.token s.position) with _ | x
  · by_cases hcolumn : (inp.token s.position).type = .identifier
    · have heq : parsePrimary inp rec s = parseColumn inp s := by
        unfold parsePrimary
        rw [current_bind, hcolumn]
      unfold Obeys
      rw [heq]
      exact parseColumn_obeys hcolumn
    by_cases hopen : (inp.token s.position).type = .leftParen
    · have heq : parsePrimary inp rec s = parseParen inp rec s := by
        unfold parsePrimary
        rw [current_bind, hopen]
      unfold Obeys
      rw [heq]
      exact parseParen_obeys hopen (hrec hopen)
    have heq : parsePrimary inp rec s = (.ok (-1), s) := by
      unfold parsePrimary
      rw [current_bind]
      unfold Input.literal at hlit
      cases htype : (inp.token s.position).type <;> rw [htype] at hlit hcolumn hopen <;>
        first | rfl | exact absurd rfl hcolumn | exact absurd rfl hopen | cases hlit
    exact .of_eq heq rfl (.nothing hlit hcolumn hopen)
  · have heq := @parsePrimary_literal inp s rec x hlit
    rcases x with e | expr
    · exact .of_eq heq rfl (.thrown hlit)
    · exact .of_eq (heq.trans (parseLiteral_apply expr s)) (ending_length _) (.literal hlit)

/-! ### The loops -/

/-- A round at an operator is a call for the right operand. -/
theorem roundAt_operator {rec : Prog Parser Halt ℤ} {fuel q : ℕ} {op : BinaryOperator}
    (hop : inp.Operator lvl s.position q op)
    (his : op = .is → (inp.token (s.position + 1)).type ≠ .not) :
    ∃ s', roundAt inp rec fuel lvl s =
        ((parserAt inp rec fuel lvl.next { s with position := q }).1.map
          fun right => some (op, right), s') ∧
      s'.position = (parserAt inp rec fuel lvl.next { s with position := q }).2.position := by
  -- a comparison reports a missing operand, which changes the error and nothing else
  have hcomparison : ∀ {s : Parser} (value : Str) (line : ℤ), ∃ s',
      comparisonOperand op value line (parserAt inp rec fuel .additive) s =
        ((parserAt inp rec fuel .additive s).1.map fun right => some (op, right), s') ∧
      s'.position = (parserAt inp rec fuel .additive s).2.position := by
    intro s value line
    unfold comparisonOperand
    rcases hrun : parserAt inp rec fuel .additive s with ⟨e | right, s'⟩
    · exact ⟨s', bind_error hrun _, rfl⟩
    · rw [bind_ok hrun, bind_apply, when_apply]
      by_cases hmissing : right = -1
      · rw [if_pos hmissing, setErrorIfEmpty_apply]
        exact ⟨_, rfl, by split <;> rfl⟩
      · rw [if_neg hmissing]
        exact ⟨s', rfl, rfl⟩
  cases hop with
  | isNot htype hnot =>
    simp only [roundAt, comparisonRound, current_bind, htype, comparison, peek_bind, hnot, and_self,
      if_true, advance_bind]
    exact hcomparison _ _
  | single hsingle =>
    by_cases hlvl : lvl = .comparison
    · subst hlvl
      simp only [roundAt, comparisonRound, current_bind]
      rw [show comparison (inp.token s.position).type = some op from hsingle]
      simp only [peek_bind]
      rw [if_neg fun hboth => his hboth.1 hboth.2, advance_bind]
      exact hcomparison _ _
    · have hround : roundAt inp rec fuel lvl =
          binaryRound inp lvl.opOf (parserAt inp rec fuel lvl.next) := by
        cases lvl <;> first | rfl | exact absurd rfl hlvl
      rw [hround, binaryRound, current_bind, hsingle]
      simp only [advance_bind]
      rcases hrun : parserAt inp rec fuel lvl.next { s with position := s.position + 1 } with
        ⟨e | right, s'⟩
      · exact ⟨s', bind_error hrun _, rfl⟩
      · exact ⟨s', bind_ok hrun _, rfl⟩

theorem exists_infix (hop : lvl.opOf (inp.token s.position).type ≠ none) : ∃ op q,
    inp.Operator lvl s.position q op ∧
      (op = .is → (inp.token (s.position + 1)).type ≠ .not) := by
  obtain ⟨op, hop⟩ := Option.ne_none_iff_exists'.1 hop
  by_cases hnot : op = .is ∧ (inp.token (s.position + 1)).type = .not
  · obtain ⟨rfl, hnot⟩ := hnot
    have hlvl : lvl = .comparison ∧ (inp.token s.position).type = .is := by
      revert hop
      cases lvl <;> cases (inp.token s.position).type <;> decide
    obtain ⟨rfl, his⟩ := hlvl
    exact ⟨.isNot, _, .isNot his hnot, nofun⟩
  · exact ⟨op, _, .single hop, fun his hnext => hnot ⟨his, hnext⟩⟩

section Levels

variable (heof : inp.EofLast) {rec : Prog Parser Halt ℤ} {fuel : ℕ}
include heof

/-- The loop of a level, with as many rounds as there are tokens left. -/
theorem binaryLoop_obeys
    (hnext : ∀ s : Parser, inp.last - s.position ≤ fuel →
      Obeys inp .operand lvl.next (parserAt inp rec fuel lvl.next) s) :
    ∀ (rounds : ℕ) {left : ℤ} {s : Parser}, left ≠ -1 → inp.last - s.position < rounds →
      inp.last - s.position ≤ fuel →
      Obeys inp .loop lvl (binaryLoop (roundAt inp rec fuel lvl) rounds left) s
  | 0, _, _, _, hrounds, _ => absurd hrounds (Nat.not_lt_zero _)
  | rounds + 1, left, s, hleft, hrounds, hfuel => by
    by_cases hop : lvl.opOf (inp.token s.position).type = none
    · exact .of_eq (binaryLoop_stop (roundAt_none hop)) (ending_ok hleft) (.stop hop)
    obtain ⟨op, q, hop, his⟩ := exists_infix hop
    have hinfix : inp.Infix lvl s.position q := ⟨op, hop, his⟩
    have hlt := hinfix.lt
    have hlast := hinfix.le_last heof
    obtain ⟨s₁, hround, hpos⟩ := @roundAt_operator inp lvl s rec fuel q op hop his
    -- the right operand begins past the operator, so fewer tokens are left to it
    have hoperand := hnext { s with position := q } (by show inp.last - q ≤ fuel; omega)
    unfold Obeys at hoperand
    rw [← hpos] at hoperand
    generalize (parserAt inp rec fuel lvl.next { s with position := q }).1 = x at hround hoperand
    rcases x with e | right
    · exact .of_eq (bind_error hround _) rfl (.noOperand hinfix hoperand (by rintro ⟨⟩))
    by_cases hright : right = -1
    · subst hright
      exact .of_eq (binaryLoop_missing hround) rfl (.noOperand hinfix hoperand (by rintro ⟨⟩))
    rw [ending_ok hright] at hoperand
    have hmoved : q < s₁.position := hoperand.lt
    have hloop := @binaryLoop_obeys hnext rounds s₁.result.expressions.length
      { s₁ with result := { s₁.result with
        expressions := s₁.result.expressions ++ [.binary op left right] } }
      (by omega) (by show inp.last - s₁.position < rounds; omega)
      (by show inp.last - s₁.position ≤ fuel; omega)
    exact .of_eq (binaryLoop_round hround hright) rfl (.round hinfix hoperand hloop)

theorem parserAt_obeys_of_hasLoop (hloop : hasLoop lvl = true)
    (hnext : ∀ s : Parser, inp.last - s.position ≤ fuel →
      Obeys inp .operand lvl.next (parserAt inp rec fuel lvl.next) s)
    (hfuel : inp.last - s.position ≤ fuel) :
    Obeys inp .operand lvl (parserAt inp rec fuel lvl) s := by
  have hlvl : lvl ≠ .primary := by
    rintro rfl
    cases hloop
  have hunary : lvl.prefixOf = none := by
    revert hloop
    cases lvl <;> decide
  have htype : lvl.prefixOf ≠ some (inp.token s.position).type := by simp [hunary]
  rw [parserAt_of_hasLoop hloop]
  rcases (hnext s hfuel).bind (binaryLoop (roundAt inp rec fuel lvl) fuel) with
    ⟨i, s', hi, hattempt, heq⟩ | ⟨x, s', hx, hattempt, heq⟩
  · have hlt := hattempt.lt
    have hlast := hattempt.le_last heof
    have hrest := binaryLoop_obeys heof hnext fuel hi (s := s') (by omega) (by omega)
    exact .of_eq heq rfl (.first hlvl htype hattempt hrest)
  · exact .of_eq heq rfl (.noFirst hlvl htype hattempt hx)

omit heof in
/-- A level that hands over to the next one. -/
theorem Obeys.of_next (hlvl : lvl ≠ .primary) (hop : ∀ type, lvl.opOf type = none)
    (htype : lvl.prefixOf ≠ some (inp.token s.position).type)
    (h : Obeys inp .operand lvl.next c s) : Obeys inp .operand lvl c s := by
  unfold Obeys at *
  by_cases hfound : ending (c s).1 = .found
  · rw [hfound] at h ⊢
    exact .first hlvl htype h (.stop (hop _))
  · exact .noFirst hlvl htype h hfound

theorem parserAt_obeys (hrec : ∀ s : Parser, inp.last - s.position < fuel →
      Obeys inp .operand .or rec s) :
    ∀ lvl (s : Parser), inp.last - s.position ≤ fuel →
      Obeys inp .operand lvl (parserAt inp rec fuel lvl) s := by
  -- from the lowest level up, each by the one below it
  have hprimary : ∀ s : Parser, inp.last - s.position ≤ fuel →
      Obeys inp .operand .primary (parsePrimary inp rec) s := by
    intro s hfuel
    refine parsePrimary_obeys fun hopen => hrec _ ?_
    have := heof.lt_last (p := s.position) (by simp [hopen])
    show inp.last - (s.position + 1) < fuel
    omega
  have hunary : ∀ s : Parser, inp.last - s.position ≤ fuel →
      Obeys inp .operand .unary (parserAt inp rec fuel .unary) s := by
    intro s hfuel
    unfold Obeys
    show inp.Attempt _ _ _ (ending (parseUnary inp rec s).1) (parseUnary inp rec s).2.position
    rw [parseUnary, currentIs_bind]
    by_cases hminus : (inp.token s.position).type = .minus
    · rw [if_pos (by simpa using hminus)]
      exact parsePrefix_obeys (by rw [hminus]; rfl)
        (hprimary _ (by show inp.last - (s.position + 1) ≤ fuel; omega))
    · rw [if_neg (by simpa using hminus)]
      exact Obeys.of_next (by decide) (fun _ => rfl)
        (fun h => hminus (Option.some.inj h).symm) (hprimary s hfuel)
  have hloop := fun (lvl : Level) (h : hasLoop lvl = true) hnext (s : Parser) =>
    @parserAt_obeys_of_hasLoop inp lvl s heof rec fuel h hnext
  have hmultiplicative := hloop .multiplicative rfl hunary
  have hadditive := hloop .additive rfl hmultiplicative
  have hcomparison := hloop .comparison rfl hadditive
  have hnot : ∀ s : Parser, inp.last - s.position ≤ fuel →
      Obeys inp .operand .not (parserAt inp rec fuel .not) s := by
    intro s hfuel
    unfold Obeys
    show inp.Attempt _ _ _ (ending (parseNot inp rec fuel s).1) (parseNot inp rec fuel s).2.position
    rw [parseNot, currentIs_bind]
    by_cases hnot : (inp.token s.position).type = .not
    · rw [if_pos (by simpa using hnot)]
      exact parsePrefix_obeys (by rw [hnot]; rfl)
        (hcomparison _ (by show inp.last - (s.position + 1) ≤ fuel; omega))
    · rw [if_neg (by simpa using hnot)]
      exact Obeys.of_next (by decide) (fun _ => rfl)
        (fun h => hnot (Option.some.inj h).symm) (hcomparison s hfuel)
  have hand := hloop .and rfl hnot
  intro lvl
  cases lvl
  · exact hloop .or rfl hand
  all_goals assumption

/-- **A call for an expression follows the rules**, with more rounds than tokens are left. -/
theorem parseExpression_obeys : ∀ (fuel : ℕ) (s : Parser), inp.last - s.position < fuel →
    Obeys inp .operand .or (parseExpression inp fuel) s
  | 0, _, hfuel => absurd hfuel (Nat.not_lt_zero _)
  | fuel + 1, s, hfuel => by
    rw [parseExpression_succ]
    exact parserAt_obeys heof (parseExpression_obeys fuel) .or s (Nat.le_of_lt_succ hfuel)

/-- The rules, read off one run of a call whose fuel outlasts the tokens. -/
theorem parseExpression_attempt {fuel : ℕ} (hfuel : inp.tokens.length ≤ fuel)
    {x : Except Halt ℤ} (h : parseExpression inp fuel s = (x, s')) :
    inp.Attempt .operand .or s.position (ending x) s'.position := by
  have hattempt := parseExpression_obeys heof fuel s (Input.last_sub_lt hfuel s.position)
  unfold Obeys at hattempt
  rw [h] at hattempt
  exact hattempt

end Levels

end Parser

end MicroSql
