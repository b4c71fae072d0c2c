import MicroSql.Parser.Sound

/-!
# What the parser of expressions accepts

An expression of the grammar that the next token does not continue is parsed, by any number of
rounds that is at least the number of its tokens.  The proof follows the derivation; for an
operator of the left-associative levels it follows the loop of the level, which has the left
operand when it reaches the operator.
-/

namespace MicroSql

open Lib

namespace Parser

variable (inp : Input)

/-- The function of each level. -/
def parserAt (rec : Prog Parser Halt ℤ) (fuel : ℕ) : Level → Prog Parser Halt ℤ
  | .or => parseBinary (binaryRound inp disjunction (parseAnd inp rec fuel))
      (parseAnd inp rec fuel) fuel
  | .and => parseAnd inp rec fuel
  | .not => parseNot inp rec fuel
  | .comparison => parseComparison inp rec fuel
  | .additive => parseAddSubstract inp rec fuel
  | .multiplicative => parseMultiplyDivide inp rec fuel
  | .unary => parseUnary inp rec
  | .primary => parsePrimary inp rec

/-- The round of the loop of each level, if it has a loop. -/
def roundAt (rec : Prog Parser Halt ℤ) (fuel : ℕ) :
    Level → Prog Parser Halt (Option (BinaryOperator × ℤ))
  | .comparison => comparisonRound inp (parserAt inp rec fuel .additive)
  | lvl => binaryRound inp lvl.opOf (parserAt inp rec fuel lvl.next)

/-- The levels with a loop. -/
def hasLoop : Level → Bool
  | .not => false
  | .unary => false
  | .primary => false
  | _ => true

/-- The rest of the loop of a level, with the left operand. -/
def loopAt (rec : Prog Parser Halt ℤ) (fuel : ℕ) (lvl : Level) (rounds : ℕ) (left : ℤ) :
    Prog Parser Halt ℤ :=
  if hasLoop lvl then binaryLoop (roundAt inp rec fuel lvl) rounds left else pure left

variable {inp} {rec : Prog Parser Halt ℤ} {fuel : ℕ} {lvl : Level} {s s₁ s' : Parser} {q : ℕ}
  {i : ℤ} {t : Tree}

theorem parserAt_of_hasLoop (h : hasLoop lvl = true) :
    parserAt inp rec fuel lvl =
      parseBinary (roundAt inp rec fuel lvl) (parserAt inp rec fuel lvl.next) fuel := by
  cases lvl <;> first | rfl | cases h

theorem parseExpression_succ (fuel : ℕ) :
    parseExpression inp (fuel + 1) = parserAt inp (parseExpression inp fuel) fuel .or := rfl

/-- The index `i` refers to the tree `t`, and `s'` is at position `q`. -/
structure Yields (s : Parser) (q : ℕ) (t : Tree) (i : ℤ) (s' : Parser) : Prop where
  position : s'.position = q
  statement : s'.result.statement = s.result.statement
  expressions : s.result.expressions <+: s'.result.expressions
  error : s'.result.error = s.result.error
  refers : s'.result.Refers i t

theorem Yields.ne (h : Yields s q t i s') : i ≠ -1 := by
  have := h.refers.nonneg
  omega

/-- The call passes an expression that ends at `q`. -/
def Returns (c : Prog Parser Halt ℤ) (s : Parser) (q : ℕ) (t : Tree) : Prop :=
  ∃ i s', c s = (.ok i, s') ∧ Yields s q t i s'

/-! ### One round of a loop -/

theorem hasLoop_of_operator {p : ℕ} {op : BinaryOperator} (h : inp.Operator lvl p q op) :
    hasLoop lvl = true := by
  cases h with
  | single h => cases lvl <;> first | rfl | cases h
  | isNot => rfl

theorem roundAt_none (hop : lvl.opOf (inp.token s.position).type = none) :
    roundAt inp rec fuel lvl s = (.ok none, s) := by
  cases lvl
  case comparison =>
    simp only [roundAt, comparisonRound, current_bind]
    rw [show comparison (inp.token s.position).type = none from hop]
    rfl
  all_goals
    simp only [roundAt, binaryRound, current_bind]
    rw [hop]
    rfl

theorem comparisonOperand_ok {operand : Prog Parser Halt ℤ} (h : operand s = (.ok i, s'))
    (hi : i ≠ -1) (op : BinaryOperator) (value : Str) (line : ℤ) :
    comparisonOperand op value line operand s = (.ok (some (op, i)), s') := by
  unfold comparisonOperand
  rw [Prog.bind_ok h, Prog.bind_apply, Prog.when_apply, if_neg hi]
  rfl

/-- A round passes an operator and its right operand, which does not begin with a `NOT` if the
operator is a comparison. -/
theorem roundAt_some {op : BinaryOperator} (hop : inp.Operator lvl s.position q op)
    (hnot : lvl = .comparison → (inp.token q).type ≠ .not)
    (hright : parserAt inp rec fuel lvl.next { s with position := q } = (.ok i, s'))
    (hi : i ≠ -1) : roundAt inp rec fuel lvl s = (.ok (some (op, i)), s') := by
  cases hop with
  | isNot his hnot' =>
    simp only [roundAt, comparisonRound, current_bind, his, comparison, peek_bind, hnot', and_self,
      if_true, advance_bind]
    exact comparisonOperand_ok hright hi _ _ _
  | single hop =>
    by_cases hlvl : lvl = .comparison
    · subst hlvl
      simp only [roundAt, comparisonRound, current_bind]
      rw [show comparison (inp.token s.position).type = some op from hop]
      simp only [peek_bind, hnot rfl, and_false, if_false, advance_bind]
      exact comparisonOperand_ok hright hi _ _ _
    · have hround : roundAt inp rec fuel lvl =
          binaryRound inp lvl.opOf (parserAt inp rec fuel lvl.next) := by
        cases lvl <;> first | rfl | exact absurd rfl hlvl
      rw [hround, binaryRound, current_bind, hop]
      simp only [advance_bind]
      rw [Prog.bind_ok hright]
      rfl

/-! ### The ends of the loops -/

theorem loopAt_stop {rounds : ℕ} (hstops : lvl.Stops (inp.token s.position).type)
    (hrounds : 0 < rounds) : loopAt inp rec fuel lvl rounds i s = (.ok i, s) := by
  obtain ⟨n, rfl⟩ : ∃ n, rounds = n + 1 := ⟨rounds - 1, by omega⟩
  unfold loopAt
  split
  · exact binaryLoop_stop (roundAt_none hstops.opOf)
  · rfl

theorem loopAt_some (rounds : ℕ) {op : BinaryOperator} {right : ℤ} (hloop : hasLoop lvl = true)
    (hround : roundAt inp rec fuel lvl s = (.ok (some (op, right)), s₁)) (hright : right ≠ -1) :
    loopAt inp rec fuel lvl (rounds + 1) i s =
      loopAt inp rec fuel lvl rounds s₁.result.expressions.length
        { s₁ with result := { s₁.result with
            expressions := s₁.result.expressions ++ [.binary op i right] } } := by
  rw [loopAt, loopAt, if_pos hloop, if_pos hloop, binaryLoop_round hround hright]

/-! ### The levels -/

/-- A node without operands is pushed, and one more token passed. -/
theorem parseLiteral_yields {expr : Expression} (hleaf : expr.isLeaf = true) :
    Returns (parseLiteral expr) s (s.position + 1) (.leaf expr) := by
  refine ⟨_, _, rfl, ⟨rfl, rfl, List.prefix_append _ _, rfl, expr, ⟨Int.natCast_nonneg _, ?_⟩,
    .leaf hleaf⟩⟩
  change (s.result.expressions ++ [expr])[(s.result.expressions.length : ℤ).toNat]? = _
  simp

theorem parsePrimary_leaf {expr : Expression} (h : inp.Leaf s.position q expr)
    (hdot : (inp.token q).type ≠ .dot) : Returns (parsePrimary inp rec) s q (.leaf expr) := by
  have hleaf := h.isLeaf
  have hlit := parseLiteral_yields (s := s) hleaf
  unfold Returns parsePrimary at *
  simp only [current_bind]
  cases h with
  | column htype =>
    rw [htype]
    simp only [parseColumn, current_bind, peek_bind, if_neg hdot]
    exact hlit
  | qualified htype hdot' hcolumn =>
    rw [htype]
    simp only [parseColumn, current_bind, peek_bind, hdot', if_true, advance_bind, hcolumn]
    obtain ⟨i, s', hi, hyields⟩ := parseLiteral_yields
      (s := { s with position := s.position + 1 + 1 }) hleaf
    exact ⟨i, s', hi, hyields.position, hyields.statement, hyields.expressions, hyields.error,
      hyields.refers⟩
  | int htype hn =>
    rw [htype]
    simp only [hn, Prog.lift_ok_bind_apply]
    exact hlit
  | float htype hx =>
    rw [htype]
    simp only [hx, Prog.lift_ok_bind_apply]
    exact hlit
  | text htype => rw [htype]; exact hlit
  | null htype => rw [htype]; exact hlit
  | true htype => rw [htype]; exact hlit
  | false htype => rw [htype]; exact hlit

theorem parsePrefix_yields (op : UnaryOperator) {operand : Prog Parser Halt ℤ}
    (h : Returns operand { s with position := s.position + 1 } q t) :
    Returns (parsePrefix op operand) s q (.unary op t) := by
  obtain ⟨i, s', hi, hyields⟩ := h
  have hrun : parsePrefix op operand s = push (.unary op i) s' := by
    unfold parsePrefix
    rw [advance_bind, Prog.bind_ok hi, if_neg hyields.ne]
  exact ⟨_, _, hrun.trans (push_apply s' _), hyields.position, hyields.statement,
    hyields.expressions.trans (List.prefix_append _ _), hyields.error,
    refers_unary hyields.refers⟩

theorem parseParen_yields (htype : (inp.token s.position).type = .leftParen)
    (h : Returns rec { s with position := s.position + 1 } q t)
    (hclose : (inp.token q).type = .rightParen) : Returns (parsePrimary inp rec) s (q + 1) t := by
  obtain ⟨i, s', hi, hyields⟩ := h
  refine ⟨i, { s' with position := q + 1 }, ?_, ⟨rfl,
    hyields.statement, hyields.expressions, hyields.error, hyields.refers⟩⟩
  unfold parsePrimary
  rw [current_bind, htype]
  simp only [parseParen]
  rw [advance_bind, Prog.bind_ok hi, if_neg hyields.ne, current_bind, hyields.position,
    if_pos hclose, advance_bind, hyields.position]
  rfl

/-- The loop of a level is reached with the operand that stands before `q`. -/
def Reaches (rec : Prog Parser Halt ℤ) (fuel : ℕ) (lvl : Level) (s : Parser) (q : ℕ) (t : Tree) :
    Prop :=
  ∃ rounds i s', s.position + rounds < q ∧ Yields s q t i s' ∧
    parserAt inp rec fuel lvl s = loopAt inp rec fuel lvl (fuel - rounds) i s'

theorem Reaches.returns (h : @Reaches inp rec fuel lvl s q t)
    (hstops : lvl.Stops (inp.token q).type) (hfuel : q ≤ s.position + fuel) :
    Returns (parserAt inp rec fuel lvl) s q t := by
  obtain ⟨rounds, i, s', hrounds, hyields, heq⟩ := h
  refine ⟨i, s', ?_, hyields⟩
  rw [heq]
  exact loopAt_stop (by rwa [hyields.position]) (by omega)

/-- A level that has the operand of the next level is at its loop. -/
theorem reaches_of_next (hlt : s.position < q)
    (h : Returns (parserAt inp rec fuel lvl.next) s q t)
    (hnot : lvl = .not → (inp.token s.position).type ≠ .not)
    (hminus : lvl = .unary → (inp.token s.position).type ≠ .minus) :
    @Reaches inp rec fuel lvl s q t := by
  obtain ⟨i, s', hi, hyields⟩ := h
  refine ⟨0, i, s', hlt, hyields, ?_⟩
  by_cases hloop : hasLoop lvl = true
  · rw [parserAt_of_hasLoop hloop, parseBinary, Prog.bind_ok hi, if_neg hyields.ne, loopAt,
      if_pos hloop]
    rfl
  · rw [loopAt, if_neg hloop]
    have hi' : parserAt inp rec fuel lvl s = (.ok i, s') := by
      cases lvl <;> first | exact absurd rfl hloop | skip
      case not =>
        simp only [parserAt, parseNot, currentIs_bind, beq_iff_eq, if_neg (hnot rfl)]
        exact hi
      case unary =>
        simp only [parserAt, parseUnary, currentIs_bind, beq_iff_eq, if_neg (hminus rfl)]
        exact hi
      case primary => exact hi
    exact hi'

/-- One more round of the loop. -/
theorem Reaches.binary {r : ℕ} {op : BinaryOperator} {left right : Tree}
    (h : @Reaches inp rec fuel lvl s q left) (hop : inp.Operator lvl q r op)
    (hnot : lvl = .comparison → (inp.token r).type ≠ .not) {q' : ℕ} (hlt : r < q')
    (hfuel : q' ≤ s.position + fuel)
    (hright : ∀ s, s.position = r → Returns (parserAt inp rec fuel lvl.next) s q' right) :
    @Reaches inp rec fuel lvl s q' (.binary op left right) := by
  obtain ⟨rounds, i, s₁, hrounds, hyields, heq⟩ := h
  obtain ⟨j, s₂, hj, hyields'⟩ := hright { s₁ with position := r } rfl
  have hop' : inp.Operator lvl s₁.position r op := by rwa [hyields.position]
  have hqr := hop.lt
  have hround : roundAt inp rec fuel lvl s₁ = (.ok (some (op, j)), s₂) :=
    roundAt_some hop' hnot hj hyields'.ne
  have hloop := loopAt_some (i := i) (fuel - (rounds + 1)) (hasLoop_of_operator hop)
    hround hyields'.ne
  rw [show fuel - (rounds + 1) + 1 = fuel - rounds by omega] at hloop
  refine ⟨rounds + 1, _, _, by omega, ?_, heq.trans hloop⟩
  exact ⟨hyields'.position,
    hyields'.statement.trans hyields.statement,
    (hyields.expressions.trans hyields'.expressions).trans (List.prefix_append _ _),
    hyields'.error.trans hyields.error,
    refers_binary (hyields.refers.mono hyields'.expressions) hyields'.refers⟩

/-- An expression of the grammar brings the parser to the loop of its level. -/
theorem reaches_of_derives {p : ℕ} (h : inp.Derives lvl p q t)
    (hstops : lvl.next.Stops (inp.token q).type) (hdot : (inp.token q).type ≠ .dot)
    (hfuel : q ≤ p + fuel) (s : Parser) (hs : s.position = p) :
    @Reaches inp (parseExpression inp fuel) fuel lvl s q t := by
  induction h generalizing fuel s with
  | @next lvl p q t h ih =>
    subst hs
    refine reaches_of_next h.lt ((ih hstops.next hdot hfuel s rfl).returns hstops hfuel) ?_ ?_
    · rintro rfl
      exact h.first_ne_not le_rfl
    · rintro rfl
      exact h.first_ne_minus rfl
  | @binary lvl p q r q' op left right hleft hop hright ihl ihr =>
    subst hs
    have hqr := hop.lt
    have hpq := hleft.lt
    have hrq := hright.lt
    -- the operator stops the left operand, and the loop of the level meets it
    obtain ⟨hopStops, hopDot⟩ := hop.stops
    refine (ihl hopStops hopDot (by omega) s rfl).binary hop ?_ hright.lt hfuel fun s hs =>
      (ihr hstops.next hdot (by omega) s hs).returns hstops (by omega)
    rintro rfl
    exact hright.first_ne_not (by decide)
  | @not p q t hnot h ih =>
    subst hs
    have hoperand := (ih hstops.next hdot (by omega) { s with position := s.position + 1 }
      rfl).returns hstops (show q ≤ s.position + 1 + fuel by omega)
    obtain ⟨i, s', hi, hyields⟩ := parsePrefix_yields .not hoperand
    refine ⟨0, i, s', by have := h.lt; omega, hyields, ?_⟩
    simp only [parserAt, parseNot, currentIs_bind, hnot, beq_self_eq_true, if_true]
    exact hi
  | @negate p q t hminus h ih =>
    subst hs
    have hoperand := (ih hstops.next hdot (by omega) { s with position := s.position + 1 }
      rfl).returns hstops (show q ≤ s.position + 1 + fuel by omega)
    obtain ⟨i, s', hi, hyields⟩ := parsePrefix_yields .negate hoperand
    refine ⟨0, i, s', by have := h.lt; omega, hyields, ?_⟩
    simp only [parserAt, parseUnary, currentIs_bind, hminus, beq_self_eq_true, if_true]
    exact hi
  | @leaf p q expr h =>
    subst hs
    obtain ⟨i, s', hi, hyields⟩ := parsePrimary_leaf h hdot
    exact ⟨0, i, s', by have := h.lt; omega, hyields, hi⟩
  | @paren p q t hopen h hclose ih =>
    subst hs
    have hlt := h.lt
    obtain ⟨fuel, rfl⟩ : ∃ n, fuel = n + 1 := ⟨fuel - 1, by omega⟩
    -- the closing parenthesis stops every level of the expression inside
    have hshut : Level.or.Stops (inp.token q).type := by
      rw [hclose]
      intro lvl' _
      cases lvl' <;> rfl
    have hnext : q ≤ s.position + 1 + fuel := by omega
    have hinner := (ih hshut.next (by simp [hclose]) hnext { s with position := s.position + 1 }
      rfl).returns hshut hnext
    obtain ⟨i, s', hi, hyields⟩ := parseParen_yields hopen hinner hclose
    exact ⟨0, i, s', by omega, hyields, hi⟩

/-- An expression of the grammar is parsed, if the next token does not continue it. -/
theorem parseExpression_complete {p : ℕ} (h : inp.Derives .or p q t)
    (hstops : Level.or.Stops (inp.token q).type) (hdot : (inp.token q).type ≠ .dot)
    (hfuel : q < p + fuel) (hs : s.position = p) : Returns (parseExpression inp fuel) s q t := by
  obtain ⟨fuel, rfl⟩ : ∃ n, fuel = n + 1 := ⟨fuel - 1, by have := h.lt; omega⟩
  rw [parseExpression_succ]
  exact (reaches_of_derives h hstops.next hdot (by omega) s hs).returns hstops (by omega)

end Parser

end MicroSql
