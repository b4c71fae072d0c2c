import MicroSql.Parser.Grammar

/-!
# What the parser of expressions returns

An index other than `-1` refers to a tree that the tokens passed derive, and `-1` comes with an
error or without one.  In both cases the arena only grows and the statement is left alone.
-/

namespace MicroSql

open Lib

namespace Parser

/-- What no function of the expression grammar undoes. -/
structure Extends (s s' : Parser) : Prop where
  statement : s'.result.statement = s.result.statement
  expressions : s.result.expressions <+: s'.result.expressions
  position : s.position ≤ s'.position

namespace Extends

variable {s s₁ s' : Parser}

theorem refl (s : Parser) : Extends s s := ⟨rfl, List.prefix_rfl, le_rfl⟩

theorem trans (h : Extends s s₁) (h' : Extends s₁ s') : Extends s s' :=
  ⟨h'.statement.trans h.statement, h.expressions.trans h'.expressions,
    h.position.trans h'.position⟩

theorem move {q : ℕ} (h : s.position ≤ q) : Extends s { s with position := q } :=
  ⟨rfl, List.prefix_rfl, h⟩

end Extends

variable (inp : Input)

/-- The index `i` refers to the expression that has been passed. -/
structure Found (lvl : Level) (s : Parser) (i : ℤ) (s' : Parser) : Prop
    extends Extends s s' where
  error : s'.result.error = s.result.error
  stops : lvl.Stops (inp.token s'.position).type
  derives : ∃ t, inp.Derives lvl s.position s'.position t ∧ s'.result.Refers i t

/-- No expression has been found. -/
structure Missing (s s' : Parser) : Prop extends Extends s s' where
  error : s'.result.error = s.result.error ∨ s'.result.error ≠ []

/-- What a call for an expression of the level returns. -/
def Outcome (lvl : Level) (s : Parser) (i : ℤ) (s' : Parser) : Prop :=
  (i = -1 ∧ Missing s s') ∨ Found inp lvl s i s'

/-- Every call that returns returns as it should. -/
def Sound (lvl : Level) (c : Prog Parser Halt ℤ) : Prop :=
  ∀ s i s', c s = (.ok i, s') → Outcome inp lvl s i s'

variable {inp} {lvl : Level} {s s₁ s' : Parser} {i : ℤ}

theorem Found.ne (h : Found inp lvl s i s') : i ≠ -1 := by
  obtain ⟨t, -, ht⟩ := h.derives
  have := ht.nonneg
  omega

theorem Missing.after (h : Extends s s₁) (herror : s₁.result.error = s.result.error)
    (h' : Missing s₁ s') : Missing s s' :=
  ⟨h.trans h'.toExtends, by rw [← herror]; exact h'.error⟩

/-! ### Primary expressions -/

/-- A node without operands is pushed, and one more token passed. -/
theorem parseLiteral_found {p : ℕ} {expr : Expression} (hp : p ≤ s.position)
    (h : parseLiteral expr s = (.ok i, s')) (hleaf : inp.Leaf p (s.position + 1) expr) :
    Outcome inp .primary { s with position := p } i s' := by
  simp only [parseLiteral, Prog.bind_apply, push_apply] at h
  cases h
  refine .inr ⟨⟨rfl, List.prefix_append _ _, ?_⟩, rfl, Level.stops_primary _, .leaf expr,
    .leaf hleaf, expr, ⟨Int.natCast_nonneg _, ?_⟩, .leaf hleaf.isLeaf⟩
  · exact Nat.le_succ_of_le hp
  · change (s.result.expressions ++ [expr])[(s.result.expressions.length : ℤ).toNat]? = _
    simp

theorem parseColumn_sound (htype : (inp.token s.position).type = .identifier)
    (h : parseColumn inp s = (.ok i, s')) : Outcome inp .primary s i s' := by
  simp only [parseColumn, current_bind, peek_bind] at h
  by_cases hdot : (inp.token (s.position + 1)).type = .dot
  · rw [if_pos hdot] at h
    simp only [advance_bind, peek_bind] at h
    by_cases hcol : (inp.token (s.position + 1 + 1)).type = .identifier
    · rw [if_pos hcol] at h
      simp only [advance_bind] at h
      exact parseLiteral_found (s := { s with position := s.position + 1 + 1 })
        (Nat.le_add_right _ 2) h (.qualified htype hdot hcol)
    · rw [if_neg hcol] at h
      cases h
      have hstart : str "Expected column name after '.' but found '" ≠ [] := by decide
      exact .inl ⟨rfl, ⟨rfl, List.prefix_rfl, Nat.le_succ _⟩, .inr (by simp [hstart])⟩
  · rw [if_neg hdot] at h
    exact parseLiteral_found (p := s.position) le_rfl h (.column htype)

theorem parseParen_sound {rec : Prog Parser Halt ℤ} (hrec : Sound inp .or rec)
    (htype : (inp.token s.position).type = .leftParen) (h : parseParen inp rec s = (.ok i, s')) :
    Outcome inp .primary s i s' := by
  simp only [parseParen, advance_bind] at h
  obtain ⟨index, s₁, hindex, h⟩ := Prog.bind_eq_ok.1 h
  have hmove : Extends s { s with position := s.position + 1 } := .move (Nat.le_succ _)
  rcases hrec _ _ _ hindex with ⟨rfl, hmissing⟩ | hfound
  · rw [if_pos rfl] at h
    cases h
    exact .inl ⟨rfl, hmissing.after hmove rfl⟩
  rw [if_neg hfound.ne] at h
  simp only [current_bind] at h
  have hext := hmove.trans hfound.toExtends
  by_cases hclose : (inp.token s₁.position).type = .rightParen
  · rw [if_pos hclose] at h
    cases h
    obtain ⟨t, hderives, hrefers⟩ := hfound.derives
    exact .inr ⟨hext.trans (.move (Nat.le_succ _)), hfound.error, Level.stops_primary _, t,
      .paren htype hderives hclose, hrefers⟩
  · rw [if_neg hclose] at h
    cases h
    exact .inl ⟨rfl, ⟨hext.statement, hext.expressions, hext.position⟩,
      .inr (by simp)⟩

theorem parsePrimary_sound {rec : Prog Parser Halt ℤ} (hrec : Sound inp .or rec) :
    Sound inp .primary (parsePrimary inp rec) := by
  intro s i s' h
  simp only [parsePrimary, current_bind] at h
  have hlit : ∀ {expr}, inp.Leaf s.position (s.position + 1) expr →
      parseLiteral expr s = (.ok i, s') → Outcome inp .primary s i s' :=
    fun hleaf h => parseLiteral_found (p := s.position) le_rfl h hleaf
  cases htype : (inp.token s.position).type
  case identifier => exact parseColumn_sound htype (by rwa [htype] at h)
  case integerLiteral =>
    rw [htype] at h
    obtain ⟨n, hn, h⟩ := Prog.lift_bind_eq_ok.1 h
    exact hlit (.int htype hn) h
  case floatLiteral =>
    rw [htype] at h
    obtain ⟨x, hx, h⟩ := Prog.lift_bind_eq_ok.1 h
    exact hlit (.float htype hx) h
  case stringLiteral => exact hlit (.text htype) (by rwa [htype] at h)
  case tknull => exact hlit (.null htype) (by rwa [htype] at h)
  case true => exact hlit (.true htype) (by rwa [htype] at h)
  case false => exact hlit (.false htype) (by rwa [htype] at h)
  case leftParen => exact parseParen_sound hrec htype (by rwa [htype] at h)
  -- no other token begins a primary expression
  all_goals
    rw [htype] at h
    cases h
    exact .inl ⟨rfl, .refl s, .inl rfl⟩

/-! ### Operators -/

/-- A node over operands in the arena is pushed. -/
theorem refers_binary {op : BinaryOperator} {j : ℤ} {left right : Tree}
    (hi : s.result.Refers i left) (hj : s.result.Refers j right) :
    ({ s.result with expressions := s.result.expressions ++ [.binary op i j] } :
      ParseResult).Refers s.result.expressions.length (.binary op left right) := by
  have hsub : s.result.expressions <+: s.result.expressions ++ [.binary op i j] :=
    List.prefix_append _ _
  have hpushed : ∀ {k t}, s.result.Refers k t →
      ({ s.result with expressions := s.result.expressions ++ [.binary op i j] } :
        ParseResult).Refers k t := fun h => h.mono hsub
  obtain ⟨l, hil, hl⟩ := hpushed hi
  obtain ⟨r, hjr, hr⟩ := hpushed hj
  exact ⟨.binary op i j, ⟨Int.natCast_nonneg _, by simp⟩, .binary hil hjr hl hr⟩

theorem refers_unary {op : UnaryOperator} {t : Tree} (hi : s.result.Refers i t) :
    ({ s.result with expressions := s.result.expressions ++ [.unary op i] } :
      ParseResult).Refers s.result.expressions.length (.unary op t) := by
  have hsub : s.result.expressions <+: s.result.expressions ++ [.unary op i] :=
    List.prefix_append _ _
  have hpushed : ({ s.result with expressions := s.result.expressions ++ [.unary op i] } :
      ParseResult).Refers i t := hi.mono hsub
  obtain ⟨operand, hio, ht⟩ := hpushed
  exact ⟨.unary op i, ⟨Int.natCast_nonneg _, by simp⟩, .unary hio ht⟩

/-- A prefix operator whose operand is an expression of a higher level. -/
theorem parsePrefix_sound {lvl' : Level} {op : UnaryOperator} {operand : Prog Parser Halt ℤ}
    (hoperand : Sound inp lvl' operand)
    (hstops : ∀ type, lvl'.Stops type → lvl.Stops type)
    (hderives : ∀ q t, inp.Derives lvl' (s.position + 1) q t →
      inp.Derives lvl s.position q (.unary op t))
    (h : parsePrefix op operand s = (.ok i, s')) : Outcome inp lvl s i s' := by
  simp only [parsePrefix, advance_bind] at h
  obtain ⟨index, s₁, hindex, h⟩ := Prog.bind_eq_ok.1 h
  have hmove : Extends s { s with position := s.position + 1 } := .move (Nat.le_succ _)
  rcases hoperand _ _ _ hindex with ⟨rfl, hmissing⟩ | hfound
  · rw [if_pos rfl] at h
    cases h
    exact .inl ⟨rfl, hmissing.after hmove rfl⟩
  rw [if_neg hfound.ne, push_apply] at h
  cases h
  have hext := hmove.trans hfound.toExtends
  obtain ⟨t, ht, hrefers⟩ := hfound.derives
  exact .inr ⟨⟨hext.statement, hext.expressions.trans (List.prefix_append _ _), hext.position⟩,
    hfound.error, hstops _ hfound.stops, .unary op t, hderives _ t ht, refers_unary hrefers⟩

/-- A round that finds no operator stops before it; one that finds an operator passes it and its
right operand. -/
def RoundSound (inp : Input) (lvl : Level)
    (round : Prog Parser Halt (Option (BinaryOperator × ℤ))) : Prop :=
  ∀ s x s', round s = (.ok x, s') →
    (x = none ∧ s' = s ∧ lvl.opOf (inp.token s.position).type = none) ∨
    ∃ op right q, x = some (op, right) ∧ inp.Operator lvl s.position q op ∧
      Outcome inp lvl.next { s with position := q } right s'

theorem binaryRound_sound (lvl : Level) {operand : Prog Parser Halt ℤ}
    (hoperand : Sound inp lvl.next operand) :
    RoundSound inp lvl (binaryRound inp lvl.opOf operand) := by
  intro s x s' h
  simp only [binaryRound, current_bind] at h
  cases hop : lvl.opOf (inp.token s.position).type with
  | none =>
    rw [hop] at h
    cases h
    exact .inl ⟨rfl, rfl, rfl⟩
  | some op =>
    rw [hop] at h
    simp only [advance_bind] at h
    obtain ⟨right, s₁, hright, h⟩ := Prog.bind_eq_ok.1 h
    cases h
    exact .inr ⟨op, right, s.position + 1, rfl, .single hop, hoperand _ _ _ hright⟩

/-- A missing operand of a comparison is always an error. -/
theorem comparisonOperand_sound {op : BinaryOperator} {operatorValue : Str} {operatorLine : ℤ}
    {operand : Prog Parser Halt ℤ} (hoperand : Sound inp .additive operand)
    {x : Option (BinaryOperator × ℤ)}
    (h : comparisonOperand op operatorValue operatorLine operand s = (.ok x, s')) :
    ∃ right, x = some (op, right) ∧ Outcome inp .additive s right s' := by
  obtain ⟨right, s₁, hright, h⟩ := Prog.bind_eq_ok.1 h
  have hout := hoperand _ _ _ hright
  rw [Prog.bind_apply, Prog.when_apply] at h
  by_cases hmissing : right = -1
  · rw [if_pos hmissing, setErrorIfEmpty_apply] at h
    cases h
    refine ⟨right, rfl, .inl ⟨hmissing, ?_⟩⟩
    obtain ⟨-, hout⟩ := hout.resolve_right fun hfound => hfound.ne hmissing
    by_cases hempty : s₁.result.error = []
    · rw [if_pos hempty]
      exact ⟨⟨hout.statement, hout.expressions, hout.position⟩, .inr (by simp)⟩
    · rw [if_neg hempty]
      exact ⟨hout.toExtends, .inr hempty⟩
  · rw [if_neg hmissing] at h
    cases h
    exact ⟨right, rfl, hout⟩

theorem comparisonRound_sound {operand : Prog Parser Halt ℤ}
    (hoperand : Sound inp .additive operand) :
    RoundSound inp .comparison (comparisonRound inp operand) := by
  intro s x s' h
  simp only [comparisonRound, current_bind] at h
  cases hop : comparison (inp.token s.position).type with
  | none =>
    rw [hop] at h
    cases h
    exact .inl ⟨rfl, rfl, hop⟩
  | some op =>
    rw [hop] at h
    simp only [peek_bind] at h
    by_cases hnot : op = .is ∧ (inp.token (s.position + 1)).type = .not
    · rw [if_pos hnot] at h
      simp only [advance_bind] at h
      obtain ⟨right, hx, hout⟩ := comparisonOperand_sound hoperand h
      have his : (inp.token s.position).type = .is := by
        revert hop
        rw [hnot.1]
        cases (inp.token s.position).type <;> simp [comparison]
      exact .inr ⟨.isNot, right, s.position + 2, hx, .isNot his hnot.2, hout⟩
    · rw [if_neg hnot] at h
      simp only [advance_bind] at h
      obtain ⟨right, hx, hout⟩ := comparisonOperand_sound hoperand h
      exact .inr ⟨op, right, s.position + 1, hx, @Input.Operator.single _ .comparison _ _ hop, hout⟩

/-- The loop, once there is a left operand. -/
theorem binaryLoop_sound {round : Prog Parser Halt (Option (BinaryOperator × ℤ))}
    (hround : RoundSound inp lvl round) {s₀ : Parser} :
    ∀ (fuel : ℕ) {left : ℤ} {s s' : Parser} {i : ℤ},
      binaryLoop round fuel left s = (.ok i, s') → Extends s₀ s →
      s.result.error = s₀.result.error → lvl.next.Stops (inp.token s.position).type →
      (∃ t, inp.Derives lvl s₀.position s.position t ∧ s.result.Refers left t) →
      Outcome inp lvl s₀ i s'
  | 0, _, _, _, _, h, _, _, _, _ => by cases h
  | fuel + 1, left, s, s', i, h, hext, herror, hstops, hleft => by
    obtain ⟨x, s₁, hx, -⟩ := Prog.bind_eq_ok.1 h
    rcases hround _ _ _ hx with ⟨rfl, rfl, hnone⟩ | ⟨op, right, q, rfl, hop, hout⟩
    · rw [binaryLoop_stop hx] at h
      cases h
      exact .inr ⟨hext, herror, hstops.of_next hnone, hleft⟩
    have hmove : Extends s₀ { s with position := q } := hext.trans (.move hop.lt.le)
    rcases hout with ⟨rfl, hmissing⟩ | hfound
    · rw [binaryLoop_missing hx] at h
      cases h
      exact .inl ⟨rfl, hmissing.after hmove herror⟩
    rw [binaryLoop_round hx hfound.ne] at h
    have hext' := hmove.trans hfound.toExtends
    obtain ⟨l, hl, hrefers⟩ := hleft
    obtain ⟨r, hr, hrefers'⟩ := hfound.derives
    refine binaryLoop_sound hround fuel h
      ⟨hext'.statement, hext'.expressions.trans (List.prefix_append _ _), hext'.position⟩
      (hfound.error.trans herror) hfound.stops ⟨.binary op l r, .binary hl hop hr, ?_⟩
    exact refers_binary (hrefers.mono hfound.expressions) hrefers'

theorem parseBinary_sound {round : Prog Parser Halt (Option (BinaryOperator × ℤ))}
    {operand : Prog Parser Halt ℤ} (hround : RoundSound inp lvl round)
    (hoperand : Sound inp lvl.next operand) (fuel : ℕ) :
    Sound inp lvl (parseBinary round operand fuel) := by
  intro s i s' h
  obtain ⟨left, s₁, hleft, h⟩ := Prog.bind_eq_ok.1 h
  rcases hoperand _ _ _ hleft with ⟨rfl, hmissing⟩ | hfound
  · rw [if_pos rfl] at h
    cases h
    exact .inl ⟨rfl, hmissing⟩
  rw [if_neg hfound.ne] at h
  obtain ⟨t, ht, hrefers⟩ := hfound.derives
  exact binaryLoop_sound hround fuel h hfound.toExtends hfound.error hfound.stops
    ⟨t, .next ht, hrefers⟩

/-- A level without operators of its own hands over to the next one. -/
theorem Outcome.of_next (lvl : Level) (hop : ∀ type, lvl.opOf type = none)
    (h : Outcome inp lvl.next s i s') :
    Outcome inp lvl s i s' := by
  rcases h with hmissing | hfound
  · exact .inl hmissing
  · obtain ⟨t, ht, hrefers⟩ := hfound.derives
    exact .inr ⟨hfound.toExtends, hfound.error, hfound.stops.of_next (hop _), t, .next ht, hrefers⟩

/-! ### The levels -/

section Levels

variable {rec : Prog Parser Halt ℤ} (hrec : Sound inp .or rec) (fuel : ℕ)
include hrec

theorem parseUnary_sound : Sound inp .unary (parseUnary inp rec) := by
  intro s i s' h
  simp only [parseUnary, currentIs_bind, beq_iff_eq] at h
  split at h
  next hminus =>
    exact parsePrefix_sound (parsePrimary_sound hrec)
      (fun type hstops => @Level.Stops.of_next .unary _ hstops rfl)
      (fun _ _ => .negate hminus) h
  next => exact Outcome.of_next .unary (fun _ => rfl) (parsePrimary_sound hrec _ _ _ h)

theorem parseMultiplyDivide_sound :
    Sound inp .multiplicative (parseMultiplyDivide inp rec fuel) :=
  parseBinary_sound (binaryRound_sound .multiplicative (parseUnary_sound hrec))
    (parseUnary_sound hrec) fuel

theorem parseAddSubstract_sound : Sound inp .additive (parseAddSubstract inp rec fuel) :=
  parseBinary_sound (binaryRound_sound .additive (parseMultiplyDivide_sound hrec fuel))
    (parseMultiplyDivide_sound hrec fuel) fuel

theorem parseComparison_sound : Sound inp .comparison (parseComparison inp rec fuel) :=
  parseBinary_sound (comparisonRound_sound (parseAddSubstract_sound hrec fuel))
    (parseAddSubstract_sound hrec fuel) fuel

theorem parseNot_sound : Sound inp .not (parseNot inp rec fuel) := by
  intro s i s' h
  simp only [parseNot, currentIs_bind, beq_iff_eq] at h
  split at h
  next hnot =>
    exact parsePrefix_sound (parseComparison_sound hrec fuel)
      (fun type hstops => @Level.Stops.of_next .not _ hstops rfl)
      (fun _ _ => .not hnot) h
  next =>
    exact Outcome.of_next .not (fun _ => rfl) (parseComparison_sound hrec fuel _ _ _ h)

theorem parseAnd_sound : Sound inp .and (parseAnd inp rec fuel) :=
  parseBinary_sound (binaryRound_sound .and (parseNot_sound hrec fuel))
    (parseNot_sound hrec fuel) fuel

end Levels

/-- An expression that the parser returns is one that the tokens it has passed derive. -/
theorem parseExpression_sound : ∀ fuel, Sound inp .or (parseExpression inp fuel)
  | 0 => fun _ _ _ h => by cases h
  | fuel + 1 =>
    parseBinary_sound
      (binaryRound_sound .or (parseAnd_sound (parseExpression_sound fuel) fuel))
      (parseAnd_sound (parseExpression_sound fuel) fuel) fuel

end Parser

end MicroSql
