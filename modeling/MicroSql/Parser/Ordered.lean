import MicroSql.Executor.Ordered
import MicroSql.Parser.InsertValues
import MicroSql.Parser.Walk

/-!
# The arena of the parser

A call for an expression returns the index of a root that it has pushed itself, or `-1`; the
roots of a call that fails stay in the arena, and nothing refers to them.  Every node is pushed
over roots, so that the arena is a forest throughout, whatever the tokens are.
-/

namespace MicroSql

open Lib Prog

namespace Parser

/-- The arena `xs` has grown to the forest `ys`, where `i` is a new root unless it is `-1`. -/
structure Built (xs : List Expression) (i : ℤ) (ys : List Expression) : Prop where
  forest : Forest Expression.operands ys
  grows : Grows Expression.operands xs ys
  root : i ≠ -1 → (xs.length : ℤ) ≤ i ∧ IsRoot Expression.operands ys i

namespace Built

variable {xs ys zs : List Expression} {i j : ℤ} {x : Expression}

theorem missing (h : Forest Expression.operands xs) : Built xs (-1) xs :=
  ⟨h, .refl, fun hne => absurd rfl hne⟩

/-- What has been built is given up. -/
theorem abandon (h : Built xs i ys) : Built xs (-1) ys :=
  ⟨h.forest, h.grows, fun hne => absurd rfl hne⟩

theorem after (hgrows : Grows Expression.operands xs ys) (h : Built ys i zs) : Built xs i zs where
  forest := h.forest
  grows := hgrows.trans h.grows
  root := by
    intro hne
    obtain ⟨hle, hroot⟩ := h.root hne
    have := hgrows.length_le
    exact ⟨by omega, hroot⟩

/-- A node is pushed over new roots. -/
theorem push (hforest : Forest Expression.operands ys) (hgrows : Grows Expression.operands xs ys)
    (hnodup : x.operands.Nodup)
    (hnew : ∀ j ∈ x.operands, (xs.length : ℤ) ≤ j ∧ IsRoot Expression.operands ys j) :
    Built xs ys.length (ys ++ [x]) where
  forest := hforest.push hnodup fun j hj => (hnew j hj).2
  grows := hgrows.push fun j hj => (hnew j hj).1
  root := by
    intro _
    have := hgrows.length_le
    exact ⟨by omega, .push_self hforest fun j hj => (hnew j hj).2⟩

theorem leaf (h : Forest Expression.operands xs) (hleaf : x.operands = []) :
    Built xs xs.length (xs ++ [x]) := by
  refine push h .refl ?_ ?_
  · rw [hleaf]
    exact List.nodup_nil
  · rw [hleaf]
    exact nofun

theorem unary (h : Built xs i ys) (hi : i ≠ -1) (op : UnaryOperator) :
    Built xs ys.length (ys ++ [.unary op i]) := by
  refine push h.forest h.grows (List.nodup_singleton i) fun j hj => ?_
  obtain rfl : j = i := List.mem_singleton.1 hj
  exact h.root hi

/-- The left operand is below the arena that the right one is built on. -/
theorem binary (hleft : Built xs i ys) (hright : Built ys j zs) (hi : i ≠ -1) (hj : j ≠ -1)
    (op : BinaryOperator) : Built xs zs.length (zs ++ [.binary op i j]) := by
  obtain ⟨hile, hiroot⟩ := hleft.root hi
  obtain ⟨hjle, hjroot⟩ := hright.root hj
  have hlt := hiroot.lt_length
  have hle := hleft.grows.length_le
  refine push hright.forest (hleft.grows.trans hright.grows) ?_ fun k hk => ?_
  · have hne : i ≠ j := by omega
    simpa [Expression.operands] using hne
  · rcases List.mem_pair.1 hk with rfl | rfl
    · exact ⟨hile, hiroot.grows hright.grows⟩
    · exact ⟨by omega, hjroot⟩

end Built

/-- Every call that returns leaves a forest, and returns a root. -/
def Builds (c : Prog Parser Halt ℤ) : Prop :=
  ∀ s i s', Forest Expression.operands s.result.expressions → c s = (.ok i, s') →
    Built s.result.expressions i s'.result.expressions

variable {inp : Input} {s s' : Parser} {i : ℤ}

/-! ### Primary expressions -/

theorem parseLiteral_builds {expr : Expression} (hleaf : expr.operands = []) :
    Builds (parseLiteral expr) := by
  intro s i s' hs h
  rw [parseLiteral, bind_apply, push_apply] at h
  cases h
  exact .leaf hs hleaf

theorem parseColumn_builds : Builds (parseColumn inp) := by
  intro s i s' hs h
  rw [parseColumn, current_bind, peek_bind] at h
  by_cases hdot : (inp.token (s.position + 1)).type = .dot
  · rw [if_pos hdot, advance_bind, peek_bind] at h
    by_cases hcol : (inp.token (s.position + 1 + 1)).type = .identifier
    · rw [if_pos hcol, advance_bind] at h
      exact parseLiteral_builds (by rfl) { s with position := s.position + 1 + 1 } i s' hs h
    · rw [if_neg hcol] at h
      cases h
      exact .missing hs
  · rw [if_neg hdot] at h
    exact parseLiteral_builds (by rfl) s i s' hs h

theorem parseParen_builds {rec : Prog Parser Halt ℤ} (hrec : Builds rec) :
    Builds (parseParen inp rec) := by
  intro s i s' hs h
  rw [parseParen, advance_bind] at h
  obtain ⟨index, s₁, hindex, h⟩ := bind_eq_ok.1 h
  have hbuilt := hrec { s with position := s.position + 1 } index s₁ hs hindex
  by_cases hmissing : index = -1
  · rw [if_pos hmissing] at h
    cases h
    exact hbuilt.abandon
  rw [if_neg hmissing, current_bind] at h
  by_cases hclose : (inp.token s₁.position).type = .rightParen
  · rw [if_pos hclose] at h
    cases h
    exact hbuilt
  · -- the expression in the parentheses stays in the arena
    rw [if_neg hclose] at h
    cases h
    exact hbuilt.abandon

theorem parsePrimary_builds {rec : Prog Parser Halt ℤ} (hrec : Builds rec) :
    Builds (parsePrimary inp rec) := by
  intro s i s' hs h
  rw [parsePrimary, current_bind] at h
  have hlit : ∀ {expr : Expression}, expr.operands = [] → parseLiteral expr s = (.ok i, s') →
      Built s.result.expressions i s'.result.expressions := fun hleaf h =>
    parseLiteral_builds hleaf s i s' hs h
  cases htype : (inp.token s.position).type
  case identifier => exact parseColumn_builds s i s' hs (by rwa [htype] at h)
  case integerLiteral =>
    rw [htype] at h
    obtain ⟨n, -, h⟩ := lift_bind_eq_ok.1 h
    exact hlit rfl h
  case floatLiteral =>
    rw [htype] at h
    obtain ⟨x, -, h⟩ := lift_bind_eq_ok.1 h
    exact hlit rfl h
  case stringLiteral | tknull | true | false => exact hlit rfl (by rwa [htype] at h)
  case leftParen => exact parseParen_builds hrec s i s' hs (by rwa [htype] at h)
  -- no other token begins a primary expression
  all_goals
    rw [htype] at h
    cases h
    exact .missing hs

/-! ### Operators -/

theorem parsePrefix_builds {op : UnaryOperator} {operand : Prog Parser Halt ℤ}
    (hoperand : Builds operand) : Builds (parsePrefix op operand) := by
  intro s i s' hs h
  rw [parsePrefix, advance_bind] at h
  obtain ⟨index, s₁, hindex, h⟩ := bind_eq_ok.1 h
  have hbuilt := hoperand { s with position := s.position + 1 } index s₁ hs hindex
  by_cases hmissing : index = -1
  · rw [if_pos hmissing] at h
    cases h
    exact hbuilt.abandon
  · rw [if_neg hmissing, push_apply] at h
    cases h
    exact hbuilt.unary hmissing op

/-- A round that finds no operator leaves the arena alone; one that finds an operator builds the
right operand. -/
def RoundBuilds (round : Prog Parser Halt (Option (BinaryOperator × ℤ))) : Prop :=
  ∀ s x s', Forest Expression.operands s.result.expressions → round s = (.ok x, s') →
    (x = none ∧ s' = s) ∨ ∃ op right, x = some (op, right) ∧
      Built s.result.expressions right s'.result.expressions

theorem binaryRound_builds (opOf : TokenType → Option BinaryOperator)
    {operand : Prog Parser Halt ℤ} (hoperand : Builds operand) :
    RoundBuilds (binaryRound inp opOf operand) := by
  intro s x s' hs h
  rw [binaryRound, current_bind] at h
  cases hop : opOf (inp.token s.position).type with
  | none =>
    rw [hop] at h
    cases h
    exact .inl ⟨rfl, rfl⟩
  | some op =>
    rw [hop] at h
    simp only [advance_bind] at h
    obtain ⟨right, s₁, hright, h⟩ := bind_eq_ok.1 h
    cases h
    exact .inr ⟨op, right, rfl,
      hoperand { s with position := s.position + 1 } right s' hs hright⟩

theorem comparisonOperand_builds {op : BinaryOperator} {operatorValue : Str} {operatorLine : ℤ}
    {operand : Prog Parser Halt ℤ} (hoperand : Builds operand)
    {x : Option (BinaryOperator × ℤ)} (hs : Forest Expression.operands s.result.expressions)
    (h : comparisonOperand op operatorValue operatorLine operand s = (.ok x, s')) :
    ∃ right, x = some (op, right) ∧ Built s.result.expressions right s'.result.expressions := by
  obtain ⟨right, s₁, hright, h⟩ := bind_eq_ok.1 h
  have hbuilt := hoperand s right s₁ hs hright
  obtain ⟨_, s₂, hreport, h⟩ := bind_eq_ok.1 h
  cases h
  refine ⟨right, rfl, ?_⟩
  rw [when_apply, setErrorIfEmpty_apply] at hreport
  split at hreport
  · cases hreport
    split
    · exact hbuilt
    · exact hbuilt
  · cases hreport
    exact hbuilt

theorem comparisonRound_builds {operand : Prog Parser Halt ℤ} (hoperand : Builds operand) :
    RoundBuilds (comparisonRound inp operand) := by
  intro s x s' hs h
  rw [comparisonRound, current_bind] at h
  cases hop : comparison (inp.token s.position).type with
  | none =>
    rw [hop] at h
    cases h
    exact .inl ⟨rfl, rfl⟩
  | some op =>
    rw [hop] at h
    simp only [peek_bind] at h
    by_cases hnot : op = .is ∧ (inp.token (s.position + 1)).type = .not
    · rw [if_pos hnot, advance_bind, advance_bind] at h
      obtain ⟨right, hx, hbuilt⟩ := comparisonOperand_builds hoperand (s := { s with
        position := s.position + 1 + 1 }) hs h
      exact .inr ⟨.isNot, right, hx, hbuilt⟩
    · rw [if_neg hnot, advance_bind] at h
      obtain ⟨right, hx, hbuilt⟩ := comparisonOperand_builds hoperand (s := { s with
        position := s.position + 1 }) hs h
      exact .inr ⟨op, right, hx, hbuilt⟩

/-- The loop, once there is a left operand: the node that a round pushes is the next one. -/
theorem binaryLoop_builds {round : Prog Parser Halt (Option (BinaryOperator × ℤ))}
    (hround : RoundBuilds round) {xs : List Expression} :
    ∀ (fuel : ℕ) {left : ℤ} {s s' : Parser} {i : ℤ}, Built xs left s.result.expressions →
      left ≠ -1 → binaryLoop round fuel left s = (.ok i, s') → Built xs i s'.result.expressions
  | 0, _, _, _, _, _, _, h => by cases h
  | fuel + 1, left, s, s', i, hleft, hne, h => by
    obtain ⟨x, s₁, hx, -⟩ := bind_eq_ok.1 h
    rcases hround s x s₁ hleft.forest hx with ⟨rfl, rfl⟩ | ⟨op, right, rfl, hright⟩
    · rw [binaryLoop_stop hx] at h
      cases h
      exact hleft
    by_cases hmissing : right = -1
    · subst hmissing
      rw [binaryLoop_missing hx] at h
      cases h
      exact .after hleft.grows hright
    · rw [binaryLoop_round hx hmissing] at h
      exact binaryLoop_builds hround fuel (hleft.binary hright hne hmissing op) (by omega) h

theorem parseBinary_builds {round : Prog Parser Halt (Option (BinaryOperator × ℤ))}
    {operand : Prog Parser Halt ℤ} (hround : RoundBuilds round) (hoperand : Builds operand)
    (fuel : ℕ) : Builds (parseBinary round operand fuel) := by
  intro s i s' hs h
  obtain ⟨left, s₁, hleft, h⟩ := bind_eq_ok.1 h
  have hbuilt := hoperand s left s₁ hs hleft
  by_cases hmissing : left = -1
  · rw [if_pos hmissing] at h
    cases h
    exact hbuilt.abandon
  · rw [if_neg hmissing] at h
    exact binaryLoop_builds hround fuel hbuilt hmissing h

/-! ### The levels -/

section Levels

variable {rec : Prog Parser Halt ℤ} (hrec : Builds rec) (fuel : ℕ)
include hrec

theorem parseUnary_builds : Builds (parseUnary inp rec) := by
  intro s i s' hs h
  rw [parseUnary, currentIs_bind] at h
  split at h
  · exact parsePrefix_builds (parsePrimary_builds hrec) s i s' hs h
  · exact parsePrimary_builds hrec s i s' hs h

theorem parseMultiplyDivide_builds : Builds (parseMultiplyDivide inp rec fuel) :=
  parseBinary_builds (binaryRound_builds multiplicative (parseUnary_builds hrec))
    (parseUnary_builds hrec) fuel

theorem parseAddSubstract_builds : Builds (parseAddSubstract inp rec fuel) :=
  parseBinary_builds (binaryRound_builds additive (parseMultiplyDivide_builds hrec fuel))
    (parseMultiplyDivide_builds hrec fuel) fuel

theorem parseComparison_builds : Builds (parseComparison inp rec fuel) :=
  parseBinary_builds (comparisonRound_builds (parseAddSubstract_builds hrec fuel))
    (parseAddSubstract_builds hrec fuel) fuel

theorem parseNot_builds : Builds (parseNot inp rec fuel) := by
  intro s i s' hs h
  rw [parseNot, currentIs_bind] at h
  split at h
  · exact parsePrefix_builds (parseComparison_builds hrec fuel) s i s' hs h
  · exact parseComparison_builds hrec fuel s i s' hs h

theorem parseAnd_builds : Builds (parseAnd inp rec fuel) :=
  parseBinary_builds (binaryRound_builds conjunction (parseNot_builds hrec fuel))
    (parseNot_builds hrec fuel) fuel

end Levels

/-- A call for an expression builds a tree over what is there, or gives up. -/
theorem parseExpression_builds : ∀ fuel, Builds (parseExpression inp fuel)
  | 0 => fun _ _ _ _ h => by cases h
  | fuel + 1 =>
    have hand := parseAnd_builds (parseExpression_builds fuel) fuel
    parseBinary_builds (binaryRound_builds disjunction hand) hand fuel

/-! ### The statements -/

/-- A property of the arena has nothing to do with the rest of the parser. -/
theorem arena_stable (A : List Expression → Prop) :
    StableFields fun s => A s.result.expressions where
  position := fun _ _ h => h
  error := fun _ _ h => h
  statement := fun _ _ _ h => h

/-- Only calls for expressions change the arena. -/
theorem parseStatement_keepsArena {A : List Expression → Prop} {fuel : ℕ}
    (hexpr : Preserves (fun s : Parser => A s.result.expressions) (parseExpression inp fuel)) :
    Preserves (fun s : Parser => A s.result.expressions) (parseStatement inp fuel) := by
  have hI := arena_stable A
  have hbegins : ∀ {kind : StatementKind} {c : Prog Parser Halt Unit},
      Begins (fun s => A s.result.expressions) kind c →
        Preserves (fun s : Parser => A s.result.expressions) c := fun hc => hc.spec fun _ h => h
  refine .bind current_preserves fun token => ?_
  cases token.type
  case select => exact hbegins (hI.parseSelect hexpr)
  case insert => exact hbegins (hI.parseInsert hexpr)
  case create =>
    exact .bind hI.advance fun _ => .bind current_preserves fun _ =>
      .ite (hbegins (hI.parseCreateTable fuel)) (.ite (hbegins hI.parseCreateIndex)
        (hI.setError _))
  case update => exact hbegins (hI.parseUpdate hexpr)
  case delete => exact hbegins (hI.parseDelete hexpr)
  case drop => exact hbegins hI.parseDrop
  all_goals exact hI.setError _

end Parser

/-! ### What is parsed -/

theorem parse_forest {inp : Input} {fuel : ℕ} {r : ParseResult} (h : parse fuel inp = .ok r) :
    Forest Expression.operands r.expressions := by
  have hkeeps : Preserves (fun s : Parser => Forest Expression.operands s.result.expressions)
      (Parser.parseStatement inp fuel) :=
    Parser.parseStatement_keepsArena <| .of_ok fun s i s' hs hrun =>
      (Parser.parseExpression_builds fuel s i s' hs hrun).forest
  unfold parse at h
  rcases hrun : Parser.parseStatement inp fuel {} with ⟨e | u, parser⟩
  · rw [hrun] at h
    cases h
  · rw [hrun] at h
    cases h
    exact hkeeps.ok .nil hrun

/-- Whatever the tokens are and with an error or without one, the expressions that are returned
come after their operands and share none, so that the evaluators end at every one of them. -/
theorem parse_ordered {inp : Input} {fuel : ℕ} {r : ParseResult} (h : parse fuel inp = .ok r) :
    r.Ordered ∧ r.EvaluatesTrees := by
  have hordered := ParseResult.ordered_of_forest (parse_forest h)
  exact ⟨hordered, hordered.evaluatesTrees⟩

/-- `INSERT INTO t VALUES (1 + -2);` -/
theorem parse_ordered_sample :
    (insertResult [.literalInt 1, .literalInt 2, .unary .negate 1, .binary .add 0 2] [3]).Ordered ∧
      (insertResult [.literalInt 1, .literalInt 2, .unary .negate 1,
        .binary .add 0 2] [3]).EvaluatesTrees :=
  parse_ordered (by rfl : parse 3 (insertInput [⟨.integerLiteral, str "1", 1⟩, ⟨.plus, str "+", 1⟩,
    ⟨.minus, str "-", 1⟩, ⟨.integerLiteral, str "2", 1⟩]) = .ok _)

end MicroSql
