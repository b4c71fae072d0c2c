import MicroSql.Parser.Parser
import MicroSql.Ast.Tree

/-!
# The grammar of expressions

The grammar that the parser documents, from `OR` down to the primary expressions: binary
operators are left-associative, the operand of `NOT` is a comparison and the operand of unary
minus a primary expression.  An expression stands between two positions of the input.
-/

namespace MicroSql

/-- The levels of the grammar, from the lowest precedence to the highest. -/
inductive Level
  | or | and | not | comparison | additive | multiplicative | unary | primary
  deriving DecidableEq, Repr

namespace Level

/-- The level of the operands. -/
def next : Level → Level
  | or => and
  | and => not
  | not => comparison
  | comparison => additive
  | additive => multiplicative
  | multiplicative => unary
  | unary => primary
  | primary => primary

/-- How tightly the operators of a level bind. -/
def rank : Level → ℕ
  | or => 0
  | and => 1
  | not => 2
  | comparison => 3
  | additive => 4
  | multiplicative => 5
  | unary => 6
  | primary => 7

/-- The binary operators of one token. -/
def opOf : Level → TokenType → Option BinaryOperator
  | or => Parser.disjunction
  | and => Parser.conjunction
  | comparison => Parser.comparison
  | additive => Parser.additive
  | multiplicative => Parser.multiplicative
  | _ => fun _ => none

/-- An expression of the level does not go on with such a token. -/
def Stops (lvl : Level) (type : TokenType) : Prop :=
  ∀ lvl' : Level, lvl.rank ≤ lvl'.rank → lvl'.opOf type = none

theorem rank_next (lvl : Level) : lvl.rank ≤ lvl.next.rank := by
  cases lvl <;> decide

theorem rank_injective {lvl lvl' : Level} (h : lvl.rank = lvl'.rank) : lvl = lvl' := by
  revert h
  cases lvl <;> cases lvl' <;> decide

theorem rank_next_of_lt {lvl lvl' : Level} (h : lvl.rank < lvl'.rank) :
    lvl.next.rank = lvl.rank + 1 := by
  cases lvl <;> first | rfl | (revert h; cases lvl' <;> decide)

theorem opOf_ne_dot {lvl : Level} {type : TokenType} {op : BinaryOperator}
    (h : lvl.opOf type = some op) : type ≠ .dot := by
  rintro rfl
  cases lvl <;> cases h

theorem Stops.next {lvl : Level} {type : TokenType} (h : lvl.Stops type) :
    lvl.next.Stops type := fun lvl' hle => h lvl' (lvl.rank_next.trans hle)

theorem Stops.opOf {lvl : Level} {type : TokenType} (h : lvl.Stops type) :
    lvl.opOf type = none := h lvl le_rfl

theorem Stops.of_next {lvl : Level} {type : TokenType} (h : lvl.next.Stops type)
    (hop : lvl.opOf type = none) : lvl.Stops type := by
  intro lvl' hle
  by_cases heq : lvl' = lvl
  · rw [heq, hop]
  · refine h lvl' ?_
    revert hle heq
    cases lvl <;> cases lvl' <;> decide

/-- Each operator has one level. -/
theorem stops_of_opOf {lvl : Level} {type : TokenType} {op : BinaryOperator}
    (h : lvl.opOf type = some op) : lvl.next.Stops type := by
  unfold Stops
  cases lvl <;> cases type <;> cases h <;> intro lvl' <;> cases lvl' <;> decide

theorem stops_primary (type : TokenType) : primary.Stops type := by
  intro lvl' hle
  revert hle
  cases lvl' <;> simp [rank, opOf]

end Level

namespace Input

variable (inp : Input)

/-- A binary operator of the level stands between the two positions. -/
inductive Operator : Level → ℕ → ℕ → BinaryOperator → Prop
  | single {lvl : Level} {p : ℕ} {op : BinaryOperator}
      (h : lvl.opOf (inp.token p).type = some op) : Operator lvl p (p + 1) op
  | isNot {p : ℕ} (his : (inp.token p).type = .is) (hnot : (inp.token (p + 1)).type = .not) :
      Operator .comparison p (p + 2) .isNot

/-- A column or a literal stands between the two positions. -/
inductive Leaf : ℕ → ℕ → Expression → Prop
  | column {p : ℕ} (h : (inp.token p).type = .identifier) :
      Leaf p (p + 1) (.columnRef [] (inp.token p).value)
  | qualified {p : ℕ} (h : (inp.token p).type = .identifier)
      (hdot : (inp.token (p + 1)).type = .dot)
      (hcolumn : (inp.token (p + 2)).type = .identifier) :
      Leaf p (p + 3) (.columnRef (inp.token p).value (inp.token (p + 2)).value)
  | int {p : ℕ} {n : ℤ} (h : (inp.token p).type = .integerLiteral)
      (hn : stoi (inp.token p).value = .ok n) : Leaf p (p + 1) (.literalInt (Int64.ofInt n))
  | float {p : ℕ} {x : Double} (h : (inp.token p).type = .floatLiteral)
      (hx : inp.stof (inp.token p).value = .ok x) : Leaf p (p + 1) (.literalFloat x)
  | text {p : ℕ} (h : (inp.token p).type = .stringLiteral) :
      Leaf p (p + 1) (.literalText (inp.token p).value)
  | null {p : ℕ} (h : (inp.token p).type = .tknull) :
      Leaf p (p + 1) (.literalNull (inp.token p).value)
  | true {p : ℕ} (h : (inp.token p).type = .true) : Leaf p (p + 1) (.literalBool true)
  | false {p : ℕ} (h : (inp.token p).type = .false) : Leaf p (p + 1) (.literalBool false)

/-- An expression of the level stands between the two positions. -/
inductive Derives : Level → ℕ → ℕ → Tree → Prop
  | next {lvl : Level} {p q : ℕ} {t : Tree} (h : Derives lvl.next p q t) : Derives lvl p q t
  | binary {lvl : Level} {p q r s : ℕ} {op : BinaryOperator} {left right : Tree}
      (hleft : Derives lvl p q left) (hop : inp.Operator lvl q r op)
      (hright : Derives lvl.next r s right) : Derives lvl p s (.binary op left right)
  | not {p q : ℕ} {t : Tree} (hnot : (inp.token p).type = .not)
      (h : Derives .comparison (p + 1) q t) : Derives .not p q (.unary .not t)
  | negate {p q : ℕ} {t : Tree} (hminus : (inp.token p).type = .minus)
      (h : Derives .primary (p + 1) q t) : Derives .unary p q (.unary .negate t)
  | leaf {p q : ℕ} {expr : Expression} (h : inp.Leaf p q expr) :
      Derives .primary p q (.leaf expr)
  | paren {p q : ℕ} {t : Tree} (hopen : (inp.token p).type = .leftParen)
      (h : Derives .or (p + 1) q t) (hclose : (inp.token q).type = .rightParen) :
      Derives .primary p (q + 1) t

variable {inp} {lvl : Level} {p q : ℕ}

theorem Operator.lt {op : BinaryOperator} (h : inp.Operator lvl p q op) : p < q := by
  cases h <;> omega

theorem Leaf.lt {expr : Expression} (h : inp.Leaf p q expr) : p < q := by
  cases h <;> omega

theorem Leaf.isLeaf {expr : Expression} (h : inp.Leaf p q expr) : expr.isLeaf = Bool.true := by
  cases h <;> rfl

/-- An expression has at least one token. -/
theorem Derives.lt {t : Tree} (h : inp.Derives lvl p q t) : p < q := by
  induction h with
  | next _ ih => exact ih
  | binary _ hop _ ihl ihr =>
    have := hop.lt
    omega
  | not _ _ ih => omega
  | negate _ _ ih => omega
  | leaf h => exact h.lt
  | paren _ _ _ ih => omega

/-- The left operand of an operator stops before it. -/
theorem Operator.stops {op : BinaryOperator} (h : inp.Operator lvl p q op) :
    lvl.next.Stops (inp.token p).type ∧ (inp.token p).type ≠ .dot := by
  cases h with
  | single h => exact ⟨Level.stops_of_opOf h, Level.opOf_ne_dot h⟩
  | isNot his =>
    rw [his]
    exact ⟨@Level.stops_of_opOf .comparison _ .is rfl, by simp⟩

/-! ### The first token -/

theorem Leaf.first_ne {expr : Expression} (h : inp.Leaf p q expr) :
    (inp.token p).type ≠ .not ∧ (inp.token p).type ≠ .minus := by
  cases h <;> simp_all

theorem Derives.first_ne_minus {t : Tree} (h : inp.Derives lvl p q t) (hlvl : lvl = .primary) :
    (inp.token p).type ≠ .minus := by
  induction h with
  | next _ ih => exact ih (by rw [hlvl]; rfl)
  | binary _ _ _ ih => exact ih hlvl
  | not => cases hlvl
  | negate => cases hlvl
  | leaf h => exact h.first_ne.2
  | paren hopen => simp [hopen]

/-- Below a comparison, only a parenthesis brings a `NOT`. -/
theorem Derives.first_ne_not {t : Tree} (h : inp.Derives lvl p q t)
    (hlvl : Level.comparison.rank ≤ lvl.rank) : (inp.token p).type ≠ .not := by
  induction h with
  | next _ ih => exact ih (hlvl.trans (Level.rank_next _))
  | binary _ _ _ ih => exact ih hlvl
  | not => exact absurd hlvl (by decide)
  | negate hminus => simp [hminus]
  | leaf h => exact h.first_ne.1
  | paren hopen => simp [hopen]

/-- The tokens that an expression begins with. -/
def starts : List TokenType :=
  [.identifier, .integerLiteral, .floatLiteral, .stringLiteral, .tknull, .true, .false,
    .leftParen, .minus, .not]

theorem Derives.first {t : Tree} (h : inp.Derives lvl p q t) : (inp.token p).type ∈ starts := by
  induction h with
  | next _ ih => exact ih
  | binary _ _ _ ih => exact ih
  | not hnot => simp [hnot, starts]
  | negate hminus => simp [hminus, starts]
  | leaf h => cases h <;> simp_all [starts]
  | paren hopen => simp [hopen, starts]

theorem Derives.first_ne_dot {t : Tree} (h : inp.Derives lvl p q t) :
    (inp.token p).type ≠ .dot := by
  intro hdot
  have hfirst := h.first
  rw [hdot] at hfirst
  exact absurd hfirst (by decide)

/-- An expression of a level is one of every lower level. -/
theorem Derives.lower {lvl' : Level} {t : Tree} (hle : lvl.rank ≤ lvl'.rank)
    (h : inp.Derives lvl' p q t) : inp.Derives lvl p q t := by
  have hstep : ∀ n (lvl : Level), lvl'.rank - lvl.rank = n → lvl.rank ≤ lvl'.rank →
      inp.Derives lvl p q t := by
    intro n
    induction n with
    | zero =>
      intro lvl hn hle
      rwa [Level.rank_injective (show lvl.rank = lvl'.rank by omega)]
    | succ n ih =>
      intro lvl hn hle
      have hnext := Level.rank_next_of_lt (show lvl.rank < lvl'.rank by omega)
      exact .next (ih lvl.next (by omega) (by omega))
  exact hstep _ lvl rfl hle

end Input

end MicroSql
