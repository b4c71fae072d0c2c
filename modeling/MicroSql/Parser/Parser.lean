import MicroSql.Ast.Statement
import MicroSql.Lexer.Token
import MicroSql.Lib.Prog

/-!
# The parser of expressions

`parser/parser.h` and the first half of `parser/parser.cpp`.  The eight functions of the
expression grammar call each other in a ring that only a parenthesis closes: `parseExpression`
is given a number of rounds, for itself and for the loops below it, and the functions between
it and `parsePrimary` are given the `parseExpression` that a parenthesis calls.
-/

namespace MicroSql

open Lib

/-- What the parser reads: the tokens, of which there is one, the conversion of float literals,
and the text lengths of the columns that are not `TEXT`, which the source leaves without a
value. -/
structure Input where
  tokens : List Token
  nonempty : tokens ≠ []
  /-- `std::stof` -/
  stof : Str → Except Halt Double
  textLength : ℕ → Int32

namespace Input

theorem length_pos (inp : Input) : 0 < inp.tokens.length :=
  List.length_pos_iff.2 inp.nonempty

/-- The token at a position, which is the last one past the end. -/
def token (inp : Input) (position : ℕ) : Token :=
  inp.tokens.get ⟨min position (inp.tokens.length - 1), by have := inp.length_pos; omega⟩

end Input

/-- The state of the parser: the position among the tokens, and the result so far. -/
structure Parser where
  position : ℕ := 0
  result : ParseResult := { expressions := [], statement := { kind := .select } }
  deriving DecidableEq, Repr

/-- `std::stoi` -/
def stoi (s : Str) : Except Halt ℤ :=
  match Catalog.stoi (s.dropWhile Catalog.isSpace) with
  | .ok n => .ok n
  | .error _ => .error (.fault .uncaughtException)

/-- The start of the messages. -/
def syntaxError (line : ℤ) : Str := str "Syntax error at line " ++ str (toString line) ++ str ": "

@[simp] theorem syntaxError_ne_nil (line : ℤ) : syntaxError line ≠ [] := by
  have hstart : str "Syntax error at line " ≠ [] := by decide
  simp [syntaxError, hstart]

/-- The end of most messages. -/
def butFound (token : Token) : Str := str " but found '" ++ token.value ++ str "'"

namespace Parser

variable (inp : Input)

/-- `current` -/
def current : Prog Parser Halt Token := .gets fun p => inp.token p.position

/-- `peek` -/
def peek : Prog Parser Halt Token := .gets fun p => inp.token (p.position + 1)

/-- `advance` -/
def advance : Prog Parser Halt Unit := .modify fun p => { p with position := p.position + 1 }

/-- `currentIs` -/
def currentIs (type : TokenType) : Prog Parser Halt Bool := do
  return (← current inp).type == type

/-- `peekIs` -/
def peekIs (type : TokenType) : Prog Parser Halt Bool := do
  return (← peek inp).type == type

/-- `result.error = text` -/
def setError (text : Str) : Prog Parser Halt Unit :=
  .modify fun p => { p with result := { p.result with error := text } }

/-- `if (result.error.empty()) result.error = text` -/
def setErrorIfEmpty (text : Str) : Prog Parser Halt Unit :=
  .modify fun p =>
    if p.result.error = [] then { p with result := { p.result with error := text } } else p

/-- Set fields of `result.statement`. -/
def setStatement (f : Statement → Statement) : Prog Parser Halt Unit :=
  .modify fun p => { p with result := { p.result with statement := f p.result.statement } }

/-- `result.expressions.push_back(expr)`, with the index of the new node. -/
def push (expr : Expression) : Prog Parser Halt ℤ := do
  let index ← .gets fun p => (p.result.expressions.length : ℤ)
  .modify fun p =>
    { p with result := { p.result with expressions := p.result.expressions ++ [expr] } }
  return index

/-! ### Running the small functions -/

section Running

variable {inp} {α : Type} (s : Parser)

@[simp] theorem current_bind (k : Token → Prog Parser Halt α) :
    (current inp >>= k) s = k (inp.token s.position) s := rfl

@[simp] theorem peek_bind (k : Token → Prog Parser Halt α) :
    (peek inp >>= k) s = k (inp.token (s.position + 1)) s := rfl

@[simp] theorem advance_bind (k : Unit → Prog Parser Halt α) :
    (advance >>= k) s = k () { s with position := s.position + 1 } := rfl

@[simp] theorem currentIs_bind (type : TokenType) (k : Bool → Prog Parser Halt α) :
    (currentIs inp type >>= k) s = k ((inp.token s.position).type == type) s := rfl

@[simp] theorem peekIs_bind (type : TokenType) (k : Bool → Prog Parser Halt α) :
    (peekIs inp type >>= k) s = k ((inp.token (s.position + 1)).type == type) s := rfl

@[simp] theorem setError_bind (text : Str) (k : Unit → Prog Parser Halt α) :
    (setError text >>= k) s = k () { s with result := { s.result with error := text } } := rfl

@[simp] theorem setStatement_bind (f : Statement → Statement) (k : Unit → Prog Parser Halt α) :
    (setStatement f >>= k) s =
      k () { s with result := { s.result with statement := f s.result.statement } } := rfl

theorem setErrorIfEmpty_apply (text : Str) :
    setErrorIfEmpty text s = (.ok (), if s.result.error = [] then
      { s with result := { s.result with error := text } } else s) := rfl

theorem push_apply (expr : Expression) :
    push expr s = (.ok s.result.expressions.length,
      { s with result := { s.result with expressions := s.result.expressions ++ [expr] } }) := rfl

end Running

/-! ### Expected tokens -/

/-- `consume`: a token of the given type is passed, and any other one is reported. -/
def consume (type : TokenType) (name : Str) : Prog Parser Halt Bool := do
  let token ← current inp
  if token.type = type then do
    advance
    return true
  else do
    setError (syntaxError token.line ++ str "expected '" ++ name ++ str "'" ++ butFound token)
    return false

/-- `consumeIdentifier`, with the name instead of an output parameter. -/
def consumeIdentifier (context : Str) : Prog Parser Halt (Option Str) := do
  let token ← current inp
  if token.type = .identifier then do
    advance
    return some token.value
  else do
    setError (syntaxError token.line ++ str "expected " ++ context ++ butFound token)
    return none

/-! ### Primary expressions and unary operators -/

/-- A literal of one token. -/
def parseLiteral (expr : Expression) : Prog Parser Halt ℤ := do
  let index ← push expr
  advance
  return index

/-- A column, with the name of its table if there is one. -/
def parseColumn : Prog Parser Halt ℤ := do
  let name ← current inp
  if (← peek inp).type = .dot then do
    advance
    let column ← peek inp
    if column.type = .identifier then do
      advance
      parseLiteral (.columnRef name.value column.value)
    else do
      setError (str "Expected column name after '.' but found '" ++ column.value ++
        str "' at line " ++ str (toString (← current inp).line))
      return -1
  else parseLiteral (.columnRef [] name.value)

/-- An expression in parentheses. -/
def parseParen (parseExpression : Prog Parser Halt ℤ) : Prog Parser Halt ℤ := do
  advance
  let index ← parseExpression
  if index = -1 then return -1
  else do
    let token ← current inp
    if token.type = .rightParen then do
      advance
      return index
    else do
      setError (syntaxError token.line ++ str "expected ')'" ++ butFound token)
      return -1

/-- `parsePrimary` -/
def parsePrimary (parseExpression : Prog Parser Halt ℤ) : Prog Parser Halt ℤ := do
  let token ← current inp
  match token.type with
  | .identifier => parseColumn inp
  | .integerLiteral => do
    let n ← .lift (stoi token.value)
    parseLiteral (.literalInt (Int64.ofInt n))
  | .floatLiteral => do
    let x ← .lift (inp.stof token.value)
    parseLiteral (.literalFloat x)
  | .stringLiteral => parseLiteral (.literalText token.value)
  | .tknull => parseLiteral (.literalNull token.value)
  | .true => parseLiteral (.literalBool true)
  | .false => parseLiteral (.literalBool false)
  | .leftParen => parseParen inp parseExpression
  | _ => return -1

/-- A prefix operator and its operand; the parser is at the operator. -/
def parsePrefix (op : UnaryOperator) (operand : Prog Parser Halt ℤ) : Prog Parser Halt ℤ := do
  advance
  let operandIndex ← operand
  if operandIndex = -1 then return -1
  else push (.unary op operandIndex)

/-- `parseUnary`: one minus sign at most. -/
def parseUnary (parseExpression : Prog Parser Halt ℤ) : Prog Parser Halt ℤ := do
  if ← currentIs inp .minus then parsePrefix .negate (parsePrimary inp parseExpression)
  else parsePrimary inp parseExpression

/-! ### Binary operators -/

/-- The loop of a level of binary operators.  One round either finds no operator of the level,
or passes one and its right operand, and returns the operator and the operand's index. -/
def binaryLoop (round : Prog Parser Halt (Option (BinaryOperator × ℤ))) :
    ℕ → ℤ → Prog Parser Halt ℤ
  | 0, _ => .fail .outOfFuel
  | fuel + 1, left => do
    match ← round with
    | none => return left
    | some (op, right) =>
      if right = -1 then return -1
      else do
        let left ← push (.binary op left right)
        binaryLoop round fuel left

section Rounds

variable {round : Prog Parser Halt (Option (BinaryOperator × ℤ))} {rounds : ℕ} {left : ℤ}
  {s s' : Parser}

theorem binaryLoop_stop (h : round s = (.ok none, s')) :
    binaryLoop round (rounds + 1) left s = (.ok left, s') := by
  rw [binaryLoop, Prog.bind_ok h]
  rfl

theorem binaryLoop_missing {op : BinaryOperator} (h : round s = (.ok (some (op, -1)), s')) :
    binaryLoop round (rounds + 1) left s = (.ok (-1), s') := by
  rw [binaryLoop, Prog.bind_ok h]
  rfl

/-- A round that finds an operator and its right operand pushes a node over them. -/
theorem binaryLoop_round {op : BinaryOperator} {right : ℤ}
    (h : round s = (.ok (some (op, right)), s')) (hright : right ≠ -1) :
    binaryLoop round (rounds + 1) left s =
      binaryLoop round rounds s'.result.expressions.length
        { s' with result := { s'.result with
            expressions := s'.result.expressions ++ [.binary op left right] } } := by
  rw [binaryLoop, Prog.bind_ok h]
  simp only [if_neg hright]
  exact Prog.bind_ok (push_apply s' _) _

end Rounds

/-- The first operand, then the loop. -/
def parseBinary (round : Prog Parser Halt (Option (BinaryOperator × ℤ)))
    (operand : Prog Parser Halt ℤ) (fuel : ℕ) : Prog Parser Halt ℤ := do
  let left ← operand
  if left = -1 then return -1
  else binaryLoop round fuel left

/-- The round of the levels whose operators are one token each. -/
def binaryRound (opOf : TokenType → Option BinaryOperator) (operand : Prog Parser Halt ℤ) :
    Prog Parser Halt (Option (BinaryOperator × ℤ)) := do
  match opOf (← current inp).type with
  | none => return none
  | some op => do
    advance
    let right ← operand
    return some (op, right)

/-- The operators of `parseMultiplyDivide`. -/
def multiplicative : TokenType → Option BinaryOperator
  | .star => some .multiply
  | .slash => some .divide
  | _ => none

/-- The operators of `parseAddSubstract`. -/
def additive : TokenType → Option BinaryOperator
  | .plus => some .add
  | .minus => some .subtract
  | _ => none

/-- The operator of `parseAnd`. -/
def conjunction : TokenType → Option BinaryOperator
  | .and => some .and
  | _ => none

/-- The operator of `parseExpression`. -/
def disjunction : TokenType → Option BinaryOperator
  | .or => some .or
  | _ => none

/-- `parseMultiplyDivide` -/
def parseMultiplyDivide (parseExpression : Prog Parser Halt ℤ) (fuel : ℕ) : Prog Parser Halt ℤ :=
  let parseUnary := parseUnary inp parseExpression
  parseBinary (binaryRound inp multiplicative parseUnary) parseUnary fuel

/-- `parseAddSubstract` -/
def parseAddSubstract (parseExpression : Prog Parser Halt ℤ) (fuel : ℕ) : Prog Parser Halt ℤ :=
  let parseMultiplyDivide := parseMultiplyDivide inp parseExpression fuel
  parseBinary (binaryRound inp additive parseMultiplyDivide) parseMultiplyDivide fuel

/-- The operators of `parseComparison`. -/
def comparison : TokenType → Option BinaryOperator
  | .equal => some .equal
  | .notEqual => some .notEqual
  | .lessThan => some .lessThan
  | .lessEq => some .lessThanOrEqual
  | .greaterThan => some .greaterThan
  | .greaterEq => some .greaterThanOrEqual
  | .is => some .is
  | _ => none

/-- The right operand of a comparison, whose operator the message names; a missing one is
reported. -/
def comparisonOperand (op : BinaryOperator) (operatorValue : Str) (operatorLine : ℤ)
    (operand : Prog Parser Halt ℤ) : Prog Parser Halt (Option (BinaryOperator × ℤ)) := do
  let right ← operand
  .when (right = -1) (setErrorIfEmpty (syntaxError operatorLine ++
    str "expected expression after '" ++ operatorValue ++ str "'"))
  return some (op, right)

/-- A round of the loop over comparisons, which looks for a `NOT` after `IS`. -/
def comparisonRound (operand : Prog Parser Halt ℤ) :
    Prog Parser Halt (Option (BinaryOperator × ℤ)) := do
  let token ← current inp
  match comparison token.type with
  | none => return none
  | some op => do
    let next ← peek inp
    if op = .is ∧ next.type = .not then do
      advance
      advance
      comparisonOperand .isNot (str "IS NOT") token.line operand
    else do
      advance
      comparisonOperand op token.value token.line operand

/-- `parseComparison` -/
def parseComparison (parseExpression : Prog Parser Halt ℤ) (fuel : ℕ) : Prog Parser Halt ℤ :=
  let parseAddSubstract := parseAddSubstract inp parseExpression fuel
  parseBinary (comparisonRound inp parseAddSubstract) parseAddSubstract fuel

/-- `parseNot`, whose loop returns in its first round. -/
def parseNot (parseExpression : Prog Parser Halt ℤ) (fuel : ℕ) : Prog Parser Halt ℤ := do
  if ← currentIs inp .not then parsePrefix .not (parseComparison inp parseExpression fuel)
  else parseComparison inp parseExpression fuel

/-- `parseAnd` -/
def parseAnd (parseExpression : Prog Parser Halt ℤ) (fuel : ℕ) : Prog Parser Halt ℤ :=
  let parseNot := parseNot inp parseExpression fuel
  parseBinary (binaryRound inp conjunction parseNot) parseNot fuel

/-- `parseExpression`: a call in parentheses has one round less. -/
def parseExpression : ℕ → Prog Parser Halt ℤ
  | 0 => .fail .outOfFuel
  | fuel + 1 =>
    let parseAnd := parseAnd inp (parseExpression fuel) fuel
    parseBinary (binaryRound inp disjunction parseAnd) parseAnd fuel

end Parser

end MicroSql
