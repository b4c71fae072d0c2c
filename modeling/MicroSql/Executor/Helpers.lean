import MicroSql.Storage.Row
import MicroSql.Lib.Except

/-!
# Values, expressions and rows of statements

`executor/executor_helpers.cpp`: comparing and combining values, evaluating
expressions and conditions, and the rows that INSERT and UPDATE build.

The two evaluators follow indices into the arena of the statement.  Their recursion
is bounded by the size of the arena: a path that visits more nodes than there are
meets one of them twice, and then the source recurses for ever.
-/

namespace MicroSql

open Lib

/-- `ExecError` -/
inductive ExecError
  | tableSchemaNotFound | errorGettingData | typeMismatch | divisionByZero | invalidExpression
  | columnCountMismatch | notNullViolation | primaryKeyViolation | notImplemented
  | duplicateTable | internalError
  deriving DecidableEq, Repr

/-- `execErrorStr`: the text of an error. -/
def execErrorStr : ExecError → Str
  | .tableSchemaNotFound => str "table not found"
  | .errorGettingData => str "column not found"
  | .typeMismatch => str "type mismatch"
  | .divisionByZero => str "division by zero"
  | .invalidExpression => str "invalid expression"
  | .columnCountMismatch => str "column count mismatch"
  | .notNullViolation => str "NOT NULL constraint violated"
  | .primaryKeyViolation => str "duplicate primary key"
  | .notImplemented => str "not implemented"
  | .duplicateTable => str "duplicate table"
  | .internalError => str "internal error"

/-! ### Values -/

/-- `columnValue`: `row.at(indexOf(columns, name))`, where a name that is not found has
the index `-1`. -/
def columnValue (row : Row) (columns : List Str) (name : Str) : Expected ExecError Value :=
  match columns.idxOf? name with
  | none => .error (.error .errorGettingData)
  | some i => match row[i]? with
    | none => .error (.error .errorGettingData)
    | some v => .ok v

/-- `std::string::compare`, up to the size of the number: bytes are compared as
`unsigned char`. -/
def compareText (a b : Str) : ℤ := if a = b then 0 else if a < b then -1 else 1

/-- `compareValues`: the sign tells the order.  A NaN is greater than everything. -/
def compareValues : Value → Value → Expected ExecError ℤ
  | .int a, .int b => .ok (if a ≠ b then if a < b then -1 else 1 else 0)
  | .float a, .float b => .ok (if !a.eq b then if a.lt b then -1 else 1 else 0)
  | .text a, .text b => .ok (compareText a b)
  | _, _ => .error (.error .typeMismatch)

/-- The result of an operation on `int64_t`. -/
def int64Result (n : ℤ) : Expected ExecError Value :=
  if -2 ^ 63 ≤ n ∧ n < 2 ^ 63 then .ok (.int (Int64.ofInt n))
  else .error (.fault .signedOverflow)

/-- `applyArithmetic`: both operands have to be of one type, and TEXT can be added only. -/
def applyArithmetic : Value → Value → BinaryOperator → Expected ExecError Value
  | .int a, .int b, .add => int64Result (a.toInt + b.toInt)
  | .int a, .int b, .subtract => int64Result (a.toInt - b.toInt)
  | .int a, .int b, .multiply => int64Result (a.toInt * b.toInt)
  | .int a, .int b, .divide =>
    if b = 0 then .error (.error .divisionByZero) else int64Result (a.toInt.tdiv b.toInt)
  | .float a, .float b, .add => .ok (.float (a.add b))
  | .float a, .float b, .subtract => .ok (.float (a.sub b))
  | .float a, .float b, .multiply => .ok (.float (a.mul b))
  | .float a, .float b, .divide => .ok (.float (a.div b))
  | .text a, .text b, .add => .ok (.text (a ++ b))
  | _, _, _ => .error (.error .typeMismatch)

/-- `flipSignValue` -/
def flipSignValue : Value → Expected ExecError Value
  | .int a => int64Result (-a.toInt)
  | .float a => .ok (.float a.neg)
  | _ => .error (.error .typeMismatch)

/-- `flipBoolValue` -/
def flipBoolValue : Value → Expected ExecError Value
  | .bool b => .ok (.bool !b)
  | _ => .error (.error .typeMismatch)

/-! ### Expressions -/

/-- The operators that `evalExpr` applies. -/
def BinaryOperator.isArithmetic : BinaryOperator → Bool
  | .add | .subtract | .multiply | .divide => true
  | _ => false

/-- `evalExpr`, with a bound on the depth of the recursion. -/
def evalExprFuel (pr : ParseResult) (row : Row) (columns : List Str) :
    ℕ → Expression → Expected ExecError Value
  | 0, _ => .error (.fault .stackOverflow)
  | fuel + 1, expr =>
    match expr with
    | .literalBool b => .ok (.bool b)
    | .literalInt n => .ok (.int n)
    | .literalFloat d => .ok (.float d)
    | .literalText s => .ok (.text s)
    | .literalNull _ => .ok .null
    | .columnRef tablePrefix name =>
      if tablePrefix = [] then columnValue row columns name
      else .error (.error .notImplemented)
    | .binary op leftIndex rightIndex => do
      let left ← evalExprFuel pr row columns fuel (← pr.expression leftIndex)
      let right ← evalExprFuel pr row columns fuel (← pr.expression rightIndex)
      if op.isArithmetic then applyArithmetic left right op
      else .error (.error .invalidExpression)
    | .unary op operandIndex => do
      let value ← evalExprFuel pr row columns fuel (← pr.expression operandIndex)
      match op with
      | .negate => flipSignValue value
      | .not => flipBoolValue value
    | .star => .error (.error .invalidExpression)

/-- `evalExpr`.  A tree in the arena is not deeper than the arena is long. -/
def evalExpr (pr : ParseResult) (row : Row) (columns : List Str) (expr : Expression) :
    Expected ExecError Value :=
  evalExprFuel pr row columns (pr.expressions.length + 1) expr

/-! ### Conditions -/

/-- What `evalWhere` makes of the values of a comparison. -/
def compareWhere (op : BinaryOperator) (left right : Value) : Expected ExecError Bool :=
  match op with
  | .equal => .ok (left.eq right)
  | .notEqual => .ok !(left.eq right)
  | .lessThan => do return (← compareValues left right) < 0
  | .lessThanOrEqual => do return (← compareValues left right) ≤ 0
  | .greaterThan => do return (← compareValues left right) > 0
  | .greaterThanOrEqual => do return (← compareValues left right) ≥ 0
  | .is =>
    if left = .null ∧ right = .null then .ok true
    else if left = .null ∨ right = .null then .ok false
    else .ok (left.eq right)
  | .isNot =>
    if left = .null ∧ right = .null then .ok false
    else if left = .null ∨ right = .null then .ok true
    else .ok !(left.eq right)
  | _ => .error (.error .notImplemented)

/-- `evalWhere`, with a bound on the depth of the recursion.  Both operands are looked
up before the operator; anything but a binary expression passes. -/
def evalWhereFuel (pr : ParseResult) (row : Row) (columns : List Str) :
    ℕ → Expression → Expected ExecError Bool
  | 0, _ => .error (.fault .stackOverflow)
  | fuel + 1, expr =>
    match expr with
    | .binary op leftIndex rightIndex => do
      let left ← pr.expression leftIndex
      let right ← pr.expression rightIndex
      match op with
      | .and => do
        let leftResult ← evalWhereFuel pr row columns fuel left
        let rightResult ← evalWhereFuel pr row columns fuel right
        return leftResult && rightResult
      | .or => do
        let leftResult ← evalWhereFuel pr row columns fuel left
        let rightResult ← evalWhereFuel pr row columns fuel right
        return leftResult || rightResult
      | op => do
        let leftValue ← evalExpr pr row columns left
        let rightValue ← evalExpr pr row columns right
        compareWhere op leftValue rightValue
    | _ => .ok true

/-- `evalWhere`.  A tree in the arena is not deeper than the arena is long. -/
def evalWhere (pr : ParseResult) (row : Row) (columns : List Str) (expr : Expression) :
    Expected ExecError Bool :=
  evalWhereFuel pr row columns (pr.expressions.length + 1) expr

/-! ### The arena -/

section Arena

variable {pr pr' : ParseResult} (h : pr.expressions = pr'.expressions)

include h

theorem expression_congr {E : Type} (i : ℤ) :
    (pr.expression i : Expected E Expression) = pr'.expression i := by
  rw [ParseResult.expression, ParseResult.expression, h]

/-- The evaluators see nothing of a statement but its expressions. -/
theorem evalExprFuel_congr (row : Row) (columns : List Str) (fuel : ℕ) (expr : Expression) :
    evalExprFuel pr row columns fuel expr = evalExprFuel pr' row columns fuel expr := by
  induction fuel generalizing expr with
  | zero => rfl
  | succ fuel ih => cases expr <;> simp only [evalExprFuel, ih, expression_congr h]

theorem evalWhereFuel_congr (row : Row) (columns : List Str) (fuel : ℕ) (expr : Expression) :
    evalWhereFuel pr row columns fuel expr = evalWhereFuel pr' row columns fuel expr := by
  induction fuel generalizing expr with
  | zero => rfl
  | succ fuel ih =>
    cases expr <;>
      simp only [evalWhereFuel, evalExpr, ih, expression_congr h, evalExprFuel_congr h, h]

theorem evalWhere_congr (row : Row) (columns : List Str) (expr : Expression) :
    evalWhere pr row columns expr = evalWhere pr' row columns expr := by
  rw [evalWhere, evalWhere, evalWhereFuel_congr h, h]

end Arena

/-! ### The rows of statements -/

/-- The value of expression `index` in a place where no column can be named. -/
def insertValue (pr : ParseResult) (index : ℤ) : Expected ExecError Value := do
  evalExpr pr [] [] (← pr.expression index)

/-- The value that an INSERT with a column list gives to column `col`. -/
def insertColumn (pr : ParseResult) (col : ColumnDefinition) : Expected ExecError Value :=
  match pr.statement.insertColumnNames.idxOf? col.name with
  | some pos =>
    match pr.statement.insertValues[pos]? with
    | none => .error (.fault .outOfBounds)
    | some index => insertValue pr index
  | none => if col.notNull then .error (.error .notNullViolation) else .ok .null

/-- `rowFromInsertValues`: the values as they are given, or one for each column of the table. -/
def rowFromInsertValues (pr : ParseResult) (columns : List ColumnDefinition) :
    Expected ExecError Row :=
  if pr.statement.insertColumnNames = [] then pr.statement.insertValues.mapM (insertValue pr)
  else columns.mapM (insertColumn pr)

/-- One assignment: the value is computed from the old row. -/
def assign (pr : ParseResult) (row : Row) (columnNames : List Str) (updated : Row)
    (assignment : Str × ℤ) : Expected ExecError Row := do
  match columnNames.idxOf? assignment.1 with
  | none => .error (.error .errorGettingData)
  | some colIdx =>
    let value ← evalExpr pr row columnNames (← pr.expression assignment.2)
    if colIdx < updated.length then return updated.set colIdx value
    else .error (.fault .outOfBounds)

/-- `rowFromUpdate`: the assignments from left to right. -/
def rowFromUpdate (row : Row) (assignments : List (Str × ℤ)) (pr : ParseResult)
    (columnNames : List Str) : Expected ExecError Row :=
  assignments.foldlM (assign pr row columnNames) row

end MicroSql
