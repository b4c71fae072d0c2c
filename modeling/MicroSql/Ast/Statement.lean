import MicroSql.Ast.Basic

/-!
# The abstract syntax

`ast/expression.h`, `ast/statement.h` and the `ParseResult` of `parser/parser.h`.
An expression is a node of an arena: its operands are indices into
`ParseResult.expressions`, signed as in the source, where `-1` stands for "none".
-/

namespace MicroSql

/-- `BinaryOperator` of the syntax tree. -/
inductive BinaryOperator
  | equal | notEqual | lessThan | lessThanOrEqual | greaterThan | greaterThanOrEqual
  | and | or | add | subtract | multiply | divide | is | isNot
  deriving DecidableEq, Repr

/-- `UnaryOperator` of the syntax tree. -/
inductive UnaryOperator
  | not | negate
  deriving DecidableEq, Repr

/-- An expression node.  The source keeps one record with a field for every kind;
each constructor here has the fields that its kind uses. -/
inductive Expression
  | literalInt (intValue : Int64)
  | literalFloat (floatValue : Double)
  | literalText (textValue : Str)
  | literalBool (boolValue : Bool)
  | literalNull (textValue : Str)
  | columnRef (tablePrefix columnName : Str)
  | binary (binaryOperator : BinaryOperator) (leftIndex rightIndex : ℤ)
  | unary (unaryOperator : UnaryOperator) (operandIndex : ℤ)
  | star
  deriving DecidableEq, Repr

/-- The `columnName` field, which is empty in every node but a column reference. -/
def Expression.columnName : Expression → Str
  | columnRef _ columnName => columnName
  | _ => []

/-- The types of columns. -/
inductive DataType
  | integer | float | text | boolean
  deriving DecidableEq, Repr

/-- A column of a table, as CREATE TABLE declares it and the catalog keeps it. -/
structure ColumnDefinition where
  name : Str
  type : DataType
  /-- for `TEXT(n)`; 255 if no length is given -/
  textLength : ℤ
  notNull : Bool := false
  primaryKey : Bool := false
  deriving DecidableEq, Repr

/-- `ColumnDefinition::size`, with the narrowing of a text length to 16 bits. -/
def ColumnDefinition.size (c : ColumnDefinition) : ℕ :=
  match c.type with
  | .boolean => 1
  | .integer => 8
  | .float => 8
  | .text => (c.textLength % 65536).toNat

/-- `StatementKind` -/
inductive StatementKind
  | select | insert | update | delete | createTable | dropTable | createIndex
  | begin | commit | rollback
  deriving DecidableEq, Repr

/-- A statement.  The source keeps one record for all kinds, in which each kind uses its own fields.
-/
structure Statement where
  kind : StatementKind
  tableName : Str := []
  /-- indices of the output columns; empty means `SELECT *` -/
  selectColumns : List ℤ := []
  /-- index of the condition; `-1` means no `WHERE` -/
  whereIndex : ℤ := -1
  /-- empty means all columns -/
  insertColumnNames : List Str := []
  insertValues : List ℤ := []
  /-- column name and expression index -/
  assignments : List (Str × ℤ) := []
  columnDefinitions : List ColumnDefinition := []
  indexColumnName : Str := []
  deriving DecidableEq, Repr

/-- What the parser returns: the arena of expressions, the statement and the error, which is empty
if there is none. -/
structure ParseResult where
  expressions : List Expression
  statement : Statement
  error : Str := []
  deriving DecidableEq, Repr

/-- `parseResult.expressions[i]`.  The index is not checked, and one outside the
vector is a fault. -/
def ParseResult.expression {E : Type} (pr : ParseResult) (i : ℤ) : Expected E Expression :=
  if i < 0 then .error (.fault .outOfBounds)
  else match pr.expressions[i.toNat]? with
    | some e => .ok e
    | none => .error (.fault .outOfBounds)

end MicroSql
