import MicroSql.Ast.Basic
import MicroSql.Catalog.Catalog

/-!
# Tokens

`lexer/token.h` and `lexer/token.cpp`.  A word is a keyword if its upper-case form is in the
table, and an identifier otherwise; a number is an integer or a float literal if a value of
that type can hold it.
-/

namespace MicroSql

/-- Why a loop or a recursion does not return: a fault, or more rounds than it was given. -/
inductive Halt
  | fault (f : Fault)
  | outOfFuel
  deriving DecidableEq, Repr

/-- The byte of an ASCII character. -/
def ch (c : Char) : UInt8 := c.toNat.toUInt8

/-- `TokenType` -/
inductive TokenType
  | select | «from» | «where» | insert | into | values | update | set | delete | create | drop
  | primary | key | table | index | on | begin | commit | rollback | and | or | not | is
  | tknull | true | false | integer | float | text | boolean
  | identifier | integerLiteral | floatLiteral | stringLiteral
  | equal | notEqual | lessThan | lessEq | greaterThan | greaterEq | plus | minus | star | slash
  | comma | semicolon | leftParen | rightParen | dot | endOfFile | unknown | error
  deriving DecidableEq, Repr

/-- A token, with the line that it stands on. -/
structure Token where
  type : TokenType
  value : Str
  line : ℤ
  deriving DecidableEq, Repr

/-! ### Characters, in the C locale -/

/-- `std::isalpha` -/
def isAlpha (b : UInt8) : Bool := (65 ≤ b && b ≤ 90) || (97 ≤ b && b ≤ 122)

/-- `std::isalnum` -/
def isAlnum (b : UInt8) : Bool := isAlpha b || Catalog.isDigit b

/-- `std::toupper` -/
def upper (b : UInt8) : UInt8 := if 97 ≤ b && b ≤ 122 then b - 32 else b

/-- `std::toupper` on each character. -/
def toUpper (s : Str) : Str := s.map upper

/-! ### Words and numbers -/

/-- The keywords and their token types. -/
def keywordMap : List (Str × TokenType) := [
  (str "SELECT", .select), (str "FROM", .from), (str "WHERE", .where), (str "INSERT", .insert),
  (str "INTO", .into), (str "VALUES", .values), (str "UPDATE", .update), (str "SET", .set),
  (str "DELETE", .delete), (str "CREATE", .create), (str "DROP", .drop),
  (str "PRIMARY", .primary), (str "KEY", .key), (str "TABLE", .table), (str "INDEX", .index),
  (str "ON", .on), (str "BEGIN", .begin), (str "COMMIT", .commit), (str "ROLLBACK", .rollback),
  (str "AND", .and), (str "OR", .or), (str "NOT", .not), (str "IS", .is), (str "NULL", .tknull),
  (str "TRUE", .true), (str "FALSE", .false), (str "INTEGER", .integer), (str "FLOAT", .float),
  (str "TEXT", .text), (str "BOOLEAN", .boolean)]

/-- `getTokenTypeAlpha`: the case of a keyword does not matter. -/
def getTokenTypeAlpha (word : Str) : TokenType :=
  (keywordMap.lookup (toUpper word)).getD .identifier

/-- `std::from_chars` for `int`: the digits must make up the whole word, after a minus sign if
there is one. -/
def isInt (s : Str) : Bool :=
  match s with
  | 45 :: ds => ds != [] && ds.all Catalog.isDigit && decide (Catalog.digits 0 ds ≤ 2 ^ 31)
  | ds => ds != [] && ds.all Catalog.isDigit && decide (Catalog.digits 0 ds < 2 ^ 31)

/-- The digits of a number before and after its first dot. -/
def splitDot (s : Str) : Str × Str :=
  (s.takeWhile (· ≠ ch '.'), (s.dropWhile (· ≠ ch '.')).drop 1)

/-- `std::from_chars` for `float`, on a word of digits and at most one dot.  The number is
`n / 10 ^ k`; it is out of range if it rounds to infinity, or to zero without being zero. -/
def isFloat (s : Str) : Bool :=
  let (whole, frac) := splitDot s
  let n := Catalog.digits 0 (whole ++ frac)
  let k := frac.length
  (whole ++ frac) != [] && (whole ++ frac).all Catalog.isDigit &&
    (n == 0 || decide (n < (2 ^ 128 - 2 ^ 103) * 10 ^ k ∧ 10 ^ k < n * 2 ^ 150))

/-- `getTokenTypeDigit` -/
def getTokenTypeDigit (word : Str) : TokenType :=
  if isInt word then .integerLiteral
  else if isFloat word then .floatLiteral
  else .unknown

end MicroSql
