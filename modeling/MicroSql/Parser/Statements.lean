import MicroSql.Parser.Parser

/-!
# The parser of statements

The second half of `parser/parser.cpp`.  Each loop is given a number of rounds, and
`parseExpression` the same number.  A function that the source leaves by an early return after
it has set an error returns `false`, or `none`.
-/

namespace MicroSql

open Lib

namespace Parser

variable (inp : Input)

/-- `requireExpression`: an expression that is missing is an error, if there is none yet. -/
def requireExpression (fuel : ℕ) (context : Str) : Prog Parser Halt ℤ := do
  let index ← parseExpression inp fuel
  let token ← current inp
  .when (index = -1) (setErrorIfEmpty (syntaxError token.line ++ context))
  return index

/-- `if (currentIs(COMMA)) advance();` -/
def skipComma : Prog Parser Halt Unit := do
  .when (← currentIs inp .comma) advance

/-- The tokens at which the list of a `SELECT` ends. -/
def selectEnds (type : TokenType) : Bool :=
  type == .from || type == .semicolon || type == .endOfFile

/-- The tokens at which a list in parentheses ends. -/
def listEnds (type : TokenType) : Bool :=
  type == .rightParen || type == .semicolon || type == .endOfFile

/-- The condition of a `WHERE`, or `-1` if there is none. -/
def parseWhere (fuel : ℕ) : Prog Parser Halt Bool := do
  if ← currentIs inp .where then do
    advance
    let index ← requireExpression inp fuel (str "expected expression after WHERE")
    if index = -1 then return false
    else do
      setStatement fun s => { s with whereIndex := index }
      return true
  else do
    setStatement fun s => { s with whereIndex := -1 }
    return true

/-- The table name of a statement. -/
def parseTableName (context : Str) : Prog Parser Halt Bool := do
  match ← consumeIdentifier inp context with
  | none => return false
  | some name => do
    setStatement fun s => { s with tableName := name }
    return true

/-! ### SELECT -/

/-- The loop over the output columns. -/
def selectList (fuel : ℕ) : ℕ → Prog Parser Halt Bool
  | 0 => .fail .outOfFuel
  | rounds + 1 => do
    if selectEnds (← current inp).type then return true
    else do
      let index ← parseExpression inp fuel
      if index = -1 then do
        setErrorIfEmpty (str "Unknown expression at line " ++ str (toString (← current inp).line))
        return false
      else do
        setStatement fun s => { s with selectColumns := s.selectColumns ++ [index] }
        skipComma inp
        selectList fuel rounds

/-- The columns of a `SELECT`: a star, or a list. -/
def selectColumns (fuel : ℕ) : Prog Parser Halt Bool := do
  if ← currentIs inp .star then do
    advance
    let token ← current inp
    if selectEnds token.type then return true
    else do
      setError (syntaxError token.line ++ str "unexpected token '" ++ token.value ++ str "'")
      return false
  else selectList inp fuel fuel

/-- `parseSelect`.  Without FROM there is no table. -/
def parseSelect (fuel : ℕ) : Prog Parser Halt Unit := do
  advance
  setStatement fun s => { s with kind := .select }
  if ← selectColumns inp fuel then
    if ← currentIs inp .from then do
      advance
      if ← parseTableName inp (str "table name after FROM") then
        let _ ← parseWhere inp fuel

/-! ### INSERT -/

/-- `insertColumnNames.push_back(current().value); advance();` -/
def insertName : Prog Parser Halt Unit := do
  let token ← current inp
  setStatement fun s => { s with insertColumnNames := s.insertColumnNames ++ [token.value] }
  advance

/-- The loop over the column names of an `INSERT`, from the second on. -/
def insertNames : ℕ → Prog Parser Halt Unit
  | 0 => .fail .outOfFuel
  | rounds + 1 => do
    if listEnds (← current inp).type then return ()
    else do
      skipComma inp
      insertName inp
      skipComma inp
      insertNames rounds

/-- `insertValues.push_back(parseExpression());` -/
def insertValue (fuel : ℕ) : Prog Parser Halt Unit := do
  let index ← parseExpression inp fuel
  setStatement fun s => { s with insertValues := s.insertValues ++ [index] }

/-- The loop over the values of an `INSERT`, from the second on. -/
def insertValues (fuel : ℕ) : ℕ → Prog Parser Halt Unit
  | 0 => .fail .outOfFuel
  | rounds + 1 => do
    if listEnds (← current inp).type then return ()
    else do
      skipComma inp
      insertValue inp fuel
      skipComma inp
      insertValues fuel rounds

/-- The column names of an `INSERT`, if there are any. -/
def insertColumns (fuel : ℕ) : Prog Parser Halt Bool := do
  if ← currentIs inp .leftParen then do
    advance
    insertName inp
    insertNames inp fuel
    consume inp .rightParen (str ")")
  else return true

/-- What follows `VALUES`.  A list that is not in parentheses is not read. -/
def insertRow (fuel : ℕ) : Prog Parser Halt Unit := do
  if ← currentIs inp .leftParen then do
    advance
    insertValue inp fuel
    .when (← currentIs inp .comma) do
      advance
      insertValues inp fuel fuel
    if ← consume inp .rightParen (str ")") then
      let _ ← consume inp .semicolon (str ";")

/-- `parseInsert` -/
def parseInsert (fuel : ℕ) : Prog Parser Halt Unit := do
  advance
  setStatement fun s => { s with kind := .insert }
  if ← consume inp .into (str "INTO") then
    if ← parseTableName inp (str "table name") then
      if ← insertColumns inp fuel then
        if ← consume inp .values (str "VALUES") then insertRow inp fuel

/-! ### DELETE and UPDATE -/

/-- `parseDelete` -/
def parseDelete (fuel : ℕ) : Prog Parser Halt Unit := do
  advance
  setStatement fun s => { s with kind := .delete }
  if ← consume inp .from (str "FROM") then
    if ← parseTableName inp (str "table name") then
      if ← parseWhere inp fuel then
        let _ ← consume inp .semicolon (str ";")

/-- `parseAssignment` -/
def parseAssignment (fuel : ℕ) : Prog Parser Halt Bool := do
  match ← consumeIdentifier inp (str "column name") with
  | none => return false
  | some colName =>
    if ← consume inp .equal (str "=") then do
      let index ← requireExpression inp fuel (str "expected expression after '='")
      if index = -1 then return false
      else do
        setStatement fun s => { s with assignments := s.assignments ++ [(colName, index)] }
        return true
    else return false

/-- The loop over the assignments, from the second on. -/
def assignments (fuel : ℕ) : ℕ → Prog Parser Halt Bool
  | 0 => .fail .outOfFuel
  | rounds + 1 => do
    if ← currentIs inp .comma then do
      advance
      if ← parseAssignment inp fuel then assignments fuel rounds
      else return false
    else return true

/-- `parseUpdate` -/
def parseUpdate (fuel : ℕ) : Prog Parser Halt Unit := do
  advance
  setStatement fun s => { s with kind := .update }
  if ← parseTableName inp (str "table name") then
    if ← consume inp .set (str "SET") then
      if ← parseAssignment inp fuel then
        if ← assignments inp fuel fuel then
          if ← parseWhere inp fuel then
            let _ ← consume inp .semicolon (str ";")

/-! ### CREATE and DROP -/

/-- The type of a column, with its text length. -/
def columnType : Prog Parser Halt (Option (DataType × ℤ)) := do
  let token ← current inp
  let undefined ← .gets fun p =>
    (inp.textLength p.result.statement.columnDefinitions.length).toInt
  match token.type with
  | .integer => do
    advance
    return some (.integer, undefined)
  | .float => do
    advance
    return some (.float, undefined)
  | .text => do
    if ← peekIs inp .leftParen then do
      advance
      advance
      -- whatever stands in the parentheses is taken for the length
      let textLength ← .lift (stoi (← current inp).value)
      advance
      if ← consume inp .rightParen (str ")") then return some (.text, textLength)
      else return none
    else do
      advance
      return some (.text, 255)
  | .boolean => do
    advance
    return some (.boolean, undefined)
  | _ => do
    setError (syntaxError token.line ++
      str "expected 'INTEGER','FLOAT','TEXT' or 'BOOLEAN'" ++ butFound token)
    return none

/-- `if (currentIs(first) && peekIs(second)) { … }`, where the block passes the two tokens. -/
def consumeBoth (first second : TokenType) : Prog Parser Halt Bool := do
  if (← currentIs inp first) && (← peekIs inp second) then do
    advance
    advance
    return true
  else return false

/-- The loop over the constraints of a column. -/
def columnConstraints : ℕ → ColumnDefinition → Prog Parser Halt ColumnDefinition
  | 0, _ => .fail .outOfFuel
  | rounds + 1, column => do
    let token ← current inp
    if token.type = .primary ∨ token.type = .not then do
      let primaryKey ← consumeBoth inp .primary .key
      let notNull ← consumeBoth inp .not .tknull
      columnConstraints rounds { column with
        primaryKey := column.primaryKey || primaryKey, notNull := column.notNull || notNull }
    else return column

/-- One column definition. -/
def columnDefinition (fuel : ℕ) : Prog Parser Halt Bool := do
  match ← consumeIdentifier inp (str "column name") with
  | none => return false
  | some name =>
    match ← columnType inp with
    | none => return false
    | some (type, textLength) => do
      let column ← columnConstraints inp fuel { name, type, textLength }
      setStatement fun s => { s with columnDefinitions := s.columnDefinitions ++ [column] }
      return true

/-- The loop over the column definitions. -/
def columnDefinitions (fuel : ℕ) : ℕ → Prog Parser Halt Bool
  | 0 => .fail .outOfFuel
  | rounds + 1 => do
    if listEnds (← current inp).type then return true
    else if ← columnDefinition inp fuel then do
      skipComma inp
      columnDefinitions fuel rounds
    else return false

/-- `parseCreateTable` -/
def parseCreateTable (fuel : ℕ) : Prog Parser Halt Unit := do
  advance
  setStatement fun s => { s with kind := .createTable }
  if ← parseTableName inp (str "table name") then
    if ← consume inp .leftParen (str "(") then
      if ← columnDefinitions inp fuel fuel then do
        -- whatever the list ended at is passed, be it a parenthesis or not
        advance
        let _ ← consume inp .semicolon (str ";")

/-- `parseCreateIndex` -/
def parseCreateIndex : Prog Parser Halt Unit := do
  advance
  setStatement fun s => { s with kind := .createIndex }
  if ← consume inp .on (str "ON") then
    if ← parseTableName inp (str "table name") then
      if ← consume inp .leftParen (str "(") then
        match ← consumeIdentifier inp (str "Column name") with
        | none => return ()
        | some name => do
          setStatement fun s => { s with indexColumnName := name }
          if ← consume inp .rightParen (str ")") then
            let _ ← consume inp .semicolon (str ";")

/-- `parseCreate`, which tells the two statements apart by the spelling of a token. -/
def parseCreate (fuel : ℕ) : Prog Parser Halt Unit := do
  advance
  let token ← current inp
  if token.value = str "TABLE" then parseCreateTable inp fuel
  else if token.value = str "INDEX" then parseCreateIndex inp
  else setError (syntaxError token.line ++ str "expected 'TABLE' or 'INDEX'" ++ butFound token)

/-- `parseDrop` -/
def parseDrop : Prog Parser Halt Unit := do
  advance
  setStatement fun s => { s with kind := .dropTable }
  if ← consume inp .table (str "TABLE") then
    if ← parseTableName inp (str "table name") then
      let _ ← consume inp .semicolon (str ";")

/-- The `switch` of `parse`. -/
def parseStatement (fuel : ℕ) : Prog Parser Halt Unit := do
  let token ← current inp
  match token.type with
  | .select => parseSelect inp fuel
  | .insert => parseInsert inp fuel
  | .create => parseCreate inp fuel
  | .update => parseUpdate inp fuel
  | .delete => parseDelete inp fuel
  | .drop => parseDrop inp
  | _ => setError (syntaxError token.line ++ str "unexpected token '" ++ token.value ++ str "'")

end Parser

/-- `parse`.  The source reads outside the vector if there is no token at all. -/
def parse (fuel : ℕ) (inp : Input) : Except Halt ParseResult :=
  let (outcome, parser) := Parser.parseStatement inp fuel {}
  outcome.map fun _ => parser.result

end MicroSql
