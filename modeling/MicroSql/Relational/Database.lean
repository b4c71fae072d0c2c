import MicroSql.Engine.Isolation
import MicroSql.Lib.Refinement
import MicroSql.Lib.Sweep
import MicroSql.Relational.Command

/-!
# The database that the engine implements

A database gives names to relations: columns, with rows in the order in which SELECT shows them.
`Answers` says what a command does to the relation that it names.  Nothing is said about pages and
files.  What depends on them is left open: where among the rows a new one comes, whether there is
room for it, how many of the rows that a failing DELETE or UPDATE has visited are kept as they
were, and whether the file of a table can be made.
-/

namespace MicroSql

open Lib

/-- Columns, and rows in the order in which SELECT shows them. -/
structure Relation where
  columns : Schema
  rows : List Row

/-- The relations by their names. -/
abbrev Database : Type := Str → Option Relation

namespace Relation

/-- The names of the columns, in their order. -/
def names (r : Relation) : List Str := r.columns.map (·.name)

/-- A relation with other rows. -/
def withRows (r : Relation) (rows : List Row) : Relation := { r with rows := rows }

/-- A SELECT filters the rows by the condition, under the names of the columns of the result. -/
def select (r : Relation) (columns : List Str) (condition : Option Tree) :
    Expected ExecError Result := do
  let rows ← selectFrom (holds condition (resultNames columns r.names)) (r.rows.map .ok)
  return { columns := resultNames columns r.names, rows := rows,
           message := countRows (rowCount rows) }

end Relation

/-! ### Checks -/

/-- One of the rows has the primary key of `row`. -/
def repeatsKey (columns : Schema) (others : List Row) (row : Row) : Bool :=
  match primaryKeyIndex columns with
  | none => false
  | some pk =>
    match row[pk]? with
    | none => false
    | some v => others.any (holdsKey pk v)

/-- Only rows that have an encoding can be kept. -/
def checkRow (row : Row) (columns : Schema) : Expected ExecError Unit :=
  (fun _ => ()) <$> (serializeRow row columns).mapError internal

/-- The row that an INSERT adds, if it passes the checks. -/
def checkInsert (names : List Str) (values : List Tree) (r : Relation) :
    Expected ExecError Row := do
  let row ← insertedRow names values r.columns
  if names = [] ∧ row.length ≠ r.columns.length then .error (.error .columnCountMismatch)
  else if repeatsKey r.columns r.rows row then .error (.error .primaryKeyViolation)
  else (fun _ => row) <$> checkRow row r.columns

/-- An UPDATE assigns the primary key. -/
def assignsKey (columns : Schema) (assignments : List (Str × Tree)) : Bool :=
  match primaryKeyIndex columns with
  | none => false
  | some pk => assignments.any fun a => (columns[pk]?.map (·.name)) == some a.1

/-- What DELETE leaves of a row. -/
def deleteVisit (condition : Option Tree) (columns : Schema) : Visit (Failure ExecError) Row :=
  fun _ row _ => do
    let isMatch ← holds condition (columns.map (·.name)) row
    return (isMatch, if isMatch then none else some row)

/-- What UPDATE makes of a row between the rows before, as they are by then, and those after. -/
def updateVisit (assignments : List (Str × Tree)) (condition : Option Tree) (columns : Schema) :
    Visit (Failure ExecError) Row := fun before row after => do
  let isMatch ← holds condition (columns.map (·.name)) row
  if !isMatch then return (false, some row)
  let updated ← updatedRow assignments (columns.map (·.name)) row
  if assignsKey columns assignments && repeatsKey columns (before ++ after) updated then
    .error (.error .primaryKeyViolation)
  else (fun _ => (true, some updated)) <$> checkRow updated columns

/-! ### Commands on a relation -/

/-- The commands for which there has to be a table. -/
def Command.needsTable : Command → Bool
  | select .. | insert .. | update .. | delete .. | dropTable .. => true
  | createTable .. | unsupported .. => false

/-- What is answered when there is no room. -/
abbrev noRoom : Failure ExecError := .error .internalError

/-- What stops a DELETE or an UPDATE that has not failed on a row: no room for the new row, or a row
more than an `int` can count. -/
abbrev sweepLimits : Limits (Failure ExecError) where
  full := noRoom
  most := 2 ^ 31 - 1
  tooMany := .fault .signedOverflow

/-- `Answers command r answer r'`: where the relation named by the command is `r`, or there is
none, it may give this answer and leave `r'`. -/
inductive Answers : Command → Option Relation → Except (Failure ExecError) Result →
    Option Relation → Prop
  | missing {command : Command} (h : command.needsTable = true) :
      Answers command none (.error (.error .tableSchemaNotFound)) none
  | select (table : Str) (columns : List Str) (condition : Option Tree) (r : Relation) :
      Answers (.select table columns condition) (some r) (r.select columns condition) (some r)
  | rejected {table : Str} {names : List Str} {values : List Tree} {r : Relation}
      {e : Failure ExecError} (h : checkInsert names values r = .error e) :
      Answers (.insert table names values) (some r) (.error e) (some r)
  | inserted {table : Str} {names : List Str} {values : List Tree} {r : Relation} {row : Row}
      {before after : List Row} (h : checkInsert names values r = .ok row)
      (hrows : r.rows = before ++ after) :
      Answers (.insert table names values) (some r) (.ok { message := str "1 row inserted" })
        (some (r.withRows (before ++ row :: after)))
  /-- no page has room for the row, and the file may not grow -/
  | full {table : Str} {names : List Str} {values : List Tree} {r : Relation} {row : Row}
      (h : checkInsert names values r = .ok row) :
      Answers (.insert table names values) (some r) (.error noRoom) (some r)
  | delete {table : Str} {condition : Option Tree} {r : Relation}
      {out : Except (Failure ExecError) ℕ} {rows : List Row}
      (h : Sweeps (deleteVisit condition r.columns) sweepLimits r.rows out rows) :
      Answers (.delete table condition) (some r)
        (out.map fun n : ℕ => { message := countRows n ++ str " deleted" }) (some (r.withRows rows))
  | update {table : Str} {assignments : List (Str × Tree)} {condition : Option Tree}
      {r : Relation} {out : Except (Failure ExecError) ℕ} {rows : List Row}
      (h : Sweeps (updateVisit assignments condition r.columns) sweepLimits r.rows out rows) :
      Answers (.update table assignments condition) (some r)
        (out.map fun n : ℕ => { message := countRows n ++ str " updated" }) (some (r.withRows rows))
  | created (table : Str) (columns : Schema) :
      Answers (.createTable table columns) none (.ok { message := str "Table created" })
        (some ⟨columns, []⟩)
  /-- a table that exists is emptied -/
  | duplicate (table : Str) (columns : Schema) (r : Relation) :
      Answers (.createTable table columns) (some r) (.error (.error .duplicateTable))
        (some (r.withRows []))
  /-- the file cannot be made -/
  | refused (table : Str) (columns : Schema) (r : Option Relation) :
      Answers (.createTable table columns) r (.error noRoom) r
  | dropped (table : Str) (r : Relation) :
      Answers (.dropTable table) (some r) (.ok { message := str "Table dropped" }) none
  | unsupported (table : Str) (r : Option Relation) :
      Answers (.unsupported table) r (.error (.error .notImplemented)) r

/-! ### The system -/

namespace Database

/-- A command changes the relation that it names. -/
inductive Step (db : Database) (command : Command) : Except Fault Result → Database → Prop
  | answers {answer : Except (Failure ExecError) Result} {r : Option Relation}
      (h : Answers command (db command.table) answer r) :
      Step db command (resultOf answer) (Function.update db command.table r)

/-- The database without relations. -/
def empty : Database := fun _ => none

/-- The abstract database answers commands. -/
def system : System Database Command (Except Fault Result) where
  step := Step

end Database

end MicroSql
