import MicroSql.Catalog.Catalog
import MicroSql.Executor.Statements

/-!
# The executor

`executor/executor.h` and the rest of `executor/executor.cpp`: finding and opening the
file of a table, creating and dropping tables, and `execute`.  The state of the engine
is the context that the source passes around, with the file system next to it.
-/

namespace MicroSql

open Lib

/-- `ExecutionContext`: what the program keeps between two statements. -/
structure ExecutionContext where
  catalog : Catalog := {}
  /-- the tables whose files have been opened -/
  openFiles : Str → Option TableFile := fun _ => none

/-- The context, and the files that it works on. -/
structure Engine extends ExecutionContext where
  fs : FileSystem

/-- `Result`: what a statement returns to be printed. -/
structure Result where
  success : Bool := true
  message : Str := []
  columns : List Str := []
  rows : List Row := []
  deriving DecidableEq, Repr

namespace Engine

/-- Keep a table file open under a name, or forget it. -/
def setOpenFile (w : Engine) (name : Str) (t : Option TableFile) : Engine :=
  { w with openFiles := Function.update w.openFiles name t }

/-- Call a method of a table file that only the caller knows. -/
def onFile {α : Type} (t : TableFile) (method : Prog FileState (Failure TableFileError) α) :
    Prog Engine (Failure TableFileError) (α × TableFile) := fun w =>
  match method (t, w.fs) with
  | (.ok a, (t, fs)) => (.ok (a, t), { w with fs := fs })
  | (.error e, (_, fs)) => (.error e, { w with fs := fs })

/-- Call a method of the file that `openFiles` keeps for a table. -/
def onOpenFile {α : Type} (name : Str) (method : Prog FileState (Failure TableFileError) α) :
    Prog Engine (Failure TableFileError) α := fun w =>
  match w.openFiles name with
  | none => (.error (.fault .outOfBounds), w)
  | some t =>
    let (r, (t, fs)) := method (t, w.fs)
    (r, { w with fs := fs }.setOpenFile name (some t))

/-- The table file that `openFiles` keeps for a table. -/
def openFile (name : Str) : PageFile Engine where
  numPages := onOpenFile name TableFile.numPages
  readPage pageId := onOpenFile name (TableFile.readPage pageId)
  writePage page := onOpenFile name (TableFile.writePage page)
  allocatePage := onOpenFile name TableFile.allocatePage

end Engine

open Engine

/-- `resolveTable`: the schema of a table.  Its file is opened unless it is open. -/
def resolveTable (tableName : Str) : Prog Engine (Failure ExecError) TableSchema := do
  let w ← .gets id
  match w.catalog.findTable tableName with
  | none => .fail (.error .tableSchemaNotFound)
  | some schema =>
    match w.openFiles tableName with
    | some _ => return schema
    | none => do
      let (_, t) ← .mapError internal (onFile {} (TableFile.open schema.filePath))
      .modify fun w => w.setOpenFile tableName (some t)
      return schema

/-- `execSelect`: the names of the columns and the rows, without the message. -/
def execSelect (pr : ParseResult) : Prog Engine (Failure ExecError) Result := do
  let schema ← resolveTable pr.statement.tableName
  let (columns, rows) ← selectRows (openFile pr.statement.tableName) pr schema.columns
  return { columns := columns, rows := rows }

/-- `execInsert`, generic in the encoder. -/
def execInsertWith (serialize : Row → Schema → Expected RowError (List UInt8))
    (pr : ParseResult) : Prog Engine (Failure ExecError) Unit := do
  let schema ← resolveTable pr.statement.tableName
  insertRow (openFile pr.statement.tableName) serialize pr schema.columns

/-- `execInsert`, with the encoder of `row.cpp`. -/
def execInsert (pr : ParseResult) : Prog Engine (Failure ExecError) Unit :=
  execInsertWith serializeRow pr

/-- `execDelete`: the number of rows that it has deleted. -/
def execDelete (pr : ParseResult) : Prog Engine (Failure ExecError) ℕ := do
  let schema ← resolveTable pr.statement.tableName
  deleteRows (openFile pr.statement.tableName) pr schema.columns

/-- `execUpdate`, generic in the encoder. -/
def execUpdateWith (serialize : Row → Schema → Expected RowError (List UInt8))
    (pr : ParseResult) : Prog Engine (Failure ExecError) ℕ := do
  let schema ← resolveTable pr.statement.tableName
  updateRows (openFile pr.statement.tableName) serialize pr schema.columns

/-- `execUpdate`: the number of rows that it has updated. -/
def execUpdate (pr : ParseResult) : Prog Engine (Failure ExecError) ℕ :=
  execUpdateWith serializeRow pr

/-- The file of a new table. -/
def tablePath (tableName : Str) : Str := tableName ++ str ".ms"

/-- `execCreateTable`: the file is created, opened and given its reserved page before
the catalog is asked whether the table exists. -/
def execCreateTable (pr : ParseResult) : Prog Engine (Failure ExecError) Unit := do
  let tableName := pr.statement.tableName
  let tableSchema : TableSchema :=
    { tableName := tableName, columns := pr.statement.columnDefinitions,
      filePath := tablePath tableName }
  let (_, t) ← .mapError internal (onFile { filePath := tableSchema.filePath } TableFile.create)
  let (_, t) ← .mapError internal (onFile t (TableFile.open tableSchema.filePath))
  let (_, t) ← .mapError internal (onFile t TableFile.allocatePage)
  let w ← .gets id
  let catalog ← .lift ((w.catalog.addTable tableSchema).mapError
    (Failure.map fun _ => .duplicateTable))
  .modify fun w => { w with catalog := catalog, fs := catalog.save w.fs }.setOpenFile
    tableName (some t)

/-- `execDropTable`: the table leaves the catalog, and its file is removed. -/
def execDropTable (pr : ParseResult) : Prog Engine (Failure ExecError) Unit := do
  let tableName := pr.statement.tableName
  let w ← .gets id
  .failIf (w.catalog.findTable tableName = none) (.error .tableSchemaNotFound)
  -- the handle is closed and forgotten before the file goes
  .modify fun w => w.setOpenFile tableName none
  let (catalog, filePath) ← .lift ((w.catalog.dropTable tableName).mapError internal)
  .modify fun w => { w with catalog := catalog, fs := catalog.save (w.fs.remove filePath) }

/-- `makeError` -/
def makeError (e : ExecError) : Result := { success := false, message := execErrorStr e }

/-- `int rowCount = rows.size()`: the low 32 bits of the size, as a signed number. -/
def rowCount (rows : List Row) : ℤ := (rows.length : ℤ).bmod (2 ^ 32)

@[simp] theorem rowCount_nil : rowCount [] = 0 := rfl

/-- `n` rows, as the messages say it of an `int`. -/
def countRows (n : ℤ) : Str := str (toString n) ++ str (if n = 1 then " row" else " rows")

/-- The result of a statement that returned an error. -/
def orError (c : Prog Engine (Failure ExecError) Result) : Prog Engine Fault Result := fun w =>
  match c w with
  | (.ok r, w) => (.ok r, w)
  | (.error (.error e), w) => (.ok (makeError e), w)
  | (.error (.fault f), w) => (.error f, w)

/-- `execute`, generic in the encoder. -/
def executeWith (serialize : Row → Schema → Expected RowError (List UInt8)) (pr : ParseResult) :
    Prog Engine Fault Result :=
  orError <| match pr.statement.kind with
  | .select => do
    let result ← execSelect pr
    return { result with message := countRows (rowCount result.rows) }
  | .insert => do
    execInsertWith serialize pr
    return { message := str "1 row inserted" }
  | .delete => do
    let n ← execDelete pr
    return { message := countRows n ++ str " deleted" }
  | .update => do
    let n ← execUpdateWith serialize pr
    return { message := countRows n ++ str " updated" }
  | .createTable => do
    execCreateTable pr
    return { message := str "Table created" }
  | .dropTable => do
    execDropTable pr
    return { message := str "Table dropped" }
  | .createIndex | .begin | .commit | .rollback => .fail (.error .notImplemented)

/-- `execute`, with the encoder of `row.cpp`. -/
def execute (pr : ParseResult) : Prog Engine Fault Result := executeWith serializeRow pr

end MicroSql
