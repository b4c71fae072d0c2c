import MicroSql.Executor.Helpers
import MicroSql.Storage.TableFile

/-!
# Statements on an open table

The parts of `executor/executor.cpp` that work on the pages of one table.  They are
generic in the table file, of which they use the four methods of `PageFile` only, and
in the encoder: the program is the instance with `serializeRow`.  The page in memory
is a local object, lost when a statement fails.
-/

namespace MicroSql

open Lib

/-- The failures of a layer below the executor, which reports an internal error. -/
def internal {E : Type} : Failure E → Failure ExecError := Failure.map fun _ => .internalError

/-- `row[i]`.  The index is not checked. -/
def Row.at (row : Row) (i : ℕ) : Expected ExecError Value :=
  match row[i]? with
  | none => .error (.fault .outOfBounds)
  | some v => .ok v

/-- The row of a slot. -/
def readSlotRow (page : Page) (slot : ℕ) (columns : Schema) : Expected ExecError Row := do
  let (rowData, _) ← (page.readRow slot).mapError internal
  (deserializeRow rowData columns).mapError internal

/-- `primaryKeyIndex`; `none` stands for `-1`. -/
def primaryKeyIndex (columns : Schema) : Option ℕ := columns.findIdx? (·.primaryKey)

/-- The condition of a statement on a row; an index of `-1` means no condition. -/
def whereMatches (pr : ParseResult) (row : Row) (columns : List Str) : Expected ExecError Bool :=
  if pr.statement.whereIndex = -1 then .ok true
  else do evalWhere pr row columns (← pr.expression pr.statement.whereIndex)

section

variable {σ : Type} (file : PageFile σ)

/-- `numPages`, whose errors are internal ones. -/
def getNumPages : Prog σ (Failure ExecError) ℕ := .mapError internal file.numPages

/-- `readPage`: the index is narrowed to the `uint32_t` of a page id. -/
def readPage (pageIndex : ℕ) : Prog σ (Failure ExecError) Page :=
  .mapError internal (file.readPage (pageIndex % 2 ^ 32))

/-- `writePage`, whose errors are internal ones. -/
def writePage (page : Page) : Prog σ (Failure ExecError) Unit :=
  .mapError internal (file.writePage page)

/-- Call a method of a page in memory. -/
def onPage {α : Type} (page : Page) (method : Prog Page (Failure PageError) α) :
    Prog σ (Failure ExecError) (α × Page) :=
  .mapError internal (.runOn method page)

/-- The data pages, from page 1 on: page 0 is reserved. -/
def dataPages (numPages : ℕ) : List ℕ := List.range' 1 (numPages - 1)

/-! ### Primary keys -/

/-- Whether slot `slot` of `page` holds a row with `value` in the primary key column. -/
def slotHoldsKey (columns : Schema) (pkIndex : ℕ) (value : Value) (page : Page) (slot : ℕ) :
    Expected ExecError Bool := do
  let row ← readSlotRow page slot columns
  let key ← Row.at row pkIndex
  return key.eq value

/-- The page that the primary key check looks at for an index, and whether it is the
page in memory. -/
def keyPage (currentPage : Option Page) (currentPageIndex pageIndex : ℕ) :
    Prog σ (Failure ExecError) (Page × Bool) :=
  match currentPage with
  | some page =>
    if pageIndex = currentPageIndex then pure (page, true)
    else do
      let read ← readPage file pageIndex
      return (read, false)
  | none => do
    let read ← readPage file pageIndex
    return (read, false)

/-- `primaryKeyExists`: whether some row already holds `value` in the primary key
column.  `currentPage` stands for the page `currentPageIndex`, and of it the slot
`skipSlot` is passed over, unless that is negative. -/
def primaryKeyExists (columns : Schema) (pkIndex : ℕ) (value : Value)
    (currentPage : Option Page) (currentPageIndex : ℕ) (skipSlot : ℤ) :
    Prog σ (Failure ExecError) Bool := do
  let numPages ← getNumPages file
  (dataPages numPages).anyM fun pageIndex => do
    let (page, isCurrent) ← keyPage file currentPage currentPageIndex pageIndex
    (List.range page.numSlots).anyM fun slot =>
      if page.slotDeleted slot then pure false
      else if isCurrent ∧ skipSlot ≥ 0 ∧ (slot : ℤ) = skipSlot then pure false
      else .lift (slotHoldsKey columns pkIndex value page slot)

/-! ### SELECT -/

/-- The output columns of a SELECT. -/
def selectedColumns (pr : ParseResult) (columnNames : List Str) : Expected ExecError (List Str) :=
  if pr.statement.selectColumns = [] then .ok columnNames
  else pr.statement.selectColumns.mapM fun columnIndex =>
    (·.columnName) <$> pr.expression columnIndex

/-- One slot of the scan of `execSelect`. -/
def selectSlot (pr : ParseResult) (columns : Schema) (resultColumns : List Str) (page : Page)
    (rows : List Row) (slot : ℕ) : Expected ExecError (List Row) := do
  if page.slotDeleted slot then return rows
  let row ← readSlotRow page slot columns
  let isMatch ← whereMatches pr row resultColumns
  return if isMatch then rows ++ [row] else rows

/-- One page of the scan of `execSelect`. -/
def selectPage (pr : ParseResult) (columns : Schema) (resultColumns : List Str)
    (rows : List Row) (pageIndex : ℕ) : Prog σ (Failure ExecError) (List Row) := do
  let page ← readPage file pageIndex
  .lift ((List.range page.numSlots).foldlM (selectSlot pr columns resultColumns page) rows)

/-- The scan of `execSelect` over the pages: the columns and the rows of the result. -/
def selectRows (pr : ParseResult) (columns : Schema) :
    Prog σ (Failure ExecError) (List Str × List Row) := do
  let resultColumns ← .lift (selectedColumns pr (columns.map (·.name)))
  let numPages ← getNumPages file
  let rows ← (dataPages numPages).foldlM (selectPage file pr columns resultColumns) []
  return (resultColumns, rows)

/-! ### INSERT -/

/-- `insertRowIntoPage`: the row is put into the page, and the page is written. -/
def insertRowIntoPage (page : Page) (rowBytes : List UInt8) (rowSizeBytes : ℕ) :
    Prog σ (Failure ExecError) Unit := do
  let (_, page) ← onPage page (Page.insertRow rowBytes rowSizeBytes)
  .mapError internal (file.writePage page)

/-- One page of the scan of `execInsert`: whether it took the row. -/
def tryPage (rowBytes : List UInt8) (rowSizeBytes pageIndex : ℕ) :
    Prog σ (Failure ExecError) Bool := do
  let page ← readPage file pageIndex
  if page.freeSpace ≥ rowSizeBytes + slotEntrySize then do
    insertRowIntoPage file page rowBytes rowSizeBytes
    return true
  else return false

/-- The first-fit scan of `execInsert`: whether some data page took the row. -/
def insertIntoFirstFit (rowBytes : List UInt8) (rowSizeBytes numPages : ℕ) :
    Prog σ (Failure ExecError) Bool :=
  (dataPages numPages).anyM (tryPage file rowBytes rowSizeBytes)

/-- The primary key check of `execInsert` on the new row. -/
def checkNewKey (columns : Schema) (row : Row) : Prog σ (Failure ExecError) Unit :=
  match primaryKeyIndex columns with
  | none => pure ()
  | some pkIndex => do
    let key ← .lift (Row.at row pkIndex)
    let found ← primaryKeyExists file columns pkIndex key none 0 (-1)
    .failIf (found = true) (.error .primaryKeyViolation)

/-- `execInsert` from the point on where it has the bytes of the row: they go into the
first page with room, or else into a new page. -/
def storeBytes (rowBytes : List UInt8) : Prog σ (Failure ExecError) Unit := do
  let numPages ← getNumPages file
  let rowSizeBytes := rowBytes.length % 65536
  let inserted ← insertIntoFirstFit file rowBytes rowSizeBytes numPages
  if inserted then return ()
  let newPageId ← .mapError internal file.allocatePage
  let page ← readPage file newPageId
  insertRowIntoPage file page rowBytes rowSizeBytes

/-- `execInsert`, once the table is resolved. -/
def insertRow (serialize : Row → Schema → Expected RowError (List UInt8)) (pr : ParseResult)
    (columns : Schema) : Prog σ (Failure ExecError) Unit := do
  let row ← .lift (rowFromInsertValues pr columns)
  .failIf (pr.statement.insertColumnNames = [] ∧ row.length ≠ columns.length)
    (.error .columnCountMismatch)
  checkNewKey file columns row
  let rowBytes ← .lift ((serialize row columns).mapError internal)
  storeBytes file rowBytes

/-! ### DELETE and UPDATE -/

/-- `deletedCount++` and `updatedCount++`.  The counts are of type `int`, start at 0 and are
changed by nothing else: they are natural numbers, none of which comes after `2 ^ 31 - 1`. -/
def increment (count : ℕ) : Expected ExecError ℕ :=
  if count + 1 < 2 ^ 31 then .ok (count + 1) else .error (.fault .signedOverflow)

/-- The loop over the slots of a page, for DELETE and UPDATE.  The body is given the page
index and the slot; it changes the page in memory and counts rows. -/
def slotLoop (body : ℕ → Page × ℕ → ℕ → Prog σ (Failure ExecError) (Page × ℕ))
    (pageIndex : ℕ) (page : Page) (count : ℕ) : Prog σ (Failure ExecError) (Page × ℕ) :=
  (List.range page.numSlots).foldlM (body pageIndex) (page, count)

/-- One page of DELETE and UPDATE: it is read, its slots are visited, and it is written
back. -/
def rewritePage (body : ℕ → Page × ℕ → ℕ → Prog σ (Failure ExecError) (Page × ℕ))
    (count pageIndex : ℕ) : Prog σ (Failure ExecError) ℕ := do
  let page ← readPage file pageIndex
  let (page, count) ← slotLoop body pageIndex page count
  writePage file page
  return count

/-- The page loop that DELETE and UPDATE have in common; it returns the `int` that has counted
the rows. -/
def rewritePages (body : ℕ → Page × ℕ → ℕ → Prog σ (Failure ExecError) (Page × ℕ)) :
    Prog σ (Failure ExecError) ℕ := do
  let numPages ← getNumPages file
  (dataPages numPages).foldlM (rewritePage file body) 0

/-- The body of the slot loop of `execDelete`. -/
def deleteSlot (pr : ParseResult) (columns : Schema) (_pageIndex : ℕ) (s : Page × ℕ)
    (slot : ℕ) : Prog σ (Failure ExecError) (Page × ℕ) := do
  let (page, count) := s
  if page.slotDeleted slot then return (page, count)
  let row ← .lift (readSlotRow page slot columns)
  let shouldDelete ← .lift (whereMatches pr row (columns.map (·.name)))
  if !shouldDelete then return (page, count)
  let (_, page) ← onPage page (Page.deleteRow slot)
  let count ← .lift (increment count)
  return (page, count)

/-- `execDelete`, once the table is resolved. -/
def deleteRows (pr : ParseResult) (columns : Schema) : Prog σ (Failure ExecError) ℕ :=
  rewritePages file (deleteSlot pr columns)

/-- Whether an UPDATE assigns the primary key column. -/
def pkAssigned (pr : ParseResult) (columns : Schema) (pkIndex : ℕ) : Bool :=
  pr.statement.assignments.any fun a => (columns[pkIndex]?.map (·.name)) == some a.1

/-- The primary key check of `execUpdate` on the new row of a slot. -/
def checkKey (pr : ParseResult) (columns : Schema) (updated : Row) (page : Page)
    (pageIndex slot : ℕ) : Prog σ (Failure ExecError) Unit :=
  match primaryKeyIndex columns with
  | none => pure ()
  | some pkIndex =>
    if pkAssigned pr columns pkIndex then do
      let key ← .lift (Row.at updated pkIndex)
      let found ← primaryKeyExists file columns pkIndex key (some page) pageIndex slot
      .failIf (found = true) (.error .primaryKeyViolation)
    else pure ()

/-- The body of the slot loop of `execUpdate`. -/
def updateSlot (serialize : Row → Schema → Expected RowError (List UInt8)) (pr : ParseResult)
    (columns : Schema) (pageIndex : ℕ) (s : Page × ℕ) (slot : ℕ) :
    Prog σ (Failure ExecError) (Page × ℕ) := do
  let (page, count) := s
  if page.slotDeleted slot then return (page, count)
  let row ← .lift (readSlotRow page slot columns)
  let shouldUpdate ← .lift (whereMatches pr row (columns.map (·.name)))
  if !shouldUpdate then return (page, count)
  let updated ← .lift (rowFromUpdate row pr.statement.assignments pr (columns.map (·.name)))
  checkKey file pr columns updated page pageIndex slot
  let rowBytes ← .lift ((serialize updated columns).mapError internal)
  let rowSizeBytes := rowBytes.length % 65536
  let (_, page) ← onPage page (Page.updateRow slot rowBytes rowSizeBytes)
  let count ← .lift (increment count)
  return (page, count)

/-- `execUpdate`, once the table is resolved. -/
def updateRows (serialize : Row → Schema → Expected RowError (List UInt8)) (pr : ParseResult)
    (columns : Schema) : Prog σ (Failure ExecError) ℕ :=
  rewritePages file (updateSlot file serialize pr columns)

end

end MicroSql
