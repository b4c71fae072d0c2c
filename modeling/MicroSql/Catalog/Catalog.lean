import MicroSql.Ast.Statement
import MicroSql.Storage.TableFile
import MicroSql.Lib.Except

/-!
# The catalog

`catalog/tableschema.h`, `catalog/catalog.h` and `catalog/catalog.cpp`: the tables
that exist, and the text file that keeps them from one session to the next.
-/

namespace MicroSql

open Lib

/-- `CatalogError` -/
inductive CatalogError
  | fileNotOpen | unvalidTableLineFormat | unvalidColumnLineFormat | duplicateTable
  | tableNotFound
  deriving DecidableEq, Repr

/-- A table in the catalog. -/
structure TableSchema where
  tableName : Str := []
  columns : List ColumnDefinition := []
  filePath : Str := []
  deriving DecidableEq, Repr

/-- The names of the columns, in their order. -/
def TableSchema.columnNames (t : TableSchema) : List Str := t.columns.map (·.name)

/-- `column_index`; `none` stands for `-1`. -/
def TableSchema.columnIndex (t : TableSchema) (name : Str) : Option ℕ :=
  t.columns.findIdx? fun c => c.name = name

/-- The tables, in the order in which they have been added. -/
structure Catalog where
  tables : List TableSchema := []
  deriving DecidableEq, Repr

namespace Catalog

/-- The first table of that name. -/
def findTable (c : Catalog) (name : Str) : Option TableSchema :=
  c.tables.find? fun t => t.tableName = name

/-- `addTable`, which refuses a name that is taken. -/
def addTable (c : Catalog) (schema : TableSchema) : Expected CatalogError Catalog :=
  if c.tables.any fun t => t.tableName = schema.tableName then .error (.error .duplicateTable)
  else .ok { tables := c.tables ++ [schema] }

/-- `dropTable`: the catalog without the table, and the file to be removed. -/
def dropTable (c : Catalog) (name : Str) : Expected CatalogError (Catalog × Str) :=
  match c.findTable name with
  | none => .error (.error .tableNotFound)
  | some t => .ok ({ tables := c.tables.eraseP fun t => t.tableName = name }, t.filePath)

/-! ### Looking tables up -/

theorem findTable_eq_none {c : Catalog} {name : Str} :
    c.findTable name = none ↔ name ∉ c.tables.map (·.tableName) := by
  simp [findTable]

/-- A table is added exactly when there is none of its name. -/
theorem addTable_eq (c : Catalog) (schema : TableSchema) :
    c.addTable schema = if c.findTable schema.tableName = none then .ok ⟨c.tables ++ [schema]⟩
      else .error (.error .duplicateTable) := by
  by_cases h : c.findTable schema.tableName = none
  · have hany : ¬(c.tables.any fun t => t.tableName = schema.tableName) := by
      simpa [findTable] using h
    rw [addTable, if_neg hany, if_pos h]
  · have hany : c.tables.any fun t => t.tableName = schema.tableName := by
      simpa [findTable] using h
    rw [addTable, if_pos hany, if_neg h]

theorem findTable_append {c : Catalog} {schema : TableSchema}
    (h : c.findTable schema.tableName = none) (name : Str) :
    findTable ⟨c.tables ++ [schema]⟩ name =
      if name = schema.tableName then some schema else c.findTable name := by
  rw [findTable, List.find?_append]
  by_cases hn : name = schema.tableName
  · subst hn
    rw [if_pos rfl, show c.tables.find? _ = none from h]
    simp
  · have hn' : ¬schema.tableName = name := fun hs => hn hs.symm
    rw [if_neg hn, findTable]
    simp [hn']

/-- A table that is dropped is gone, if there was only one of its name. -/
theorem findTable_eraseP {c : Catalog} (h : (c.tables.map (·.tableName)).Nodup)
    (name name' : Str) :
    findTable ⟨c.tables.eraseP fun t => t.tableName = name⟩ name' =
      if name' = name then none else c.findTable name' := by
  obtain ⟨ts⟩ := c
  simp only [findTable] at h ⊢
  induction ts with
  | nil => simp
  | cons t ts ih =>
    rw [List.map_cons, List.nodup_cons] at h
    by_cases ht : t.tableName = name
    · rw [List.eraseP_cons_of_pos (by simpa using ht), List.find?_cons]
      by_cases hn : name' = name
      · subst hn
        rw [if_pos rfl, List.find?_eq_none]
        intro t' ht' heq
        refine h.1 (List.mem_map.2 ⟨t', ht', ?_⟩)
        rw [ht]
        simpa using heq
      · have hne : ¬t.tableName = name' := fun hs => hn (hs.symm.trans ht)
        rw [if_neg hn, decide_eq_false hne]
    · rw [List.eraseP_cons_of_neg (by simpa using ht), List.find?_cons, List.find?_cons, ih h.2]
      by_cases hn' : t.tableName = name'
      · have hne : ¬name' = name := fun hs => ht (hn'.trans hs)
        rw [decide_eq_true hn', if_neg hne, if_neg hne]
      · rw [decide_eq_false hn']

/-! ### Saving -/

/-- The file that keeps the catalog. -/
def path : Str := str "catalog.txt"

/-- The word for a type in the catalog file, and in CREATE TABLE. -/
def dataTypeName : DataType → Str
  | .integer => str "INTEGER"
  | .float => str "FLOAT"
  | .text => str "TEXT"
  | .boolean => str "BOOLEAN"

/-- The word for a flag in the catalog file. -/
def boolName (b : Bool) : Str := if b then str "true" else str "false"

/-- The line of a column. -/
def columnLine (c : ColumnDefinition) : Str :=
  str "COLUMN " ++ c.name ++ str " " ++ dataTypeName c.type ++ str " " ++
    str (toString c.textLength) ++ str " " ++ boolName c.notNull ++ str " " ++
    boolName c.primaryKey ++ str "\n"

/-- The lines of a table. -/
def tableText (t : TableSchema) : Str :=
  str "TABLE " ++ t.tableName ++ str "\n" ++ t.columns.flatMap columnLine ++
    str "FILE " ++ t.filePath ++ str "\n" ++ str "END\n"

/-- The contents of the catalog file. -/
def text (c : Catalog) : Str := c.tables.flatMap tableText

/-- `save`.  Nothing happens when the file cannot be opened. -/
def save (c : Catalog) (fs : FileSystem) : FileSystem :=
  if fs.mayWrite path then fs.put path c.text else fs

theorem save_files_of_ne (c : Catalog) (fs : FileSystem) {p : Str} (h : p ≠ path) :
    (c.save fs).files p = fs.files p := by
  unfold save
  split
  · rw [FileSystem.files_put, if_neg h]
  · rfl

@[simp] theorem save_mayRead (c : Catalog) (fs : FileSystem) :
    (c.save fs).mayRead = fs.mayRead := by
  unfold save
  split <;> rfl

@[simp] theorem save_mayWrite (c : Catalog) (fs : FileSystem) :
    (c.save fs).mayWrite = fs.mayWrite := by
  unfold save
  split <;> rfl

@[simp] theorem save_limit (c : Catalog) (fs : FileSystem) : (c.save fs).limit = fs.limit := by
  unfold save
  split <;> rfl

/-! ### Loading -/

/-- `isspace` of the C locale. -/
def isSpace (b : UInt8) : Bool := b == 32 || (9 ≤ b && b ≤ 13)

/-- `split`: the words between white space. -/
def split : Str → List Str
  | [] => []
  | [b] => if isSpace b then [] else [[b]]
  | b :: b' :: s =>
    if isSpace b then split (b' :: s)
    else if isSpace b' then [b] :: split (b' :: s)
    else match split (b' :: s) with
      | [] => [[b]]
      | w :: ws => (b :: w) :: ws

/-- The lines that `std::getline` returns. -/
def lines : Str → List Str
  | [] => []
  | b :: s =>
    if b = 10 then [] :: lines s
    else match lines s with
      | [] => [[b]]
      | l :: ls => (b :: l) :: ls

/-- `std::isdigit` -/
def isDigit (b : UInt8) : Bool := 48 ≤ b && b ≤ 57

/-- The number that a string of digits denotes, after `n` for those already read. -/
def digits (n : ℕ) (s : Str) : ℕ := s.foldl (fun n b => 10 * n + (b.toNat - 48)) n

/-- `std::stoi` on a word without white space: a sign and the digits after it; what
follows them is ignored. -/
def stoi (s : Str) : Expected CatalogError ℤ :=
  let (sign, body) := match s with
    | 45 :: s => (-1, s)
    | 43 :: s => (1, s)
    | s => ((1 : ℤ), s)
  let ds := body.takeWhile isDigit
  let n := sign * digits 0 ds
  if ds = [] ∨ n < -2 ^ 31 ∨ 2 ^ 31 ≤ n then .error (.fault .uncaughtException) else .ok n

/-- The type that a word names.  Any other word leaves the type of the column without
a value. -/
def dataTypeOf (word : Str) : Expected CatalogError DataType :=
  if word = str "INTEGER" then .ok .integer
  else if word = str "FLOAT" then .ok .float
  else if word = str "TEXT" then .ok .text
  else if word = str "BOOLEAN" then .ok .boolean
  else .error (.fault .uninitialized)

/-- The column of a line.  The number is converted before the column, with its type, is copied
into the table. -/
def loadColumn (line : Str) : Expected CatalogError ColumnDefinition :=
  match split line with
  | [_, name, type, textLength, notNull, primaryKey] => do
    let textLength ← stoi textLength
    let type ← dataTypeOf type
    return { name, type, textLength,
             notNull := notNull = str "true", primaryKey := primaryKey = str "true" }
  | _ => .error (.error .unvalidColumnLineFormat)

/-- The two loops of `load`: the lines, with the table that is being read. -/
def loadLines : Option TableSchema → List Str → Prog Catalog (Failure CatalogError) Unit
  | none, [] => return ()
  | some t, [] => .modify fun c => { tables := c.tables ++ [t] }
  | none, line :: rest =>
    if (str "TABLE").isPrefixOf line then
      match split line with
      | [_, name] => loadLines (some { tableName := name }) rest
      | _ => .fail (.error .unvalidTableLineFormat)
    else loadLines none rest
  | some t, line :: rest =>
    if line = str "END" then do
      .modify fun c => { tables := c.tables ++ [t] }
      loadLines none rest
    else if (str "COLUMN").isPrefixOf line then do
      let column ← .lift (loadColumn line)
      loadLines (some { t with columns := t.columns ++ [column] }) rest
    else if (str "FILE").isPrefixOf line then
      match split line with
      | [_, filePath] => loadLines (some { t with filePath := filePath }) rest
      | _ => loadLines (some t) rest
    else loadLines (some t) rest

/-- `load` adds the tables of the file to the catalog. -/
def load (fs : FileSystem) : Prog Catalog (Failure CatalogError) Unit :=
  match fs.files path with
  | none => .fail (.error .fileNotOpen)
  | some bytes => if fs.mayRead path then loadLines none (lines bytes)
    else .fail (.error .fileNotOpen)

end Catalog

end MicroSql
