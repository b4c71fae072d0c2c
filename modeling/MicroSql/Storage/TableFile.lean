import Mathlib.Logic.Function.Basic
import MicroSql.Storage.Page

/-!
# Table files

`struct TableFile` of `storage/page.h` and its methods in `storage/page.cpp`, over a
file system that maps paths to contents.  A stream has one position for reading and
writing and a flag that a failed operation sets; while the flag is set every
operation but `clear` does nothing.  Bytes that are written reach the file at once,
so flushing has nothing left to do.
-/

namespace MicroSql

open Lib

/-- `TableFileError` -/
inductive TableFileError
  | fileNotOpen | failedToOpenFile | failedToSeekPage | failedToReadPage | failedToWritePage
  | failedToGetFileSize | failedToCreateFile
  deriving DecidableEq, Repr

/-! ### Files and streams -/

/-- No file system lets a file grow beyond this size, which is that of as many pages
as a `uint32_t` can number. -/
abbrev maxFileSize : ℕ := 2 ^ 32 * pageSize

/-- The files, who may open them, and the size to which a file may grow. -/
structure FileSystem where
  files : Str → Option (List UInt8)
  mayRead : Str → Bool
  mayWrite : Str → Bool
  limit : ℕ
  limit_le : limit ≤ maxFileSize

namespace FileSystem

/-- The file at a path gets other contents. -/
def put (fs : FileSystem) (path : Str) (bytes : List UInt8) : FileSystem :=
  { fs with files := Function.update fs.files path (some bytes) }

/-- `std::filesystem::remove` -/
def remove (fs : FileSystem) (path : Str) : FileSystem :=
  { fs with files := Function.update fs.files path none }

/-- The contents of a file; one that is not there has none. -/
def contents (fs : FileSystem) (path : Str) : List UInt8 := (fs.files path).getD []

@[simp] theorem files_put (fs : FileSystem) (path : Str) (bytes : List UInt8) (q : Str) :
    (fs.put path bytes).files q = if q = path then some bytes else fs.files q := by
  by_cases h : q = path
  · subst h
    simp [put]
  · simp [put, h]

@[simp] theorem contents_put_self (fs : FileSystem) (path : Str) (bytes : List UInt8) :
    (fs.put path bytes).contents path = bytes := by simp [contents]

@[simp] theorem limit_put (fs : FileSystem) (path : Str) (bytes : List UInt8) :
    (fs.put path bytes).limit = fs.limit := rfl

@[simp] theorem put_put (fs : FileSystem) (path : Str) (bytes bytes' : List UInt8) :
    (fs.put path bytes).put path bytes' = fs.put path bytes' := by
  simp [put]

theorem put_eq_self {fs : FileSystem} {path : Str} {bytes : List UInt8}
    (h : fs.files path = some bytes) : fs.put path bytes = fs := by
  rw [put, ← h, Function.update_eq_self]

end FileSystem

/-- `std::fstream`.  `failed` is `failbit` or `badbit`; `eofbit` is only ever set
together with it. -/
structure Stream where
  path : Str := []
  isOpen : Bool := false
  pos : ℕ := 0
  failed : Bool := false
  deriving DecidableEq

/-- `TableFile`: the path, and the stream that is opened on it. -/
structure TableFile where
  filePath : Str := []
  file : Stream := {}
  deriving DecidableEq

/-- What the methods of a table file change. -/
abbrev FileState : Type := TableFile × FileSystem

namespace TableFile

/-! ### The operations of the stream -/

/-- `file.clear()` -/
def clear : Prog FileState (Failure TableFileError) Unit :=
  .modify fun (t, fs) => ({ t with file := { t.file with failed := false } }, fs)

/-- `file.seekg(pos, std::ios::beg)` -/
def seekBeg (pos : ℕ) : Prog FileState (Failure TableFileError) Unit :=
  .modify fun (t, fs) =>
    if t.file.failed then (t, fs) else ({ t with file := { t.file with pos := pos } }, fs)

/-- `file.seekg(0, std::ios::end)` -/
def seekEnd : Prog FileState (Failure TableFileError) Unit :=
  .modify fun (t, fs) =>
    if t.file.failed then (t, fs)
    else ({ t with file := { t.file with pos := (fs.contents t.file.path).length } }, fs)

/-- `file.tellg()`; `none` stands for `-1`. -/
def tellg : Prog FileState (Failure TableFileError) (Option ℕ) :=
  .gets fun (t, _) => if t.file.failed then none else some t.file.pos

/-- `file.read(buffer, n)`: the bytes that arrive.  Fewer than `n` set the flag. -/
def read (n : ℕ) : Prog FileState (Failure TableFileError) (List UInt8) := fun (t, fs) =>
  if t.file.failed then (.ok [], (t, fs))
  else
    let bytes := slice (fs.contents t.file.path) t.file.pos n
    (.ok bytes, ({ t with file := { t.file with
      pos := t.file.pos + bytes.length, failed := decide (bytes.length < n) } }, fs))

/-- `file.write(bytes)`.  A write that would make the file too large sets the flag. -/
def write (bytes : List UInt8) : Prog FileState (Failure TableFileError) Unit :=
  .modify fun (t, fs) =>
    if t.file.failed then (t, fs)
    else if max fs.limit (fs.contents t.file.path).length < t.file.pos + bytes.length then
      ({ t with file := { t.file with failed := true } }, fs)
    else
      ({ t with file := { t.file with pos := t.file.pos + bytes.length } },
        fs.put t.file.path (overwrite 0 (fs.contents t.file.path) t.file.pos bytes))

/-- `if (!file) return std::unexpected(e)` -/
def check (e : TableFileError) : Prog FileState (Failure TableFileError) Unit := do
  let failed ← .gets fun (t, _) => t.file.failed
  .failIf (failed = true) (.error e)

/-- `if (!file.is_open()) return std::unexpected(FileNotOpen)` -/
def checkOpen : Prog FileState (Failure TableFileError) Unit := do
  let isOpen ← .gets fun (t, _) => t.file.isOpen
  .failIf (isOpen = false) (.error .fileNotOpen)

/-! ### The methods -/

/-- `create`: opening a `std::ofstream` makes the file, or empties it if it exists. -/
def create : Prog FileState (Failure TableFileError) Unit := do
  let (t, fs) ← .gets id
  .failIf (fs.mayWrite t.filePath = false) (.error .failedToCreateFile)
  .modify fun (t, fs) => (t, fs.put t.filePath [])

/-- `open`: for reading and writing, so that the file must exist.  Opening a stream
that is open already fails. -/
def «open» (path : Str) : Prog FileState (Failure TableFileError) Unit := do
  .modify fun (t, fs) =>
    let opens := !t.file.isOpen && (fs.files path).isSome && fs.mayRead path && fs.mayWrite path
    if opens then
      ({ filePath := path, file := { path := path, isOpen := true, pos := 0, failed := false } },
        fs)
    else ({ filePath := path, file := { t.file with failed := true } }, fs)
  check .failedToOpenFile

/-- `close` -/
def close : Prog FileState (Failure TableFileError) Unit :=
  .modify fun (t, fs) => ({ t with file := { t.file with isOpen := false } }, fs)

/-- `readPage`; `pageId` is a `uint32_t`. -/
def readPage (pageId : ℕ) : Prog FileState (Failure TableFileError) Page := do
  checkOpen
  seekBeg (pageId * pageSize)
  check .failedToSeekPage
  let bytes ← read pageSize
  check .failedToReadPage
  return { data := Block.ofBytes pageSize bytes, pageId := pageId }

/-- `writePage`, at the place that the id of the page gives. -/
def writePage (page : Page) : Prog FileState (Failure TableFileError) Unit := do
  checkOpen
  seekBeg (page.pageId * pageSize)
  check .failedToSeekPage
  write page.data.val
  check .failedToWritePage

/-- `numPages`: the size of the file in pages, rounded up. -/
def numPages : Prog FileState (Failure TableFileError) ℕ := do
  checkOpen
  clear
  seekEnd
  check .failedToSeekPage
  let pos ← tellg
  match pos with
  | none => .fail (.error .failedToGetFileSize)
  | some size => return (size + pageSize - 1) / pageSize

/-- `allocatePage`: an empty page at the end of the file, whose id is the number of pages before. -/
def allocatePage : Prog FileState (Failure TableFileError) ℕ := do
  checkOpen
  let pages ← numPages
  let newPageId := pages % 2 ^ 32
  clear
  seekEnd
  check .failedToSeekPage
  write (Page.init newPageId).data.val
  check .failedToWritePage
  return newPageId

end TableFile

/-! ### What the executor uses of a table file -/

/-- The methods that the executor calls on an open `TableFile *`. -/
structure PageFile (σ : Type) where
  numPages : Prog σ (Failure TableFileError) ℕ
  readPage : ℕ → Prog σ (Failure TableFileError) Page
  writePage : Page → Prog σ (Failure TableFileError) Unit
  allocatePage : Prog σ (Failure TableFileError) ℕ

end MicroSql
