import MicroSql.Storage.TableFile

/-!
# A table file is an array of pages

`pageArray` is the file that the executor should see: an array of pages, read and
written by index, that grows at its end.  As long as the file of an open stream
consists of whole pages, each method of `TableFile` returns what that of the array
returns and leaves a corresponding state.
-/

namespace MicroSql

open Lib

/-- An array of pages that may grow to `limit` bytes. -/
def pageArray (limit : ℕ) : PageFile (List (Block pageSize)) where
  numPages := .gets List.length
  readPage pageId := do
    let bs ← .gets id
    match bs[pageId]? with
    | some b => return { data := b, pageId := pageId }
    | none => .fail (.error .failedToReadPage)
  writePage page := do
    let bs ← .gets id
    .failIf (max limit (bs.length * pageSize) < page.pageId * pageSize + pageSize)
      (.error .failedToWritePage)
    .modify fun bs => Block.put bs page.pageId page.data
  allocatePage := do
    let bs ← .gets id
    .failIf (max limit (bs.length * pageSize) < bs.length * pageSize + pageSize)
      (.error .failedToWritePage)
    .modify fun bs => bs ++ [(Page.init (bs.length % 2 ^ 32)).data]
    return bs.length % 2 ^ 32

theorem allocatePage_apply (limit : ℕ) (bs : List (Block pageSize)) :
    (pageArray limit).allocatePage bs =
      if max limit (bs.length * pageSize) < bs.length * pageSize + pageSize then
        (.error (.error .failedToWritePage), bs)
      else (.ok (bs.length % 2 ^ 32), bs ++ [(Page.init (bs.length % 2 ^ 32)).data]) := by
  by_cases hfull : max limit (bs.length * pageSize) < bs.length * pageSize + pageSize
  · simp only [pageArray, Prog.gets_bind_apply, id_eq, Prog.failIf_pos hfull,
      Prog.fail_bind_apply, if_pos hfull]
  · simp only [pageArray, Prog.gets_bind_apply, id_eq, Prog.failIf_neg hfull,
      Prog.pure_bind_apply, Prog.modify_bind_apply, Prog.pure_apply, if_neg hfull]

/-- `bs` are the pages of the file at `path`, which `s` has open; the rest of the file
system is that of `base`. -/
structure Backs (base : FileSystem) (path : Str) (s : FileState) (bs : List (Block pageSize)) :
    Prop where
  filePath_eq : s.1.filePath = path
  isOpen : s.1.file.isOpen = true
  path_eq : s.1.file.path = path
  fs_eq : s.2 = base.put path (Block.flat bs)

/-- The same, and no operation of the stream has failed since it was last cleared. -/
structure BacksClean (base : FileSystem) (path : Str) (s : FileState)
    (bs : List (Block pageSize)) : Prop extends Backs base path s bs where
  clean : s.1.file.failed = false

/-- `s` with the position and the flag of its stream replaced. -/
def FileState.moveTo (s : FileState) (pos : ℕ) (failed : Bool) : FileState :=
  ({ s.1 with file := { s.1.file with pos := pos, failed := failed } }, s.2)

/-- The contents of the file that the stream has open. -/
def FileState.bytes (s : FileState) : List UInt8 := s.2.contents s.1.file.path

/-- `s` after some bytes are written at `pos`. -/
def FileState.written (s : FileState) (pos : ℕ) (bytes : List UInt8) : FileState :=
  ((s.moveTo (pos + bytes.length) false).1, s.2.put s.1.file.path (overwrite 0 s.bytes pos bytes))

@[simp] theorem FileState.bytes_moveTo (s : FileState) (pos : ℕ) (failed : Bool) :
    (s.moveTo pos failed).bytes = s.bytes := rfl

@[simp] theorem FileState.moveTo_moveTo (s : FileState) (pos pos' : ℕ) (failed failed' : Bool) :
    (s.moveTo pos failed).moveTo pos' failed' = s.moveTo pos' failed' := rfl

@[simp] theorem FileState.bytes_written (s : FileState) (pos : ℕ) (bytes : List UInt8) :
    (s.written pos bytes).bytes = overwrite 0 s.bytes pos bytes :=
  FileSystem.contents_put_self _ _ _

@[simp] theorem FileState.isOpen_written (s : FileState) (pos : ℕ) (bytes : List UInt8) :
    (s.written pos bytes).1.file.isOpen = s.1.file.isOpen := rfl

@[simp] theorem FileState.failed_written (s : FileState) (pos : ℕ) (bytes : List UInt8) :
    (s.written pos bytes).1.file.failed = false := rfl

namespace TableFile

/-! ### The operations of a clean stream -/

theorem checkOpen_apply {s : FileState} (h : s.1.file.isOpen = true) :
    checkOpen s = (.ok (), s) := by
  have hc : ¬s.1.file.isOpen = false := by simp [h]
  change (Prog.failIf (s.1.file.isOpen = false) _ : Prog FileState _ Unit) s = _
  rw [Prog.failIf_neg hc]
  rfl

theorem check_moveTo (s : FileState) (pos : ℕ) (failed : Bool) (e : TableFileError) :
    check e (s.moveTo pos failed) =
      (if failed = true then .error (.error e) else .ok (), s.moveTo pos failed) :=
  Prog.failIf_apply _ _ _

theorem check_moveTo_clean (s : FileState) (pos : ℕ) (e : TableFileError) :
    check e (s.moveTo pos false) = (.ok (), s.moveTo pos false) := check_moveTo s pos false e

theorem seekBeg_apply {s : FileState} (h : s.1.file.failed = false) (pos : ℕ) :
    seekBeg pos s = (.ok (), s.moveTo pos false) := by
  change (_, if s.1.file.failed = true then s else s.moveTo pos s.1.file.failed) = _
  rw [h]
  rfl

theorem clear_seekEnd_apply (s : FileState) (k : Unit → Prog FileState (Failure TableFileError) α) :
    (clear >>= fun _ => seekEnd >>= k) s =
      k () (s.moveTo s.bytes.length false) := rfl

theorem read_moveTo (s : FileState) (pos n : ℕ) :
    let bytes := slice s.bytes pos n
    read n (s.moveTo pos false) =
      (.ok bytes, s.moveTo (pos + bytes.length) (decide (bytes.length < n))) := rfl

theorem write_full {s : FileState} {pos : ℕ} {bytes : List UInt8}
    (h : max s.2.limit s.bytes.length < pos + bytes.length) :
    write bytes (s.moveTo pos false) = (.ok (), s.moveTo pos true) := by
  show (_, if max s.2.limit s.bytes.length < pos + bytes.length then s.moveTo pos true
    else s.written pos bytes) = _
  rw [if_pos h]

theorem write_room {s : FileState} {pos : ℕ} {bytes : List UInt8}
    (h : ¬max s.2.limit s.bytes.length < pos + bytes.length) :
    write bytes (s.moveTo pos false) = (.ok (), s.written pos bytes) := by
  show (_, if max s.2.limit s.bytes.length < pos + bytes.length then s.moveTo pos true
    else s.written pos bytes) = _
  rw [if_neg h]

end TableFile

/-! ### The methods, on any file -/

namespace TableFile

section Methods

variable {s : FileState} (hopen : s.1.file.isOpen = true)

include hopen

/-- Seeking on a stream whose flag is set does nothing, and the check that follows fails. -/
theorem seek_failed (hfailed : s.1.file.failed = true) (pos : ℕ)
    (k : Unit → Prog FileState (Failure TableFileError) α) :
    (checkOpen >>= fun _ => seekBeg pos >>= fun _ => check .failedToSeekPage >>= k) s =
      (.error (.error .failedToSeekPage), s) := by
  have hseek : seekBeg pos s = (.ok (), s) := by
    show (_, if s.1.file.failed = true then s else _) = _
    rw [if_pos hfailed]
  have hcheck : check .failedToSeekPage s = (.error (.error .failedToSeekPage), s) := by
    show (Prog.failIf (s.1.file.failed = true) _ : Prog FileState _ Unit) s = _
    rw [Prog.failIf_pos hfailed]
    rfl
  rw [Prog.bind_ok (checkOpen_apply hopen), Prog.bind_ok hseek, Prog.bind_error hcheck]

theorem seek_clean (hclean : s.1.file.failed = false) (pos : ℕ)
    (k : Unit → Prog FileState (Failure TableFileError) α) :
    (checkOpen >>= fun _ => seekBeg pos >>= fun _ => check .failedToSeekPage >>= k) s =
      k () (s.moveTo pos false) := by
  rw [Prog.bind_ok (checkOpen_apply hopen), Prog.bind_ok (seekBeg_apply hclean _),
    Prog.bind_ok (check_moveTo_clean _ _ _)]

theorem readPage_failed (hfailed : s.1.file.failed = true) (pageId : ℕ) :
    readPage pageId s = (.error (.error .failedToSeekPage), s) :=
  seek_failed hopen hfailed _ _

theorem writePage_failed (hfailed : s.1.file.failed = true) (page : Page) :
    writePage page s = (.error (.error .failedToSeekPage), s) :=
  seek_failed hopen hfailed _ _

/-- `readPage` needs a whole page. -/
theorem readPage_apply (hclean : s.1.file.failed = false) (pageId : ℕ) :
    let bytes := slice s.bytes (pageId * pageSize) pageSize
    readPage pageId s =
      if bytes.length < pageSize then
        (.error (.error .failedToReadPage), s.moveTo (pageId * pageSize + bytes.length) true)
      else
        (.ok { data := Block.ofBytes pageSize bytes, pageId := pageId },
          s.moveTo (pageId * pageSize + bytes.length) false) := by
  intro bytes
  rw [readPage, seek_clean hopen hclean, Prog.bind_ok (read_moveTo _ _ _)]
  by_cases hshort : bytes.length < pageSize
  · rw [if_pos hshort, decide_eq_true hshort, Prog.bind_error (check_moveTo _ _ true _)]
  · rw [if_neg hshort, decide_eq_false hshort, Prog.bind_ok (check_moveTo_clean _ _ _)]
    rfl

/-- `writePage` writes whole pages, wherever they are. -/
theorem writePage_apply (hclean : s.1.file.failed = false) (page : Page) :
    writePage page s =
      if max s.2.limit s.bytes.length < page.pageId * pageSize + pageSize then
        (.error (.error .failedToWritePage), s.moveTo (page.pageId * pageSize) true)
      else (.ok (), s.written (page.pageId * pageSize) page.data.val) := by
  rw [writePage, seek_clean hopen hclean]
  by_cases hfull : max s.2.limit s.bytes.length < page.pageId * pageSize + pageSize
  · rw [if_pos hfull, Prog.bind_ok (write_full (by rwa [page.data.property]))]
    exact check_moveTo _ _ true _
  · rw [if_neg hfull, Prog.bind_ok (write_room (by rwa [page.data.property]))]
    rfl

/-- `numPages` clears the stream, rounds the length of the file up to pages and leaves the
position at the end. -/
theorem numPages_apply :
    numPages s =
      (.ok ((s.bytes.length + pageSize - 1) / pageSize), s.moveTo s.bytes.length false) := by
  rw [numPages, Prog.bind_ok (checkOpen_apply hopen), clear_seekEnd_apply,
    Prog.bind_ok (check_moveTo_clean _ _ _)]
  rfl

/-- `allocatePage` clears the stream and appends a page to the bytes of the file. -/
theorem allocatePage_apply :
    let pageId := (s.bytes.length + pageSize - 1) / pageSize % 2 ^ 32
    allocatePage s =
      if max s.2.limit s.bytes.length < s.bytes.length + pageSize then
        (.error (.error .failedToWritePage), s.moveTo s.bytes.length true)
      else (.ok pageId, s.written s.bytes.length (Page.init pageId).data.val) := by
  intro pageId
  have hsize := (Page.init pageId).data.property
  rw [allocatePage, Prog.bind_ok (checkOpen_apply hopen), Prog.bind_ok (numPages_apply hopen),
    clear_seekEnd_apply, Prog.bind_ok (check_moveTo_clean _ _ _), FileState.moveTo_moveTo,
    FileState.bytes_moveTo]
  by_cases hfull : max s.2.limit s.bytes.length < s.bytes.length + pageSize
  · rw [if_pos hfull, Prog.bind_ok (write_full (by rwa [hsize])),
      Prog.bind_error (check_moveTo _ _ true _)]
  · rw [if_neg hfull, Prog.bind_ok (write_room (by rwa [hsize]))]
    rfl

end Methods

end TableFile

/-! ### The methods, on a file of pages -/

section Simulation

variable {base : FileSystem} {path : Str} {s : FileState} {bs : List (Block pageSize)}

theorem Backs.bytes_eq (h : Backs base path s bs) : s.bytes = Block.flat bs := by
  rw [FileState.bytes, h.path_eq, h.fs_eq, FileSystem.contents_put_self]

theorem Backs.limit_eq (h : Backs base path s bs) : s.2.limit = base.limit := by
  rw [h.fs_eq, FileSystem.limit_put]

/-- Moving the position or setting the flag does not change the pages. -/
theorem Backs.moveTo (h : Backs base path s bs) (pos : ℕ) (failed : Bool) :
    Backs base path (s.moveTo pos failed) bs :=
  ⟨h.filePath_eq, h.isOpen, h.path_eq, h.fs_eq⟩

/-- Writing to the file changes the pages. -/
theorem Backs.written (h : Backs base path s bs) {pos : ℕ} {bytes : List UInt8}
    {bs' : List (Block pageSize)} (hb : overwrite 0 (Block.flat bs) pos bytes = Block.flat bs') :
    BacksClean base path (s.written pos bytes) bs' := by
  refine ⟨⟨h.filePath_eq, h.isOpen, h.path_eq, ?_⟩, rfl⟩
  show s.2.put s.1.file.path (overwrite 0 s.bytes pos bytes) = _
  rw [h.bytes_eq, hb, h.path_eq, h.fs_eq, FileSystem.put_put]

/-- The length of whole pages, rounded up to pages. -/
theorem roundUp_pages (n : ℕ) : (n * pageSize + pageSize - 1) / pageSize = n := by
  simp only [pageSize]
  omega

/-- `numPages` clears the stream, counts the pages and leaves the position at the end. -/
theorem numPages_apply (h : Backs base path s bs) :
    TableFile.numPages s = (.ok bs.length, s.moveTo (bs.length * pageSize) false) := by
  rw [TableFile.numPages_apply h.isOpen, h.bytes_eq, Block.length_flat, roundUp_pages]

theorem sim_numPages (limit : ℕ) :
    Prog.Sim (Backs base path) TableFile.numPages (pageArray limit).numPages
      (BacksClean base path) (Backs base path) :=
  Prog.Sim.intro fun _ bs h =>
    .inl ⟨bs.length, _, bs, numPages_apply h, rfl, h.moveTo _ _, rfl⟩

theorem sim_readPage (limit pageId : ℕ) :
    Prog.Sim (BacksClean base path) (TableFile.readPage pageId) ((pageArray limit).readPage pageId)
      (BacksClean base path) (Backs base path) := by
  refine Prog.Sim.intro fun s bs h => ?_
  rw [TableFile.readPage_apply h.isOpen h.clean, h.bytes_eq]
  by_cases hi : pageId < bs.length
  · have hslice := Block.slice_flat hi
    have hfull : ¬(slice (Block.flat bs) (pageId * pageSize) pageSize).length < pageSize := by
      rw [hslice, bs[pageId].property]
      exact lt_irrefl _
    rw [if_neg hfull, hslice, Block.ofBytes_val]
    refine .inl ⟨_, _, bs, rfl, ?_, h.moveTo _ _, rfl⟩
    simp only [pageArray, Prog.gets_bind_apply, id_eq, List.getElem?_eq_getElem hi,
      Prog.pure_apply]
  · have hshort : (slice (Block.flat bs) (pageId * pageSize) pageSize).length < pageSize := by
      rw [slice, List.drop_of_length_le]
      · simp [pageSize]
      · rw [Block.length_flat]
        exact Nat.mul_le_mul_right pageSize (by omega)
    rw [if_pos hshort]
    refine .inr ⟨_, _, bs, rfl, ?_, h.moveTo _ _⟩
    simp only [pageArray, Prog.gets_bind_apply, id_eq,
      List.getElem?_eq_none (Nat.not_lt.1 hi), Prog.fail_apply]

theorem sim_writePage (page : Page) :
    Prog.Sim (BacksClean base path) (TableFile.writePage page)
      ((pageArray base.limit).writePage page) (BacksClean base path) (Backs base path) := by
  refine Prog.Sim.intro fun s bs h => ?_
  rw [TableFile.writePage_apply h.isOpen h.clean, h.bytes_eq, h.limit_eq, Block.length_flat]
  by_cases hfull : max base.limit (bs.length * pageSize) < page.pageId * pageSize + pageSize
  · rw [if_pos hfull]
    refine .inr ⟨_, _, bs, rfl, ?_, h.moveTo _ _⟩
    simp only [pageArray, Prog.gets_bind_apply, id_eq, Prog.failIf_pos hfull,
      Prog.fail_bind_apply]
  · rw [if_neg hfull]
    refine .inl ⟨(), _, Block.put bs page.pageId page.data, rfl, ?_,
      h.written (Block.overwrite_flat bs page.pageId page.data)⟩
    simp only [pageArray, Prog.gets_bind_apply, id_eq, Prog.failIf_neg hfull,
      Prog.pure_bind_apply, Prog.modify_apply]

theorem sim_allocatePage :
    Prog.Sim (Backs base path) TableFile.allocatePage (pageArray base.limit).allocatePage
      (BacksClean base path) (Backs base path) := by
  refine Prog.Sim.intro fun s bs h => ?_
  have hend := Block.overwrite_flat bs bs.length (Page.init (bs.length % 2 ^ 32)).data
  rw [Block.put_length] at hend
  rw [TableFile.allocatePage_apply h.isOpen, h.bytes_eq, h.limit_eq, Block.length_flat,
    roundUp_pages]
  by_cases hfull : max base.limit (bs.length * pageSize) < bs.length * pageSize + pageSize
  · rw [if_pos hfull]
    exact .inr ⟨_, _, bs, rfl, by rw [allocatePage_apply, if_pos hfull], h.moveTo _ _⟩
  · rw [if_neg hfull]
    exact .inl ⟨_, _, bs ++ [(Page.init (bs.length % 2 ^ 32)).data], rfl,
      by rw [allocatePage_apply, if_neg hfull], h.written hend⟩

end Simulation

end MicroSql
