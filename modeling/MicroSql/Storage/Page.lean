import MicroSql.Ast.Basic
import MicroSql.Lib.Prog
import MicroSql.Lib.Blocks

/-!
# Slotted pages

`struct Page` of `storage/page.h` and its methods in `storage/page.cpp`.  A method
that changes the page is a program whose state is the page, so that a call that
returns an error leaves a page too.  `uint16_t` values are natural numbers, and
every conversion to `uint16_t` is written out as `narrow16`.
-/

namespace MicroSql

open Lib

/-- `PageError` -/
inductive PageError
  | invalidRowLength | pageFull | slotOutOfBounds | slotDeleted
  deriving DecidableEq, Repr

/-- `PAGE_SIZE` -/
abbrev pageSize : ℕ := 4096

/-- `HEADER_SIZE` -/
abbrev headerSize : ℕ := 16

/-- `SLOT_ENTRY_SIZE`: the offset of a row and its length, in two bytes each. -/
abbrev slotEntrySize : ℕ := 4

/-- `HEADER_OFFSET_NUM_SLOTS` -/
abbrev headerOffsetNumSlots : ℕ := 4

/-- `HEADER_OFFSET_FREE_PTR` -/
abbrev headerOffsetFreePtr : ℕ := 6

/-- The conversion of an integer to `uint16_t`. -/
def narrow16 (x : ℤ) : ℕ := (x % 65536).toNat

theorem narrow16_of_lt {x : ℤ} {n : ℕ} (h : x = n) (hn : n < 65536) : narrow16 x = n := by
  subst h
  unfold narrow16
  omega

/-- A page in memory: its bytes, and its id, which is not among them. -/
structure Page where
  data : Block pageSize
  pageId : ℕ
  deriving DecidableEq

namespace Page

/-! ### The methods -/

/-- `read16`.  Bytes outside the page read as zero; no page that the methods build
has a slot entry there. -/
def read16 (p : Page) (offset : ℕ) : ℕ := fromLE (slice p.data.val offset 2)

/-- The number of slots, deleted ones included. -/
def numSlots (p : Page) : ℕ := p.read16 headerOffsetNumSlots

/-- The free pointer, where the rows begin. -/
def freePtr (p : Page) : ℕ := p.read16 headerOffsetFreePtr

/-- `freeSpace`: the bytes between the slot directory and the rows. -/
def freeSpace (p : Page) : ℕ :=
  narrow16 (p.freePtr - (headerSize + p.numSlots * slotEntrySize))

/-- The offset stored in the entry of slot `i`. -/
def slotOffset (p : Page) (i : ℕ) : ℕ := p.read16 (headerSize + i * slotEntrySize)

/-- The length stored in the entry of slot `i`. -/
def slotLength (p : Page) (i : ℕ) : ℕ := p.read16 (headerSize + i * slotEntrySize + 2)

/-- A zero length means that the slot is deleted. -/
def slotDeleted (p : Page) (i : ℕ) : Bool := p.slotLength i == 0

/-- The page after the bytes from `offset` on are replaced. -/
def write (p : Page) (offset : ℕ) (bytes : List UInt8) : Page :=
  { p with data := p.data.write offset bytes }

/-- `memcpy(data + offset, src, n)`: reading outside `src` or writing outside the
page is a fault. -/
def memcpy (offset : ℕ) (src : List UInt8) (n : ℕ) : Prog Page (Failure PageError) Unit := do
  .failIf (src.length < n ∨ pageSize < offset + n) (.fault .outOfBounds)
  .modify fun p => p.write offset (src.take n)

/-- `write16` -/
def write16 (offset value : ℕ) : Prog Page (Failure PageError) Unit :=
  memcpy offset (toLE 2 value) 2

/-- The page that `init(id)` leaves. -/
def init (id : ℕ) : Page where
  data := ((Block.zero pageSize).write headerOffsetNumSlots (toLE 2 0)).write
    headerOffsetFreePtr (toLE 2 pageSize)
  pageId := id

/-- `insertRow` -/
def insertRow (rowBytes : List UInt8) (rowLen : ℕ) : Prog Page (Failure PageError) Unit := do
  .failIf (rowLen = 0) (.error .invalidRowLength)
  let slots ← .gets numSlots
  let freeptr ← .gets freePtr
  let space ← .gets freeSpace
  let slotDirEnd := headerSize + slots * slotEntrySize
  .failIf (space < rowLen + slotEntrySize) (.error .pageFull)
  let offset := narrow16 (freeptr - rowLen)
  memcpy offset rowBytes rowLen
  write16 slotDirEnd offset
  write16 (slotDirEnd + 2) rowLen
  write16 headerOffsetFreePtr offset
  write16 headerOffsetNumSlots (slots + 1)

/-- `readRow`: the page from the returned pointer on, and `rowLen`. -/
def readRow (p : Page) (slotIndex : ℕ) : Expected PageError (List UInt8 × ℕ) :=
  if slotIndex ≥ p.numSlots then .error (.error .slotOutOfBounds)
  else if p.slotDeleted slotIndex then .error (.error .slotDeleted)
  else .ok (p.data.val.drop (p.slotOffset slotIndex), p.slotLength slotIndex)

/-- `deleteRow`: the length in the slot becomes zero. -/
def deleteRow (slotIndex : ℕ) : Prog Page (Failure PageError) Unit := do
  let slots ← .gets numSlots
  .failIf (slotIndex ≥ slots) (.error .slotOutOfBounds)
  let deleted ← .gets fun p => p.slotDeleted slotIndex
  .failIf (deleted = true) (.error .slotDeleted)
  let slot := headerSize + slotIndex * slotEntrySize
  write16 (slot + 2) 0

/-- `updateRow`.  The returned pointer is given by its offset in the page. -/
def updateRow (slotIndex : ℕ) (rowBytes : List UInt8) (rowLen : ℕ) :
    Prog Page (Failure PageError) ℕ := do
  let slots ← .gets numSlots
  .failIf (slotIndex ≥ slots) (.error .slotOutOfBounds)
  let deleted ← .gets fun p => p.slotDeleted slotIndex
  .failIf (deleted = true) (.error .slotDeleted)
  .failIf (rowLen = 0) (.error .invalidRowLength)
  let slotOffset := headerSize + slotIndex * slotEntrySize
  let oldRowOffset ← .gets fun p => p.read16 slotOffset
  let oldRowLen ← .gets fun p => p.read16 (slotOffset + 2)
  -- a row that has grown is written at the free pointer
  if rowLen > oldRowLen then
    let space ← .gets freeSpace
    .failIf (space < rowLen) (.error .pageFull)
    let freeptr ← .gets freePtr
    let newRowOffset := narrow16 (freeptr - rowLen)
    memcpy newRowOffset rowBytes rowLen
    write16 slotOffset newRowOffset
    write16 (slotOffset + 2) rowLen
    write16 headerOffsetFreePtr newRowOffset
    return newRowOffset
  else
    memcpy oldRowOffset rowBytes rowLen
    write16 (slotOffset + 2) rowLen
    return oldRowOffset

end Page

end MicroSql
