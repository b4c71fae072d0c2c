import MicroSql.Ast.Statement
import MicroSql.Lib.Bytes

/-!
# Values, rows and the row codec

`storage/row.h` and `storage/row.cpp`.  A row is encoded field by field: a null
flag, then the bytes of the value, with a 16-bit length in front of a text.  The
encoder works out the size of the output first, fills the output with zeros and
writes the fields from left to right; the decoder is given a pointer and no
length, so reading past the end of the object it points into is a fault.
-/

namespace MicroSql

open Lib

/-- `RowError` -/
inductive RowError
  | schemaMismatch | dataTypeNotSupported | textTooLong
  deriving DecidableEq, Repr

/-- `std::variant<int64_t, double, std::string, bool, std::nullptr_t>` -/
inductive Value
  | int (v : Int64)
  | float (v : Double)
  | text (s : Str)
  | bool (b : Bool)
  | null
  deriving DecidableEq, Repr

/-- `operator==` of the variant: the same alternative, with equal contents. -/
def Value.eq : Value → Value → Bool
  | .int a, .int b => decide (a = b)
  | .float a, .float b => a.eq b
  | .text a, .text b => decide (a = b)
  | .bool a, .bool b => decide (a = b)
  | .null, .null => true
  | _, _ => false

/-- `index()` of the variant. -/
def Value.index : Value → ℕ
  | .int _ => 0
  | .float _ => 1
  | .text _ => 2
  | .bool _ => 3
  | .null => 4

/-- The values of a row, one for each column. -/
abbrev Row : Type := List Value

/-- The columns of a table. -/
abbrev Schema : Type := List ColumnDefinition

/-- `static_cast<size_t>(textLength)`: a negative length becomes a huge one. -/
def ColumnDefinition.textLimit (c : ColumnDefinition) : ℕ := (c.textLength % 2 ^ 64).toNat

/-! ### Encoding -/

/-- The number of bytes that one field takes, as the first loop of `serializeRow`
counts them.  Only a text column looks at the value. -/
def fieldSize (c : ColumnDefinition) (v : Value) : Expected RowError ℕ :=
  match v, c.type with
  | .null, _ => .ok 1
  | .text s, .text =>
    if s.length > c.textLimit then .error (.error .textTooLong) else .ok (1 + (2 + s.length))
  | _, .text => .error (.fault .badVariantAccess)
  | _, _ => .ok (1 + c.size)

/-- The bytes of one field, as the second loop writes them.  The length of a text
is narrowed to 16 bits, and as many bytes are copied as the narrowed length says. -/
def fieldBytes (c : ColumnDefinition) (v : Value) : Expected RowError (List UInt8) :=
  match v, c.type with
  | .null, _ => .ok [1]
  | .bool b, .boolean => .ok [0, if b then 1 else 0]
  | .int n, .integer => .ok (0 :: toLE 8 n.toUInt64.toNat)
  | .float d, .float => .ok (0 :: toLE 8 d.bits.toNat)
  | .text s, .text =>
    let len := s.length % 65536
    .ok (0 :: (toLE 2 len ++ s.take len))
  | _, _ => .error (.fault .badVariantAccess)

/-- The first loop: `totalSize`. -/
def encodedSize : Row → Schema → Expected RowError ℕ
  | v :: row, c :: schema => do
    let n ← fieldSize c v
    let rest ← encodedSize row schema
    return n + rest
  | _, _ => return 0

/-- The second loop: the fields, one after the other. -/
def encodeFields : Row → Schema → Expected RowError (List UInt8)
  | v :: row, c :: schema => do
    let bytes ← fieldBytes c v
    let rest ← encodeFields row schema
    return bytes ++ rest
  | _, _ => return []

/-- `serializeRow`.  What the second loop does not write stays zero. -/
def serializeRow (row : Row) (schema : Schema) : Expected RowError (List UInt8) := do
  if row.length ≠ schema.length then throw (.error .schemaMismatch)
  let totalSize ← encodedSize row schema
  let bytes ← encodeFields row schema
  return bytes ++ List.replicate (totalSize - bytes.length) 0

/-! ### Decoding -/

/-- `memcpy` from the object `data` points into, of which `data` is the rest. -/
def readBytes (data : List UInt8) (offset n : ℕ) : Expected RowError (List UInt8) :=
  if offset + n ≤ data.length then .ok (slice data offset n)
  else .error (.fault .outOfBounds)

/-- One field after its null flag: the value, and how far the offset moves. -/
def decodeField (data : List UInt8) (offset : ℕ) (c : ColumnDefinition) :
    Expected RowError (Value × ℕ) :=
  match c.type with
  | .boolean => do
    let bytes ← readBytes data offset c.size
    return (.bool (bytes != [0]), c.size)
  | .integer => do
    let bytes ← readBytes data offset c.size
    return (.int ⟨UInt64.ofNat (fromLE bytes)⟩, c.size)
  | .float => do
    let bytes ← readBytes data offset c.size
    return (.float ⟨UInt64.ofNat (fromLE bytes)⟩, c.size)
  | .text => do
    let len ← readBytes data offset 2
    let bytes ← readBytes data (offset + 2) (fromLE len)
    return (.text bytes, 2 + fromLE len)

/-- The loop of `deserializeRow` from `offset` on. -/
def decodeFields (data : List UInt8) : ℕ → Schema → Expected RowError Row
  | _, [] => .ok []
  | offset, c :: schema => do
    let flag ← readBytes data offset 1
    if flag != [0] then
      let row ← decodeFields data (offset + 1) schema
      return .null :: row
    else
      let (v, n) ← decodeField data (offset + 1) c
      let row ← decodeFields data (offset + 1 + n) schema
      return v :: row

/-- `deserializeRow`.  `data` is what lies between the pointer and the end of the
object. -/
def deserializeRow (data : List UInt8) (schema : Schema) : Expected RowError Row :=
  decodeFields data 0 schema

end MicroSql
