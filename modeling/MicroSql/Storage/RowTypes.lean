import MicroSql.Storage.RowCodec

/-!
# Values of another type

What the encoder does with a value that is not of the type of its column.  The first loop of
`serializeRow` looks at the texts only, and the second takes the type of every value for
granted: what comes first, a text that is too long or a value of another type, decides
between the error that is returned and the exception that nothing catches.
-/

namespace MicroSql

open Lib

/-- NULL, or a value of the type of the column. -/
def Value.Typed (v : Value) (c : ColumnDefinition) : Prop :=
  match v with
  | .null => True
  | .int _ => c.type = .integer
  | .float _ => c.type = .float
  | .text _ => c.type = .text
  | .bool _ => c.type = .boolean

instance (v : Value) (c : ColumnDefinition) : Decidable (v.Typed c) :=
  match v with
  | .null => inferInstanceAs (Decidable True)
  | .int _ => inferInstanceAs (Decidable (c.type = .integer))
  | .float _ => inferInstanceAs (Decidable (c.type = .float))
  | .text _ => inferInstanceAs (Decidable (c.type = .text))
  | .bool _ => inferInstanceAs (Decidable (c.type = .boolean))

/-- A row with one value for each column, each of the type of its column. -/
abbrev Row.Typed (row : Row) (schema : Schema) : Prop := List.Forall₂ Value.Typed row schema

/-- Some text is too long for its column, and the TEXT columns before it hold NULL or texts. -/
inductive StopsAtText : Row → Schema → Prop
  | here {s : Str} {row : Row} {c : ColumnDefinition} {schema : Schema} (ht : c.type = .text)
      (hlong : c.textLimit < s.length) : StopsAtText (.text s :: row) (c :: schema)
  | later {v : Value} {row : Row} {c : ColumnDefinition} {schema : Schema}
      (hv : c.type = .text → v.Typed c) (h : StopsAtText row schema) :
      StopsAtText (v :: row) (c :: schema)

theorem Value.Suits.typed {v : Value} {c : ColumnDefinition} (h : v.Suits c) : v.Typed c := by
  cases v with
  | text s => exact h.1
  | _ => exact h

/-- A row that suits the schema stops nowhere. -/
theorem Row.Suits.not_stopsAtText {row : Row} {schema : Schema} (h : row.Suits schema) :
    ¬StopsAtText row schema := by
  induction h with
  | nil => rintro ⟨⟩
  | @cons v c row schema hv _ ih =>
    intro hstop
    cases hstop with
    | here ht hlong => exact absurd hv.2 (Nat.not_le.2 hlong)
    | later _ hrest => exact ih hrest

/-! ### The two loops -/

/-- How the first loop passes a column. -/
theorem fieldSize_cases (v : Value) (c : ColumnDefinition) :
    (c.type = .text ∧ (∃ s, v = .text s ∧ c.textLimit < s.length) ∧
      fieldSize c v = .error (.error .textTooLong)) ∨
    (c.type = .text ∧ ¬v.Typed c ∧ fieldSize c v = .error (.fault .badVariantAccess)) ∨
    ((c.type = .text → v.Suits c) ∧ ∃ n, fieldSize c v = .ok n) := by
  rcases v with i | d | s | b | _
  case text =>
    by_cases hc : c.type = .text
    · by_cases hlong : s.length > c.textLimit
      · exact .inl ⟨hc, ⟨s, rfl, hlong⟩, by simp [fieldSize, hc, hlong]⟩
      · exact .inr (.inr ⟨fun hc => ⟨hc, Nat.not_lt.1 hlong⟩, by simp [fieldSize, hc, hlong]⟩)
    · refine .inr (.inr ⟨fun ht => absurd ht hc, ?_⟩)
      cases hc' : c.type <;> simp_all [fieldSize]
  case null => exact .inr (.inr ⟨fun _ => trivial, by simp [fieldSize]⟩)
  all_goals
    cases hc : c.type <;> simp [fieldSize, hc, Value.Typed, Value.Suits]

/-- **The first loop** returns an error if the first TEXT column that it cannot count holds a
text, raises an exception if it holds another value, and counts everything if there is none. -/
theorem encodedSize_cases {row : Row} {schema : Schema} (hlen : row.length = schema.length) :
    (StopsAtText row schema ∧ encodedSize row schema = .error (.error .textTooLong)) ∨
    (¬StopsAtText row schema ∧ ¬row.Typed schema ∧
      encodedSize row schema = .error (.fault .badVariantAccess)) ∨
    (¬StopsAtText row schema ∧ (row.Typed schema → row.Suits schema) ∧
      ∃ n, encodedSize row schema = .ok n) := by
  induction row generalizing schema with
  | nil =>
    obtain rfl : schema = [] := List.length_eq_zero_iff.1 hlen.symm
    refine .inr (.inr ⟨?_, fun _ => .nil, 0, rfl⟩)
    rintro ⟨⟩
  | cons v row ih =>
    cases schema with
    | nil => simp at hlen
    | cons c schema =>
      have hrest : row.length = schema.length := by simpa using hlen
      rcases fieldSize_cases v c with ⟨hc, ⟨s, rfl, hlong⟩, hsize⟩ | ⟨hc, hv, hsize⟩ |
        ⟨hv, n, hsize⟩
      · exact .inl ⟨.here hc hlong, by rw [encodedSize, hsize, error_bind]⟩
      · refine .inr (.inl ⟨?_, ?_, by rw [encodedSize, hsize, error_bind]⟩)
        · intro hstop
          cases hstop with
          | here ht _ => exact hv ht
          | later ht _ => exact hv (ht hc)
        · intro htyped
          cases htyped with
          | cons hv' _ => exact hv hv'
      -- the loop has passed this column
      have hstop : StopsAtText (v :: row) (c :: schema) ↔ StopsAtText row schema := by
        constructor
        · intro hstop
          cases hstop with
          | here ht hlong => exact absurd (hv ht).2 (Nat.not_le.2 hlong)
          | later _ hrest => exact hrest
        · exact .later fun ht => (hv ht).typed
      rw [encodedSize, hsize, ok_bind, hstop]
      rcases ih hrest with ⟨hs, hloop⟩ | ⟨hs, ht, hloop⟩ | ⟨hs, ht, m, hloop⟩
      · exact .inl ⟨hs, by rw [hloop, error_bind]⟩
      · refine .inr (.inl ⟨hs, ?_, by rw [hloop, error_bind]⟩)
        intro htyped
        cases htyped with
        | cons _ htyped => exact ht htyped
      · refine .inr (.inr ⟨hs, ?_, n + m, by rw [hloop]; rfl⟩)
        intro htyped
        cases htyped with
        | cons hvt htyped =>
          refine .cons ?_ (ht htyped)
          cases v with
          | text s => exact hv hvt
          | _ => exact hvt

theorem fieldBytes_cases (v : Value) (c : ColumnDefinition) :
    (v.Typed c ∧ ∃ bytes, fieldBytes c v = .ok bytes) ∨
      (¬v.Typed c ∧ fieldBytes c v = .error (.fault .badVariantAccess)) := by
  rcases v with i | d | s | b | _ <;> cases hc : c.type <;>
    simp [fieldBytes, hc, Value.Typed]

/-- The second loop raises an exception at the first value of another type. -/
theorem encodeFields_cases {row : Row} {schema : Schema} (hlen : row.length = schema.length) :
    (row.Typed schema ∧ ∃ bytes, encodeFields row schema = .ok bytes) ∨
      (¬row.Typed schema ∧ encodeFields row schema = .error (.fault .badVariantAccess)) := by
  induction row generalizing schema with
  | nil =>
    obtain rfl : schema = [] := List.length_eq_zero_iff.1 hlen.symm
    exact .inl ⟨.nil, [], rfl⟩
  | cons v row ih =>
    cases schema with
    | nil => simp at hlen
    | cons c schema =>
      have hrest : row.length = schema.length := by simpa using hlen
      rcases fieldBytes_cases v c with ⟨hv, b, hb⟩ | ⟨hv, hb⟩
      · rw [encodeFields, hb, ok_bind]
        rcases ih hrest with ⟨ht, bs, hbs⟩ | ⟨ht, hbs⟩
        · exact .inl ⟨.cons hv ht, b ++ bs, by rw [hbs]; rfl⟩
        · refine .inr ⟨?_, by rw [hbs, error_bind]⟩
          intro htyped
          cases htyped with
          | cons _ htyped => exact ht htyped
      · refine .inr ⟨?_, by rw [encodeFields, hb, error_bind]⟩
        intro htyped
        cases htyped with
        | cons hv' _ => exact hv hv'

/-! ### The encoder -/

theorem serializeRow_of_length_ne {row : Row} {schema : Schema}
    (hlen : row.length ≠ schema.length) :
    serializeRow row schema = .error (.error .schemaMismatch) := by
  unfold serializeRow
  rw [if_pos hlen]
  rfl

/-- **The encoder** on a row of the right length: the text that is too long, if the first loop
comes to it; else the bytes, if every value is of the type of its column; else an exception. -/
theorem serializeRow_cases {row : Row} {schema : Schema} (hlen : row.length = schema.length) :
    (StopsAtText row schema ∧ serializeRow row schema = .error (.error .textTooLong)) ∨
    (row.Suits schema ∧ ∃ bytes, serializeRow row schema = .ok bytes) ∨
    (¬StopsAtText row schema ∧ ¬row.Typed schema ∧
      serializeRow row schema = .error (.fault .badVariantAccess)) := by
  have hrun : serializeRow row schema = (do
      let totalSize ← encodedSize row schema
      let bytes ← encodeFields row schema
      return bytes ++ List.replicate (totalSize - bytes.length) 0) := by
    unfold serializeRow
    rw [if_neg (not_not.2 hlen)]
  rcases encodedSize_cases hlen with ⟨hs, hsize⟩ | ⟨hs, ht, hsize⟩ | ⟨hs, hsuits, n, hsize⟩
  · exact .inl ⟨hs, by rw [hrun, hsize, error_bind]⟩
  · exact .inr (.inr ⟨hs, ht, by rw [hrun, hsize, error_bind]⟩)
  · rcases encodeFields_cases hlen with ⟨ht, bytes, hbytes⟩ | ⟨ht, hbytes⟩
    · exact .inr (.inl ⟨hsuits ht, (hsuits ht).serializeRow⟩)
    · exact .inr (.inr ⟨hs, ht, by rw [hrun, hsize, ok_bind, hbytes, error_bind]⟩)

theorem StopsAtText.serializeRow {row : Row} {schema : Schema} (h : StopsAtText row schema)
    (hlen : row.length = schema.length) :
    serializeRow row schema = .error (.error .textTooLong) := by
  rcases serializeRow_cases hlen with ⟨-, hrun⟩ | ⟨hsuits, -⟩ | ⟨hstop, -⟩
  · exact hrun
  · exact absurd h hsuits.not_stopsAtText
  · exact absurd h hstop

/-- A row that has an encoding suits the schema. -/
theorem Encodes.suits {row : Row} {schema : Schema} {bytes : List UInt8}
    (h : Encodes schema bytes row) : row.Suits schema := by
  rcases serializeRow_cases h.length_eq with ⟨-, hrun⟩ | ⟨hsuits, -⟩ | ⟨-, -, hrun⟩
  · rw [h.serialize] at hrun
    cases hrun
  · exact hsuits
  · rw [h.serialize] at hrun
    cases hrun

end MicroSql
