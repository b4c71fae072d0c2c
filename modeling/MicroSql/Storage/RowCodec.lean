import MicroSql.Storage.Row
import MicroSql.Lib.Except

/-!
# Decoding undoes encoding

The bytes of a field determine the field: whatever follows them, the decoder
returns the value it started from and moves past exactly those bytes.  This needs
every text to be at most 65535 bytes long, since its length is stored in 16 bits;
a row whose whole encoding has at most 65535 bytes has only such texts.
-/

namespace MicroSql

open Lib

/-- A text whose length fits into its 16-bit prefix. -/
def Value.Fits (v : Value) : Prop := ∀ s, v = .text s → s.length < 65536

theorem readBytes_append (pre bs suf : List UInt8) :
    readBytes (pre ++ bs ++ suf) pre.length bs.length = .ok bs := by
  have hlen : pre.length + bs.length ≤ (pre ++ bs ++ suf).length := by
    simp only [List.length_append]
    omega
  rw [readBytes, if_pos hlen, slice, List.append_assoc, List.drop_left, List.take_left]

/-! ### One field -/

/-- Of the two loops the second writes no more bytes than the first has counted. -/
theorem length_fieldBytes_le {c : ColumnDefinition} {v : Value} {bytes : List UInt8} {n : ℕ}
    (hb : fieldBytes c v = .ok bytes) (hn : fieldSize c v = .ok n) : bytes.length ≤ n := by
  rcases v with i | d | s | b | _ <;> cases hc : c.type <;>
    simp only [fieldBytes, fieldSize, hc, ColumnDefinition.size, reduceCtorEq,
      Except.ok.injEq] at hb hn <;>
    subst hb
  case text.text =>
    split at hn
    · simp at hn
    · simp only [Except.ok.injEq] at hn
      subst hn
      simp only [List.length_cons, List.length_append, length_toLE, List.length_take]
      omega
  all_goals subst hn; simp

/-- A field that was counted and written takes at least the bytes of its text. -/
theorem fits_of_fieldSize {c : ColumnDefinition} {v : Value} {bytes : List UInt8} {n : ℕ}
    (hb : fieldBytes c v = .ok bytes) (hn : fieldSize c v = .ok n) (h : n < 65536) : v.Fits := by
  rintro s rfl
  cases hc : c.type <;> simp only [fieldBytes, fieldSize, hc, reduceCtorEq] at hb hn
  split at hn
  · simp at hn
  · simp only [Except.ok.injEq] at hn
    omega

theorem fieldBytes_null (c : ColumnDefinition) : fieldBytes c .null = .ok [1] := by
  cases c.type <;> simp [fieldBytes]

/-- The decoder reads a value back from the bytes after its null flag. -/
theorem decodeField_append {c : ColumnDefinition} {v : Value} {bytes : List UInt8}
    (hb : fieldBytes c v = .ok bytes) (hv : v ≠ .null) (hf : v.Fits) :
    ∃ body, bytes = 0 :: body ∧ ∀ pre suf,
      decodeField (pre ++ body ++ suf) pre.length c = .ok (v, body.length) := by
  rcases v with i | d | s | b | _ <;> cases hc : c.type <;>
    simp only [fieldBytes, hc, reduceCtorEq, Except.ok.injEq] at hb
  case int.integer =>
    refine ⟨_, hb.symm, fun pre suf => ?_⟩
    have hread := readBytes_append pre (toLE 8 i.toUInt64.toNat) suf
    have hval : fromLE (toLE 8 i.toUInt64.toNat) = i.toUInt64.toNat :=
      fromLE_toLE_of_lt i.toUInt64.toNat_lt
    rw [length_toLE] at hread
    simp only [decodeField, hc, ColumnDefinition.size, hread, ok_bind, pure_eq_ok, hval,
      UInt64.ofNat_toNat, length_toLE]
  case float.float =>
    refine ⟨_, hb.symm, fun pre suf => ?_⟩
    have hread := readBytes_append pre (toLE 8 d.bits.toNat) suf
    have hval : fromLE (toLE 8 d.bits.toNat) = d.bits.toNat :=
      fromLE_toLE_of_lt d.bits.toNat_lt
    rw [length_toLE] at hread
    simp only [decodeField, hc, ColumnDefinition.size, hread, ok_bind, pure_eq_ok, hval,
      UInt64.ofNat_toNat, length_toLE]
  case text.text =>
    -- a text that fits is written whole, after its length in two bytes
    have hs := hf s rfl
    rw [Nat.mod_eq_of_lt hs, List.take_length] at hb
    refine ⟨_, hb.symm, fun pre suf => ?_⟩
    have hlen : fromLE (toLE 2 s.length) = s.length := fromLE_toLE_of_lt hs
    have h1 := readBytes_append pre (toLE 2 s.length) (s ++ suf)
    have h2 := readBytes_append (pre ++ toLE 2 s.length) s suf
    simp only [List.append_assoc, length_toLE, List.length_append] at h1 h2
    simp only [decodeField, hc, List.append_assoc, h1, ok_bind, hlen, h2, pure_eq_ok,
      List.length_append, length_toLE]
  case bool.boolean =>
    refine ⟨_, hb.symm, fun pre suf => ?_⟩
    have hread := readBytes_append pre [if b then 1 else 0] suf
    rw [List.length_singleton] at hread
    simp only [decodeField, hc, ColumnDefinition.size, hread, ok_bind, pure_eq_ok]
    cases b <;> rfl
  all_goals exact absurd rfl hv

/-! ### The two loops of the encoder -/

theorem encodeFields_cons {v : Value} {row : Row} {c : ColumnDefinition} {schema : Schema}
    {bytes : List UInt8} :
    encodeFields (v :: row) (c :: schema) = .ok bytes ↔
      ∃ b bs, fieldBytes c v = .ok b ∧ encodeFields row schema = .ok bs ∧ b ++ bs = bytes := by
  simp only [encodeFields, bind_eq_ok, pure_eq_ok, Except.ok.injEq, exists_and_left]

theorem encodedSize_cons {v : Value} {row : Row} {c : ColumnDefinition} {schema : Schema}
    {n : ℕ} :
    encodedSize (v :: row) (c :: schema) = .ok n ↔
      ∃ k m, fieldSize c v = .ok k ∧ encodedSize row schema = .ok m ∧ k + m = n := by
  simp only [encodedSize, bind_eq_ok, pure_eq_ok, Except.ok.injEq, exists_and_left]

/-- Every value of a row that was encoded suits its column. -/
theorem fieldBytes_of_encodeFields {row : Row} {schema : Schema} {bytes : List UInt8}
    (hb : encodeFields row schema = .ok bytes) {i : ℕ} {v : Value} {c : ColumnDefinition}
    (hv : row[i]? = some v) (hc : schema[i]? = some c) : ∃ b, fieldBytes c v = .ok b := by
  induction row generalizing schema bytes i with
  | nil => simp at hv
  | cons w row ih =>
    cases schema with
    | nil => simp at hc
    | cons d schema =>
      obtain ⟨b, bs, hfb, hbs, -⟩ := encodeFields_cons.1 hb
      cases i with
      | zero =>
        cases hv
        cases hc
        exact ⟨b, hfb⟩
      | succ i => exact ih hbs (by simpa using hv) (by simpa using hc)

theorem length_encodeFields_le {row : Row} {schema : Schema} {bytes : List UInt8} {n : ℕ}
    (hb : encodeFields row schema = .ok bytes) (hn : encodedSize row schema = .ok n) :
    bytes.length ≤ n := by
  induction row generalizing schema bytes n with
  | nil =>
    cases hb
    exact Nat.zero_le _
  | cons v row ih =>
    cases schema with
    | nil =>
      cases hb
      exact Nat.zero_le _
    | cons c schema =>
      obtain ⟨b, bs, hfb, hbs, rfl⟩ := encodeFields_cons.1 hb
      obtain ⟨k, m, hk, hm, rfl⟩ := encodedSize_cons.1 hn
      have h1 := length_fieldBytes_le hfb hk
      have h2 := ih hbs hm
      rw [List.length_append]
      omega

/-- A row whose encoding has at most 65535 bytes has only texts that fit. -/
theorem fits_of_encodedSize {row : Row} {schema : Schema} {bytes : List UInt8} {n : ℕ}
    (hlen : row.length = schema.length) (hb : encodeFields row schema = .ok bytes)
    (hn : encodedSize row schema = .ok n) (h : n < 65536) : ∀ v ∈ row, v.Fits := by
  induction row generalizing schema bytes n with
  | nil => simp
  | cons v row ih =>
    cases schema with
    | nil => simp at hlen
    | cons c schema =>
      obtain ⟨b, bs, hfb, hbs, rfl⟩ := encodeFields_cons.1 hb
      obtain ⟨k, m, hk, hm, rfl⟩ := encodedSize_cons.1 hn
      intro w hw
      rcases List.mem_cons.1 hw with rfl | hw
      · exact fits_of_fieldSize hfb hk (by omega)
      · exact ih (by simpa using hlen) hbs hm (by omega) w hw

theorem decodeFields_null {data : List UInt8} {offset : ℕ} {c : ColumnDefinition}
    {schema : Schema} {row : Row} (hflag : readBytes data offset 1 = .ok [1])
    (htail : decodeFields data (offset + 1) schema = .ok row) :
    decodeFields data offset (c :: schema) = .ok (.null :: row) := by
  simp only [decodeFields, hflag, ok_bind, htail, pure_eq_ok]
  rfl

theorem decodeFields_value {data : List UInt8} {offset n : ℕ} {c : ColumnDefinition}
    {schema : Schema} {v : Value} {row : Row} (hflag : readBytes data offset 1 = .ok [0])
    (hval : decodeField data (offset + 1) c = .ok (v, n))
    (htail : decodeFields data (offset + 1 + n) schema = .ok row) :
    decodeFields data offset (c :: schema) = .ok (v :: row) := by
  simp only [decodeFields, hflag, ok_bind, hval, htail, pure_eq_ok]
  rfl

/-- The loop of the decoder reads back what the loop of the encoder wrote. -/
theorem decodeFields_append {row : Row} {schema : Schema} {bytes : List UInt8}
    (hlen : row.length = schema.length) (hb : encodeFields row schema = .ok bytes)
    (hf : ∀ v ∈ row, v.Fits) (pre suf : List UInt8) :
    decodeFields (pre ++ bytes ++ suf) pre.length schema = .ok row := by
  induction row generalizing schema bytes pre with
  | nil =>
    cases schema with
    | nil => rfl
    | cons c schema => simp at hlen
  | cons v row ih =>
    cases schema with
    | nil => simp at hlen
    | cons c schema =>
      obtain ⟨b, bs, hfb, hbs, rfl⟩ := encodeFields_cons.1 hb
      have hrest : row.length = schema.length := by simpa using hlen
      have hfits : ∀ w ∈ row, w.Fits := fun w hw => hf w (List.mem_cons_of_mem v hw)
      -- a null is its flag alone
      by_cases hv : v = .null
      · subst hv
        rw [fieldBytes_null] at hfb
        cases hfb
        have hflag := readBytes_append pre [1] (bs ++ suf)
        have htail := ih hrest hbs hfits (pre ++ [1])
        simp only [List.append_assoc, List.length_append, List.length_singleton] at hflag htail ⊢
        exact decodeFields_null hflag htail
      · obtain ⟨body, rfl, hdec⟩ := decodeField_append hfb hv (hf v List.mem_cons_self)
        have hflag := readBytes_append pre [0] (body ++ (bs ++ suf))
        have hval := hdec (pre ++ [0]) (bs ++ suf)
        have htail := ih hrest hbs hfits (pre ++ [0] ++ body)
        have hdata : pre ++ (0 :: body ++ bs) ++ suf = pre ++ [0] ++ body ++ (bs ++ suf) := by
          simp
        simp only [List.append_assoc, List.length_singleton] at hflag
        simp only [List.append_assoc, List.length_append, List.length_singleton] at hval htail
        rw [← Nat.add_assoc] at htail
        rw [hdata]
        simp only [List.append_assoc]
        exact decodeFields_value hflag hval htail

/-! ### Whole rows -/

/-- What it takes for `serializeRow` to return bytes. -/
theorem serializeRow_eq_ok {row : Row} {schema : Schema} {bytes : List UInt8} :
    serializeRow row schema = .ok bytes ↔ row.length = schema.length ∧
      ∃ n fs, encodedSize row schema = .ok n ∧ encodeFields row schema = .ok fs ∧
        bytes = fs ++ List.replicate (n - fs.length) 0 := by
  unfold serializeRow
  by_cases hlen : row.length = schema.length
  · simp only [hlen, ne_eq, not_true_eq_false, if_false, bind_eq_ok, pure_eq_ok,
      Except.ok.injEq, true_and, exists_and_left, @eq_comm _ _ bytes]
  · simp [hlen]

/-- The output of `serializeRow` is as long as its first loop counted. -/
theorem length_serializeRow {row : Row} {schema : Schema} {bytes : List UInt8} {n : ℕ}
    (h : serializeRow row schema = .ok bytes) (hn : encodedSize row schema = .ok n) :
    bytes.length = n := by
  obtain ⟨-, m, fs, hm, hfs, rfl⟩ := serializeRow_eq_ok.1 h
  rw [hm] at hn
  cases hn
  have := length_encodeFields_le hfs hm
  rw [List.length_append, List.length_replicate]
  omega

/-- **Decoding undoes encoding.**  The decoder returns the row that was encoded,
whatever follows the encoding. -/
theorem deserializeRow_append {row : Row} {schema : Schema} {bytes : List UInt8}
    (h : serializeRow row schema = .ok bytes) (hf : ∀ v ∈ row, v.Fits) (suf : List UInt8) :
    deserializeRow (bytes ++ suf) schema = .ok row := by
  obtain ⟨hlen, n, fs, hn, hfs, rfl⟩ := serializeRow_eq_ok.1 h
  rw [deserializeRow, List.append_assoc]
  exact decodeFields_append hlen hfs hf [] _

/-- A decoded row has a value for each column, whatever the bytes are. -/
theorem length_decodeFields {data : List UInt8} {offset : ℕ} {schema : Schema} {row : Row}
    (h : decodeFields data offset schema = .ok row) : row.length = schema.length := by
  induction schema generalizing offset row with
  | nil =>
    cases h
    rfl
  | cons c schema ih =>
    obtain ⟨flag, -, h⟩ := bind_eq_ok.1 h
    split at h
    · obtain ⟨rest, hrest, h⟩ := bind_eq_ok.1 h
      cases h
      rw [List.length_cons, List.length_cons, ih hrest]
    · obtain ⟨⟨v, n⟩, -, h⟩ := bind_eq_ok.1 h
      obtain ⟨rest, hrest, h⟩ := bind_eq_ok.1 h
      cases h
      rw [List.length_cons, List.length_cons, ih hrest]

/-! ### Rows that can be encoded -/

/-- A value that a column may hold: NULL, or a value of its type, with a text no longer than
the column declares. -/
def Value.Suits (v : Value) (c : ColumnDefinition) : Prop :=
  match v with
  | .null => True
  | .int _ => c.type = .integer
  | .float _ => c.type = .float
  | .text s => c.type = .text ∧ s.length ≤ c.textLimit
  | .bool _ => c.type = .boolean

instance (v : Value) (c : ColumnDefinition) : Decidable (v.Suits c) := by
  unfold Value.Suits
  cases v <;> infer_instance

/-- A row with one value for each column, each suiting its column. -/
abbrev Row.Suits (row : Row) (schema : Schema) : Prop := List.Forall₂ Value.Suits row schema

theorem fieldBytes_of_suits {v : Value} {c : ColumnDefinition} (h : v.Suits c) :
    (∃ n, fieldSize c v = .ok n) ∧ ∃ bytes, fieldBytes c v = .ok bytes := by
  rcases v with i | d | s | b | _
  · have hc : c.type = .integer := h
    simp [fieldSize, fieldBytes, hc]
  · have hc : c.type = .float := h
    simp [fieldSize, fieldBytes, hc]
  · obtain ⟨hc, hlen⟩ : c.type = .text ∧ s.length ≤ c.textLimit := h
    simp [fieldSize, fieldBytes, hc, Nat.not_lt.2 hlen]
  · have hc : c.type = .boolean := h
    simp [fieldSize, fieldBytes, hc]
  · simp [fieldSize, fieldBytes]

/-- A row that suits the schema is encoded. -/
theorem Row.Suits.serializeRow {row : Row} {schema : Schema} (h : row.Suits schema) :
    ∃ bytes, serializeRow row schema = .ok bytes := by
  obtain ⟨n, fs, hn, hfs⟩ : ∃ n fs, encodedSize row schema = .ok n ∧
      encodeFields row schema = .ok fs := by
    induction h with
    | nil => exact ⟨0, [], rfl, rfl⟩
    | cons hv _ ih =>
      obtain ⟨n, fs, hn, hfs⟩ := ih
      obtain ⟨⟨k, hk⟩, b, hb⟩ := fieldBytes_of_suits hv
      exact ⟨k + n, b ++ fs, encodedSize_cons.2 ⟨k, n, hk, hn, rfl⟩,
        encodeFields_cons.2 ⟨b, fs, hb, hfs, rfl⟩⟩
  exact ⟨_, serializeRow_eq_ok.2 ⟨h.length_eq, n, fs, hn, hfs, rfl⟩⟩

/-! ### Encodings that fit into a slot -/

/-- `bytes` is the encoding of `row`, and its length fits into 16 bits. -/
structure Encodes (schema : Schema) (bytes : List UInt8) (row : Row) : Prop where
  serialize : serializeRow row schema = .ok bytes
  length_lt : bytes.length < 65536

namespace Encodes

variable {schema : Schema} {bytes : List UInt8} {row : Row}

theorem length_eq (h : Encodes schema bytes row) : row.length = schema.length :=
  (serializeRow_eq_ok.1 h.serialize).1

theorem fits (h : Encodes schema bytes row) : ∀ v ∈ row, v.Fits := by
  obtain ⟨hlen, n, fs, hn, hfs, -⟩ := serializeRow_eq_ok.1 h.serialize
  have hsize := length_serializeRow h.serialize hn
  exact fits_of_encodedSize hlen hfs hn (hsize ▸ h.length_lt)

/-- Only a column of that type holds doubles. -/
theorem ne_float (h : Encodes schema bytes row) {i : ℕ} {v : Value} {c : ColumnDefinition}
    (hv : row[i]? = some v) (hc : schema[i]? = some c) (ht : c.type ≠ .float) (d : Double) :
    v ≠ .float d := by
  rintro rfl
  obtain ⟨-, n, fs, -, hfs, -⟩ := serializeRow_eq_ok.1 h.serialize
  obtain ⟨b, hb⟩ := fieldBytes_of_encodeFields hfs hv hc
  cases htype : c.type <;> simp only [fieldBytes, htype, reduceCtorEq] at hb
  exact ht htype

theorem deserialize_append (h : Encodes schema bytes row) (suf : List UInt8) :
    deserializeRow (bytes ++ suf) schema = .ok row :=
  deserializeRow_append h.serialize h.fits suf

/-- The decoder stays inside the encoding. -/
theorem deserialize (h : Encodes schema bytes row) : deserializeRow bytes schema = .ok row := by
  simpa using h.deserialize_append []

/-- A byte string encodes at most one row. -/
theorem unique (h : Encodes schema bytes row) {row' : Row} (h' : Encodes schema bytes row') :
    row = row' := by
  have := h.deserialize.symm.trans h'.deserialize
  exact Except.ok.inj this

end Encodes

/-- An encoder all of whose encodings fit into a slot. -/
def FitsSlots (serialize : Row → Schema → Expected RowError (List UInt8)) : Prop :=
  ∀ row schema bytes, serialize row schema = .ok bytes → Encodes schema bytes row

/-- `serializeRow` with the check that the length of the encoding fits into 16 bits. -/
def serializeWithin (row : Row) (schema : Schema) : Expected RowError (List UInt8) := do
  let bytes ← serializeRow row schema
  if bytes.length < 65536 then return bytes else throw (.fault .assertion)

theorem fitsSlots_serializeWithin : FitsSlots serializeWithin := by
  intro row schema bytes h
  obtain ⟨bs, hbs, h⟩ := bind_eq_ok.1 h
  by_cases hlen : bs.length < 65536
  · rw [if_pos hlen] at h
    cases h
    exact ⟨hbs, hlen⟩
  · rw [if_neg hlen] at h
    cases h

/-! ### Bounds by the columns -/

/-- The most bytes that a column can take. -/
def fieldLimit (c : ColumnDefinition) : ℕ :=
  if c.type = .text then 3 + c.textLimit else 1 + c.size

/-- The most bytes that a row can take. -/
def rowLimit : Schema → ℕ
  | [] => 0
  | c :: columns => fieldLimit c + rowLimit columns

theorem fieldSize_le {c : ColumnDefinition} {v : Value} {n : ℕ} (h : fieldSize c v = .ok n) :
    n ≤ fieldLimit c := by
  unfold fieldSize at h
  unfold fieldLimit
  by_cases htype : c.type = .text
  · rw [if_pos htype]
    rw [htype] at h
    cases v with
    | text s =>
      dsimp only at h
      split at h
      · cases h
      · cases h
        omega
    | null =>
      cases h
      omega
    | _ => cases h
  · rw [if_neg htype]
    have hsize : n = 1 ∨ n = 1 + c.size := by
      cases v <;> cases hc : c.type <;> first | exact absurd hc htype | skip
      all_goals
        rw [hc] at h
        cases h
        first | exact .inl rfl | exact .inr rfl
    omega

theorem encodedSize_le {columns : Schema} {row : Row} {n : ℕ} (hlen : row.length = columns.length)
    (h : encodedSize row columns = .ok n) : n ≤ rowLimit columns := by
  induction columns generalizing row n with
  | nil =>
    obtain rfl := List.length_eq_zero_iff.1 hlen
    cases h
    exact le_rfl
  | cons c columns ih =>
    obtain ⟨v, row, rfl⟩ := List.exists_cons_of_length_eq_add_one hlen
    obtain ⟨k, m, hk, hm, rfl⟩ := encodedSize_cons.1 h
    exact Nat.add_le_add (fieldSize_le hk) (ih (Nat.succ.inj hlen) hm)

theorem length_serializeRow_le {columns : Schema} {row : Row} {bytes : List UInt8}
    (h : serializeRow row columns = .ok bytes) : bytes.length ≤ rowLimit columns := by
  obtain ⟨hlen, n, fs, hn, -⟩ := serializeRow_eq_ok.1 h
  rw [length_serializeRow h hn]
  exact encodedSize_le hlen hn

/-- Every field has at least its flag. -/
theorem fieldSize_pos {c : ColumnDefinition} {v : Value} {n : ℕ} (h : fieldSize c v = .ok n) :
    0 < n := by
  rcases v with i | d | s | b | _ <;> cases hc : c.type <;>
    simp only [fieldSize, hc, reduceCtorEq, Except.ok.injEq] at h
  case text.text =>
    split at h
    · cases h
    · cases h
      omega
  all_goals omega

theorem length_serializeRow_pos {columns : Schema} {row : Row} {bytes : List UInt8}
    (h : serializeRow row columns = .ok bytes) (hne : columns ≠ []) : 0 < bytes.length := by
  obtain ⟨hlen, n, fs, hn, -⟩ := serializeRow_eq_ok.1 h
  rw [length_serializeRow h hn]
  obtain ⟨c, columns, rfl⟩ := List.exists_cons_of_ne_nil hne
  obtain ⟨v, row, rfl⟩ := List.exists_cons_of_length_eq_add_one hlen
  obtain ⟨k, m, hk, -, rfl⟩ := encodedSize_cons.1 hn
  have hpos := fieldSize_pos hk
  omega

end MicroSql
