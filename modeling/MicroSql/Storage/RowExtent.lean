import MicroSql.Storage.RowCodec

/-!
# How far the decoder reads

`deserializeRow` is given no length.  It reads the fields of the row it returns, one after the
other, and nothing behind them, so no encoding is the beginning of another one.
-/

namespace MicroSql

open Lib

/-- The number of bytes of a field: one for NULL, else the flag and the value, a text with its
length in two bytes before it. -/
def fieldLength (c : ColumnDefinition) (v : Value) : ℕ :=
  match v, c.type with
  | .null, _ => 1
  | _, .boolean => 2
  | _, .integer => 9
  | _, .float => 9
  | .text s, .text => 3 + s.length
  | _, .text => 3

/-- The number of bytes of a row. -/
def rowLength (row : Row) (schema : Schema) : ℕ := (List.zipWith fieldLength schema row).sum

theorem rowLength_cons (v : Value) (row : Row) (c : ColumnDefinition) (schema : Schema) :
    rowLength (v :: row) (c :: schema) = fieldLength c v + rowLength row schema := rfl

/-! ### The encoder -/

/-- A field that is written is as long as it was counted. -/
theorem fieldLength_of_fieldSize {c : ColumnDefinition} {v : Value} {bytes : List UInt8} {n : ℕ}
    (hb : fieldBytes c v = .ok bytes) (hn : fieldSize c v = .ok n) : fieldLength c v = n := by
  rcases v with i | d | s | b | _ <;> cases hc : c.type <;>
    simp only [fieldBytes, fieldSize, hc, ColumnDefinition.size, reduceCtorEq,
      Except.ok.injEq] at hb hn <;>
    simp only [fieldLength, hc]
  case text.text =>
    split at hn
    · cases hn
    · rw [← Except.ok.inj hn]
      omega
  all_goals exact hn

theorem rowLength_of_encodedSize {row : Row} {schema : Schema} {bytes : List UInt8} {n : ℕ}
    (hlen : row.length = schema.length) (hb : encodeFields row schema = .ok bytes)
    (hn : encodedSize row schema = .ok n) : rowLength row schema = n := by
  induction row generalizing schema bytes n with
  | nil =>
    cases schema with
    | nil => exact Except.ok.inj hn
    | cons c schema => simp at hlen
  | cons v row ih =>
    cases schema with
    | nil => simp at hlen
    | cons c schema =>
      obtain ⟨b, bs, hfb, hbs, -⟩ := encodeFields_cons.1 hb
      obtain ⟨k, m, hk, hm, rfl⟩ := encodedSize_cons.1 hn
      rw [rowLength_cons, fieldLength_of_fieldSize hfb hk,
        ih (Nat.succ.inj hlen) hbs hm]

/-- The length of an encoding is the sum of the lengths of its fields. -/
theorem length_serializeRow_eq {row : Row} {schema : Schema} {bytes : List UInt8}
    (h : serializeRow row schema = .ok bytes) : bytes.length = rowLength row schema := by
  obtain ⟨hlen, n, fs, hn, hfs, -⟩ := serializeRow_eq_ok.1 h
  rw [length_serializeRow h hn, rowLength_of_encodedSize hlen hfs hn]

/-! ### The decoder -/

theorem readBytes_eq_ok {data bs : List UInt8} {offset n : ℕ} :
    readBytes data offset n = .ok bs ↔ offset + n ≤ data.length ∧ slice data offset n = bs := by
  unfold readBytes
  by_cases h : offset + n ≤ data.length
  · simp [h]
  · simp [h]

/-- Reading does not see what follows. -/
theorem readBytes_mono {data bs : List UInt8} {offset n : ℕ}
    (h : readBytes data offset n = .ok bs) (suf : List UInt8) :
    readBytes (data ++ suf) offset n = .ok bs := by
  obtain ⟨hle, rfl⟩ := readBytes_eq_ok.1 h
  refine readBytes_eq_ok.2 ⟨by rw [List.length_append]; omega, ?_⟩
  rw [slice, slice, List.drop_append_of_le_length (by omega),
    List.take_append_of_le_length (by rw [List.length_drop]; omega)]

/-- The only failure of reading is to read too far. -/
theorem readBytes_eq_error {data : List UInt8} {offset n : ℕ} {f : Failure RowError}
    (h : readBytes data offset n = .error f) : f = .fault .outOfBounds := by
  unfold readBytes at h
  split at h
  · cases h
  · exact (Except.error.inj h).symm

/-- A field that is decoded lies in the object, and what follows it does not matter. -/
theorem decodeField_eq_ok {data : List UInt8} {offset n : ℕ} {c : ColumnDefinition} {v : Value}
    (h : decodeField data offset c = .ok (v, n)) :
    offset + n ≤ data.length ∧ fieldLength c v = 1 + n ∧
      ∀ suf, decodeField (data ++ suf) offset c = .ok (v, n) := by
  unfold decodeField at h ⊢
  cases hc : c.type with
  | text =>
    simp only [hc] at h ⊢
    obtain ⟨len, hlen, h⟩ := bind_eq_ok.1 h
    obtain ⟨bs, hbs, h⟩ := bind_eq_ok.1 h
    cases h
    obtain ⟨hle, rfl⟩ := readBytes_eq_ok.1 hbs
    refine ⟨by omega, ?_, fun suf => ?_⟩
    · simp only [fieldLength, hc, length_slice hle]
      omega
    · rw [readBytes_mono hlen, ok_bind, readBytes_mono hbs]
      rfl
  | _ =>
    simp only [hc] at h ⊢
    obtain ⟨bs, hbs, h⟩ := bind_eq_ok.1 h
    cases h
    obtain ⟨hle, -⟩ := readBytes_eq_ok.1 hbs
    refine ⟨hle, by simp only [fieldLength, ColumnDefinition.size, hc], fun suf => ?_⟩
    rw [readBytes_mono hbs]
    rfl

theorem decodeField_eq_error {data : List UInt8} {offset : ℕ} {c : ColumnDefinition}
    {f : Failure RowError} (h : decodeField data offset c = .error f) :
    f = .fault .outOfBounds := by
  unfold decodeField at h
  cases hc : c.type with
  | text =>
    simp only [hc] at h
    rcases hlen : readBytes data offset 2 with e | len
    · rw [hlen] at h
      cases h
      exact readBytes_eq_error hlen
    rw [hlen, ok_bind] at h
    rcases hbs : readBytes data (offset + 2) (fromLE len) with e | bs
    · rw [hbs] at h
      cases h
      exact readBytes_eq_error hbs
    · rw [hbs] at h
      cases h
  | _ =>
    simp only [hc] at h
    rcases hbs : readBytes data offset c.size with e | bs
    · rw [hbs] at h
      cases h
      exact readBytes_eq_error hbs
    · rw [hbs] at h
      cases h

/-- What one round of the loop of the decoder does. -/
theorem decodeFields_cons_cases (data : List UInt8) (offset : ℕ) (c : ColumnDefinition)
    (schema : Schema) :
    decodeFields data offset (c :: schema) = .error (.fault .outOfBounds) ∨
      ∃ v n, fieldLength c v = n ∧ offset + n ≤ data.length ∧
        ∀ suf, decodeFields (data ++ suf) offset (c :: schema) =
          (do let row ← decodeFields (data ++ suf) (offset + n) schema
              return v :: row) := by
  rcases hflag : readBytes data offset 1 with e | flag
  · obtain rfl := readBytes_eq_error hflag
    exact .inl (by rw [decodeFields, hflag]; rfl)
  by_cases hnull : (flag != [0]) = true
  · refine .inr ⟨.null, 1, by simp [fieldLength], (readBytes_eq_ok.1 hflag).1, fun suf => ?_⟩
    rw [decodeFields, readBytes_mono hflag, ok_bind, if_pos hnull]
  · rcases hval : decodeField data (offset + 1) c with e | ⟨v, n⟩
    · obtain rfl := decodeField_eq_error hval
      exact .inl (by rw [decodeFields, hflag, ok_bind, if_neg hnull, hval]; rfl)
    obtain ⟨hle, hlen, hmono⟩ := decodeField_eq_ok hval
    refine .inr ⟨v, 1 + n, hlen, by omega, fun suf => ?_⟩
    rw [decodeFields, readBytes_mono hflag, ok_bind, if_neg hnull, hmono, ok_bind,
      ← Nat.add_assoc]

/-- The decoder reads too far, or it returns a row whose bytes lie in the object, and then what
follows them does not matter. -/
theorem decodeFields_cases (data : List UInt8) {offset : ℕ} (hoff : offset ≤ data.length)
    (schema : Schema) :
    decodeFields data offset schema = .error (.fault .outOfBounds) ∨
      ∃ row, offset + rowLength row schema ≤ data.length ∧
        ∀ suf, decodeFields (data ++ suf) offset schema = .ok row := by
  induction schema generalizing offset with
  | nil => exact .inr ⟨[], hoff, fun suf => rfl⟩
  | cons c schema ih =>
    rcases decodeFields_cons_cases data offset c schema with h | ⟨v, n, hn, hle, hstep⟩
    · exact .inl h
    rcases ih hle with hrest | ⟨row, hrow, hrest⟩
    · refine .inl ?_
      have hnil := hstep []
      rw [List.append_nil] at hnil
      rw [hnil, hrest]
      rfl
    · refine .inr ⟨v :: row, ?_, fun suf => ?_⟩
      · rw [rowLength_cons, hn]
        omega
      · rw [hstep, hrest]
        rfl

/-- An object that ends before the encoding does is too short, and the decoder notices only by
reading past its end. -/
theorem deserializeRow_take {row : Row} {schema : Schema} {bytes : List UInt8}
    (h : serializeRow row schema = .ok bytes) (hf : ∀ v ∈ row, v.Fits) (suf : List UInt8) {k : ℕ}
    (hk : k < bytes.length) :
    deserializeRow ((bytes ++ suf).take k) schema = .error (.fault .outOfBounds) := by
  rcases decodeFields_cases ((bytes ++ suf).take k) (Nat.zero_le _) schema with
    herror | ⟨row', hlen, hrow'⟩
  · exact herror
  · -- else the whole object would decode to a row that ends before the encoding
    have hwhole := hrow' ((bytes ++ suf).drop k)
    rw [List.take_append_drop] at hwhole
    obtain rfl : row = row' :=
      Except.ok.inj ((deserializeRow_append h hf suf).symm.trans hwhole)
    rw [← length_serializeRow_eq h, List.length_take, List.length_append] at hlen
    omega

/-! ### Whole rows -/

/-- What the encoding of a row is good for. -/
structure RoundTrips (schema : Schema) (row : Row) (bytes : List UInt8) : Prop where
  /-- the decoder returns the row, whatever follows the encoding -/
  decodes : ∀ suf, deserializeRow (bytes ++ suf) schema = .ok row
  /-- it reads the bytes of the encoding, to the last one and no further: the object may end
  there, and not earlier -/
  reads : ∀ suf k, deserializeRow ((bytes ++ suf).take k) schema =
    if bytes.length ≤ k then .ok row else .error (.fault .outOfBounds)
  length_eq : bytes.length = rowLength row schema
  /-- another row has another encoding, and neither is the beginning of the other -/
  apart : ∀ row' bytes', serializeRow row' schema = .ok bytes' → (∀ v ∈ row', v.Fits) →
    row' ≠ row → bytes' ≠ bytes ∧ ¬bytes <+: bytes' ∧ ¬bytes' <+: bytes

/-- An encoding that is the beginning of another one encodes the same row. -/
theorem eq_of_begins {schema : Schema} {row row' : Row} {bytes bytes' : List UInt8}
    (h : serializeRow row schema = .ok bytes) (hf : ∀ v ∈ row, v.Fits)
    (h' : serializeRow row' schema = .ok bytes') (hf' : ∀ v ∈ row', v.Fits)
    (hbegins : bytes <+: bytes') : row = row' := by
  obtain ⟨suf, rfl⟩ := hbegins
  have hrow := deserializeRow_append h hf suf
  have hrow' := deserializeRow_append h' hf' []
  rw [List.append_nil] at hrow'
  exact Except.ok.inj (hrow.symm.trans hrow')

/-- **Decoding undoes encoding**, and encodings are told apart by their beginnings. -/
theorem serializeRow_roundTrips {schema : Schema} {row : Row} {bytes : List UInt8}
    (h : serializeRow row schema = .ok bytes) (hf : ∀ v ∈ row, v.Fits) :
    RoundTrips schema row bytes where
  decodes := deserializeRow_append h hf
  reads suf k := by
    by_cases hk : bytes.length ≤ k
    · rw [if_pos hk, List.take_append, List.take_of_length_le hk]
      exact deserializeRow_append h hf _
    · rw [if_neg hk]
      exact deserializeRow_take h hf suf (by omega)
  length_eq := length_serializeRow_eq h
  apart row' bytes' h' hf' hne := by
    refine ⟨?_, fun hbegins => hne (eq_of_begins h hf h' hf' hbegins).symm,
      fun hbegins => hne (eq_of_begins h' hf' h hf hbegins)⟩
    rintro rfl
    exact hne (eq_of_begins h' hf' h hf (List.prefix_refl _))

/-- A row of each type and a NULL, among them a text that looks like flags. -/
def mixedSchema : Schema :=
  [{ name := str "a", type := .integer, textLength := 0 },
    { name := str "b", type := .boolean, textLength := 0 },
    { name := str "c", type := .text, textLength := 4 },
    { name := str "d", type := .float, textLength := 0 }]

theorem serializeRow_roundTrips_mixed :
    RoundTrips mixedSchema [.int (-2), .bool true, .text [0, 1, 0], .null]
      [0, 254, 255, 255, 255, 255, 255, 255, 255, 0, 1, 0, 3, 0, 0, 1, 0, 1] := by
  refine serializeRow_roundTrips (by decide) ?_
  rintro v hv s rfl
  obtain rfl : s = [0, 1, 0] := by simpa using hv
  decide

end MicroSql
