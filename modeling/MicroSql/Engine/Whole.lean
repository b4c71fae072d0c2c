import MicroSql.Engine.Update

/-!
# Rows are stored whole

If the rows that are encoded take at most 65535 bytes, a slot holds all bytes of the row
that was written, and the decoder returns the row without reading beyond the slot.  The length
of a longer encoding is narrowed to 16 bits, and the row is cut off.
-/

namespace MicroSql

open Lib

/-- What lies in a slot of a page. -/
def Page.slotBytes (p : Page) (slot : ℕ) : List UInt8 :=
  slice p.data.val (p.slotOffset slot) (p.slotLength slot)

/-- Slot `s.2` of page `s.1` holds the encoding of a row. -/
structure StoredWhole (columns : Schema) (s : Page × ℕ) (row : Row) : Prop where
  /-- the slot is as long as the encoding -/
  size : encodedSize row columns = .ok (s.1.slotLength s.2)
  inside : s.1.slotOffset s.2 + s.1.slotLength s.2 ≤ pageSize
  /-- the slot holds all bytes of the encoding -/
  bytes : serializeRow row columns = .ok (s.1.slotBytes s.2)
  /-- the bytes of the slot are enough for the decoder -/
  alone : deserializeRow (s.1.slotBytes s.2) columns = .ok row
  read : readSlotRow s.1 s.2 columns = .ok row

theorem Page.Good.storedWhole {columns : Schema} {p : Page} (hp : p.Good columns) {slot : ℕ}
    (hslot : slot < p.numSlots) (hd : p.slotDeleted slot = false) :
    ∃ row, readSlotRow p slot columns = .ok row ∧ StoredWhole columns (p, slot) row := by
  rcases hp.slot_cases hslot with ⟨hd', -⟩ | ⟨-, bytes, row, hbytes, henc, -, hread⟩
  · rw [hd] at hd'
    cases hd'
  · obtain ⟨hoff, hin⟩ := hp.wf.region slot ⟨hslot, Page.slotDeleted_eq_false.1 hd⟩
    rw [Page.getElem?_slots, if_pos hslot, Page.slot, if_neg (by simp [hd])] at hbytes
    obtain rfl : p.slotBytes slot = bytes := Option.some.inj (Option.some.inj hbytes)
    have hlen : (p.slotBytes slot).length = p.slotLength slot :=
      length_slice (by rw [p.data.property]; exact hin)
    refine ⟨row, hread, ⟨?_, hin, henc.serialize, henc.deserialize, hread⟩⟩
    obtain ⟨-, n, fs, hn, -⟩ := serializeRow_eq_ok.1 henc.serialize
    rw [hn, ← length_serializeRow henc.serialize hn, hlen]

namespace Engine

/-- The live slots of a table, in page and slot order, each with its page. -/
def liveSlots (w : Engine) (t : TableSchema) : List (Page × ℕ) :=
  ((w.pages t).drop 1).flatMap fun b =>
    ((List.range (blockPage b).numSlots).filter fun slot => !(blockPage b).slotDeleted slot).map
      fun slot => (blockPage b, slot)

/-- The live slots of the table hold its rows. -/
def StoresWhole (w : Engine) (t : TableSchema) : Prop :=
  List.Forall₂ (StoredWhole t.columns) (w.liveSlots t) (w.rows t)

theorem Inv.storesWhole {w : Engine} (h : Inv GoodTable w) {name : Str} {t : TableSchema}
    (hfind : w.catalog.findTable name = some t) : w.StoresWhole t := by
  obtain ⟨-, hp, hgood⟩ := h.stores hfind
  have hread : (w.liveSlots t).map (fun s => readSlotRow s.1 s.2 t.columns) =
      (w.rows t).map .ok := by
    rw [rows, ← storedRows_eq hp hgood.pages, liveSlots, List.map_flatMap, storedRows]
    simp only [List.map_map, slotReads]
    rfl
  refine forall₂_of_map_eq hread fun s hs => ?_
  obtain ⟨b, hb, hs⟩ := List.mem_flatMap.1 hs
  obtain ⟨slot, hslot, rfl⟩ := List.mem_map.1 hs
  obtain ⟨hslot, hd⟩ := List.mem_filter.1 hslot
  exact (hgood.pages b (List.mem_of_mem_drop hb)).storedWhole (List.mem_range.1 hslot)
    (by simpa using hd)

end Engine

/-- **Rows are stored whole, if their encodings take at most 65535 bytes.**  In every engine that
is reached so, the live slots of a table hold its rows; the row of a successful INSERT and the
rows of a successful UPDATE are among the rows afterwards, and these are stored whole as well. -/
theorem rows_stored_whole {w : Engine} (h : Reachable EncodesWithin w) {name : Str}
    {t : TableSchema} (hfind : w.catalog.findTable name = some t) :
    w.StoresWhole t ∧
    ∀ pr, EncodesWithin pr w → pr.statement.tableName = name →
      (pr.statement.kind = .insert → (execInsert pr w).1 = .ok () →
        (execInsert pr w).2.StoresWhole t ∧
        ∃ row before after, rowFromInsertValues pr t.columns = .ok row ∧
          w.rows t = before ++ after ∧ (execInsert pr w).2.rows t = before ++ row :: after) ∧
      (pr.statement.kind = .update → ∀ n, (execUpdate pr w).1 = .ok n →
        (execUpdate pr w).2.StoresWhole t ∧
        List.Forall₂ (UpdatesTo pr t.columnNames) (w.rows t) ((execUpdate pr w).2.rows t)) := by
  refine ⟨h.good.storesWhole hfind, ?_⟩
  rintro pr hwithin rfl
  have hinv := (h.execute pr hwithin).good
  constructor
  · intro hkind hok
    obtain ⟨hcat, hrows⟩ := insert_rows h hkind hfind hwithin hok
    rw [Engine.after_insert hkind] at hinv
    exact ⟨hinv.storesWhole (hcat ▸ hfind), hrows⟩
  · intro hkind n hok
    obtain ⟨hcat, hrows, -⟩ := update_rows h hkind hfind hwithin hok
    rw [Engine.after_update hkind] at hinv
    exact ⟨hinv.storesWhole (hcat ▸ hfind), hrows⟩

theorem rows_stored_whole_sample :
    sampleOne.StoresWhole sampleTable ∧
    ∀ pr, EncodesWithin pr sampleOne → pr.statement.tableName = str "t" →
      (pr.statement.kind = .insert → (execInsert pr sampleOne).1 = .ok () →
        (execInsert pr sampleOne).2.StoresWhole sampleTable ∧
        ∃ row before after, rowFromInsertValues pr sampleTable.columns = .ok row ∧
          sampleOne.rows sampleTable = before ++ after ∧
          (execInsert pr sampleOne).2.rows sampleTable = before ++ row :: after) ∧
      (pr.statement.kind = .update → ∀ n, (execUpdate pr sampleOne).1 = .ok n →
        (execUpdate pr sampleOne).2.StoresWhole sampleTable ∧
        List.Forall₂ (UpdatesTo pr sampleTable.columnNames) (sampleOne.rows sampleTable)
          ((execUpdate pr sampleOne).2.rows sampleTable)) :=
  rows_stored_whole sampleOne_oneRow.reachable sampleOne_oneRow.find

/-! ### A row that is cut off -/

/-- A table with a column of type `TEXT(70000)`. -/
def longTable : TableSchema where
  tableName := str "v"
  columns := [{ name := str "a", type := .text, textLength := 70000 }]
  filePath := str "v.ms"

/-- A text whose length is 0 in 16 bits. -/
def longText : Str := List.replicate 65536 97

/-- `INSERT INTO v VALUES ('aaa...')` -/
def longInsert : ParseResult := insertInto (str "v") [.literalText longText]

theorem length_longText : longText.length = 65536 := List.length_replicate

theorem long_encodedSize : encodedSize [.text longText] longTable.columns = .ok 65539 := by
  have hlimit : ColumnDefinition.textLimit
      { name := str "a", type := .text, textLength := 70000 } = 70000 := by decide
  refine encodedSize_cons.2 ⟨65539, 0, ?_, rfl, rfl⟩
  simp only [fieldSize, hlimit, length_longText]
  rfl

/-- The length of the text is narrowed to 0, and the rest of the bytes stays zero. -/
theorem long_serialize :
    serializeRow [.text longText] longTable.columns = .ok (List.replicate 65539 0) := by
  have htext : fieldBytes { name := str "a", type := .text, textLength := 70000 }
      (.text longText) = .ok [0, 0, 0] := by
    simp only [fieldBytes, length_longText]
    rfl
  refine serializeRow_eq_ok.2 ⟨rfl, 65539, [0, 0, 0], long_encodedSize, ?_, ?_⟩
  · exact encodeFields_cons.2 ⟨_, [], htext, rfl, rfl⟩
  · rw [show ([0, 0, 0] : List UInt8) = List.replicate 3 0 from rfl, List.length_replicate,
      List.replicate_append_replicate]

/-- The length of the encoding is narrowed to 3. -/
theorem long_taken : (List.replicate 65539 (0 : UInt8)).take
    ((List.replicate 65539 (0 : UInt8)).length % 65536) = [0, 0, 0] := by
  rw [List.length_replicate, List.take_replicate]
  rfl

/-- The table after the statement: three bytes of the row have been stored. -/
theorem longInsert_ran : (execInsert longInsert (newEngine longTable)).1 = .ok () ∧
    (execInsert longInsert (newEngine longTable)).2.pages longTable =
      [(Page.init 0).data, insertedInto (Page.init 1).data [0, 0, 0]] := by
  have hpath : longTable.filePath = tablePath longTable.tableName := by decide
  have hinv := (newEngine_reachable hpath).good
  have hfind : (newEngine longTable).catalog.findTable longInsert.statement.tableName =
      some longTable := newEngine_find hpath
  have hrow : rowFromInsertValues longInsert longTable.columns = .ok [.text longText] := rfl
  have hkey : ∀ pk v, primaryKeyIndex longTable.columns = some pk →
      ([.text longText] : Row)[pk]? = some v →
      (liveRows longTable.columns ((newEngine longTable).pages longTable)).any (holdsKey pk v) =
        false := by
    intro pk v hpk
    cases hpk
  obtain ⟨-, hp, hgood⟩ := hinv.stores hfind
  have hspec := storeBytes_spec hp (newEngine longTable).fs.limit_le (List.replicate 65539 0)
  rw [long_taken, ← insertRow_eq hp hgood.pages hrow rfl long_serialize hkey] at hspec
  obtain ⟨hr, hc⟩ := (hinv.runs_insert serializeRow longInsert).ran_of_find hfind
  obtain ⟨cs, hcs⟩ := hspec.succeeds (by decide) (by decide) (by
    rw [newEngine_pages hpath, newEngine_limit hpath]
    exact two_pages_le)
  rw [hcs] at hspec hr hc
  rw [newEngine_pages hpath] at hspec
  refine ⟨hr, ?_⟩
  refine hc.pages_eq.trans (hspec.eq_append fun k b hk hb => ?_)
  rw [List.getElem?_eq_none (by simpa using hk)] at hb
  cases hb

theorem long_slots : ∀ s ∈ [(Page.init 0).data, insertedInto (Page.init 1).data [0, 0, 0]].drop 1
      |>.flatMap fun b =>
        ((List.range (blockPage b).numSlots).filter fun slot => !(blockPage b).slotDeleted slot).map
          fun slot => (blockPage b, slot), s.1.slotLength s.2 = 3 := by
  decide +kernel

/-- An INSERT of a text of 65536 bytes reports success, and no slot holds the row. -/
theorem insert_cuts_row :
    ¬∀ w pr t, Reachable anyStatement w → pr.statement.kind = .insert →
      w.catalog.findTable pr.statement.tableName = some t → (execInsert pr w).1 = .ok () →
      ∃ row, rowFromInsertValues pr t.columns = .ok row ∧
        ∃ s ∈ (execInsert pr w).2.liveSlots t, StoredWhole t.columns s row := by
  intro hall
  have hpath : longTable.filePath = tablePath longTable.tableName := by decide
  have hfind : (newEngine longTable).catalog.findTable longInsert.statement.tableName =
      some longTable := newEngine_find hpath
  obtain ⟨hok, hpages⟩ := longInsert_ran
  obtain ⟨row, hrow, s, hs, hwhole⟩ := hall _ longInsert longTable
    ((newEngine_reachable hpath).mono fun _ _ _ => trivial) rfl hfind hok
  have hrow' : rowFromInsertValues longInsert longTable.columns = .ok [.text longText] := rfl
  rw [hrow'] at hrow
  cases hrow
  rw [Engine.liveSlots, hpages] at hs
  have hsize := hwhole.size
  rw [long_encodedSize, long_slots s hs] at hsize
  cases hsize

end MicroSql
