import Mathlib.Data.List.ReduceOption
import MicroSql.Executor.Statements
import MicroSql.Storage.PageLayout
import MicroSql.Storage.RowCodec

/-!
# The rows of a page and of a table

`Page.Good` is the invariant of a page that holds rows of a schema: it is well formed
and every live slot is the encoding of a row.  On such pages the slots are read as the
rows they stand for, and each method of the page does to the rows what it does to the
slots.  A table is the list of its pages, and its live rows come in page and slot order.
-/

namespace MicroSql

open Lib

/-- The row that the bytes of a slot stand for. -/
def decode (schema : Schema) (bytes : List UInt8) : Option Row :=
  (deserializeRow bytes schema).toOption

theorem Encodes.decode_eq {schema : Schema} {bytes : List UInt8} {row : Row}
    (h : Encodes schema bytes row) : decode schema bytes = some row := by
  rw [decode, h.deserialize]
  rfl

namespace Page

/-- The rows of the slots, in order; `none` for a deleted slot. -/
def rows (schema : Schema) (p : Page) : List (Option Row) :=
  p.slots.map fun slot => slot.bind (decode schema)

/-- Every live slot holds the encoding of a row. -/
structure Good (schema : Schema) (p : Page) : Prop where
  wf : p.WF
  encoded : ∀ bytes, some bytes ∈ p.slots → ∃ row, Encodes schema bytes row

@[simp] theorem length_rows (schema : Schema) (p : Page) :
    (p.rows schema).length = p.numSlots := by simp [rows]

theorem good_init (schema : Schema) (id : ℕ) : (init id).Good schema where
  wf := wf_init id
  encoded := by simp

@[simp] theorem rows_init (schema : Schema) (id : ℕ) : (init id).rows schema = [] := by
  simp [rows]

/-- The contents of the page decide everything; its id is not looked at. -/
theorem Good.with_id {schema : Schema} {p : Page} (h : p.Good schema) (id : ℕ) :
    ({ p with pageId := id } : Page).Good schema :=
  ⟨⟨h.wf.dir_le, h.wf.freePtr_le, h.wf.region, h.wf.disjoint⟩, h.encoded⟩

namespace Good

variable {schema : Schema} {p : Page} (hp : p.Good schema)

include hp

/-- A slot is deleted, or it holds a row that the executor reads. -/
theorem slot_cases {i : ℕ} (hi : i < p.numSlots) :
    (p.slotDeleted i = true ∧ (p.rows schema)[i]? = some none) ∨
      (p.slotDeleted i = false ∧ ∃ bytes row, p.slots[i]? = some (some bytes) ∧
        Encodes schema bytes row ∧ (p.rows schema)[i]? = some (some row) ∧
        readSlotRow p i schema = .ok row) := by
  have hslot : p.slots[i]? = some (p.slot i) := by rw [getElem?_slots, if_pos hi]
  have hrow : (p.rows schema)[i]? = some ((p.slot i).bind (decode schema)) := by
    rw [rows, List.getElem?_map, hslot]
    rfl
  by_cases hd : p.slotDeleted i = true
  · refine .inl ⟨hd, ?_⟩
    rw [hrow, slot, if_pos hd]
    rfl
  · have hlive : p.Live i := ⟨hi, slotDeleted_eq_false.1 (by simpa using hd)⟩
    have hge : ¬i ≥ p.numSlots := by omega
    rw [slot, if_neg hd] at hslot hrow
    obtain ⟨row, henc⟩ := hp.encoded _ (List.mem_of_getElem? hslot)
    refine .inr ⟨by simpa using hd, _, row, hslot, henc, ?_, ?_⟩
    · rw [hrow, Option.bind_some, henc.decode_eq]
    · -- the pointer is followed by the row and the rest of the page
      have hdata : p.data.val.drop (p.slotOffset i) =
          slice p.data.val (p.slotOffset i) (p.slotLength i) ++
            p.data.val.drop (p.slotOffset i + p.slotLength i) := by
        rw [slice, ← List.drop_drop, List.take_append_drop]
      rw [readSlotRow, readRow, if_neg hge, if_neg hd]
      simp only [mapError_ok, ok_bind]
      rw [hdata, henc.deserialize_append]
      rfl

/-- A deleted slot has no row. -/
theorem row_of_deleted {i : ℕ} (hi : i < p.numSlots) (hd : p.slotDeleted i = true) :
    (p.rows schema)[i]? = some none := by
  rcases hp.slot_cases hi with ⟨-, hrow⟩ | ⟨hd', -⟩
  · exact hrow
  · rw [hd] at hd'
    cases hd'

/-- The row of a slot has a value for each column. -/
theorem length_of_row {i : ℕ} {row : Row} (hi : i < p.numSlots)
    (hrow : (p.rows schema)[i]? = some (some row)) : row.length = schema.length := by
  rcases hp.slot_cases hi with ⟨-, hnone⟩ | ⟨-, bytes, row', -, henc, hrow', -⟩
  · rw [hnone] at hrow
    cases hrow
  · cases hrow.symm.trans hrow'
    exact henc.length_eq

/-- The row that the executor reads is the row of the slot. -/
theorem row_of_read {i : ℕ} {row : Row} (hi : i < p.numSlots)
    (hread : readSlotRow p i schema = .ok row) :
    p.slotDeleted i = false ∧ (p.rows schema)[i]? = some (some row) := by
  rcases hp.slot_cases hi with ⟨hd, -⟩ | ⟨hd, bytes, row', -, -, hrow, hread'⟩
  · rw [readSlotRow, readRow, if_neg (by omega), if_pos hd] at hread
    cases hread
  · rw [hread'] at hread
    cases hread
    exact ⟨hd, hrow⟩

theorem insertRow_eq {bytes : List UInt8} {row : Row} (henc : Encodes schema bytes row)
    (h0 : bytes.length ≠ 0) (hroom : bytes.length + slotEntrySize ≤ p.freeSpace) :
    insertRow bytes bytes.length p = (.ok (), p.inserted bytes) ∧
      (p.inserted bytes).Good schema ∧
      (p.inserted bytes).rows schema = p.rows schema ++ [some row] := by
  have happ := insertRow_apply hp.wf (le_refl bytes.length)
  have hslots := slots_inserted hp.wf hroom h0
  rw [if_neg h0, if_neg (by omega), List.take_length] at happ
  refine ⟨happ, ⟨wf_inserted hp.wf hroom, ?_⟩, ?_⟩
  · rw [hslots]
    intro bs hbs
    rcases List.mem_append.1 hbs with hbs | hbs
    · exact hp.encoded bs hbs
    · cases List.mem_singleton.1 hbs
      exact ⟨row, henc⟩
  · rw [rows, hslots, List.map_append, List.map_singleton, Option.bind_some, henc.decode_eq, rows]

theorem deleteRow_eq {i : ℕ} (hi : i < p.numSlots) (hd : p.slotDeleted i = false) :
    deleteRow i p = (.ok (), p.removed i) ∧ (p.removed i).Good schema ∧
      (p.removed i).rows schema = (p.rows schema).set i none := by
  have happ := deleteRow_apply hp.wf i
  have hslots := slots_removed hp.wf hi
  rw [if_neg (by omega), hd] at happ
  refine ⟨happ, ⟨wf_removed hp.wf hi, ?_⟩, ?_⟩
  · rw [hslots]
    intro bs hbs
    rcases List.mem_or_eq_of_mem_set hbs with hbs | hbs
    · exact hp.encoded bs hbs
    · cases hbs
  · rw [rows, hslots, List.map_set, rows]
    rfl

/-- An update that the page accepts replaces one row. -/
theorem updateRow_eq {i : ℕ} {bytes : List UInt8} {row : Row} {off : ℕ} {q : Page}
    (henc : Encodes schema bytes row)
    (h : updateRow i bytes bytes.length p = (.ok off, q)) :
    q.pageId = p.pageId ∧ q.Good schema ∧ q.rows schema = (p.rows schema).set i (some row) := by
  obtain ⟨-, hid, hq, hslots⟩ := updateRow_eq_ok hp.wf (le_refl _) h
  rw [List.take_length] at hslots
  refine ⟨hid, ⟨hq, ?_⟩, ?_⟩
  · rw [hslots]
    intro bs hbs
    rcases List.mem_or_eq_of_mem_set hbs with hbs | hbs
    · exact hp.encoded bs hbs
    · cases hbs
      exact ⟨row, henc⟩
  · rw [rows, hslots, List.map_set, Option.bind_some, henc.decode_eq, rows]

end Good

end Page

/-! ### Tables -/

/-- A block read as a page. -/
def blockPage (b : Block pageSize) : Page := ⟨b, 0⟩

/-- The live rows of a list of pages, in page and slot order. -/
def liveRows (schema : Schema) (bs : List (Block pageSize)) : List Row :=
  bs.flatMap fun b => ((blockPage b).rows schema).reduceOption

@[simp] theorem liveRows_nil (schema : Schema) : liveRows schema [] = [] := rfl

theorem liveRows_append (schema : Schema) (bs cs : List (Block pageSize)) :
    liveRows schema (bs ++ cs) = liveRows schema bs ++ liveRows schema cs :=
  List.flatMap_append

theorem liveRows_singleton (schema : Schema) (p : Page) :
    liveRows schema [p.data] = (p.rows schema).reduceOption := List.flatMap_singleton _ _

/-- The live rows when the page at `k` is replaced by `p`. -/
theorem liveRows_set (schema : Schema) {bs : List (Block pageSize)} {k : ℕ} (hk : k < bs.length)
    (p : Page) :
    liveRows schema (bs.set k p.data) = liveRows schema (bs.take k) ++
      (p.rows schema).reduceOption ++ liveRows schema (bs.drop (k + 1)) := by
  rw [List.set_eq_take_append_cons_drop, if_pos hk, liveRows_append, ← List.singleton_append,
    liveRows_append, liveRows_singleton, List.append_assoc]

/-- The rows of a list of slots around slot `i`. -/
theorem reduceOption_set {rows : List (Option Row)} {i : ℕ} (hi : i < rows.length)
    (o : Option Row) :
    (rows.set i o).reduceOption =
      (rows.take i).reduceOption ++ o.toList ++ (rows.drop (i + 1)).reduceOption := by
  rw [List.set_eq_take_append_cons_drop, if_pos hi, List.reduceOption_append,
    List.append_assoc]
  cases o <;> rfl

/-- All pages hold rows of the schema. -/
def GoodPages (schema : Schema) (bs : List (Block pageSize)) : Prop :=
  ∀ b ∈ bs, (blockPage b).Good schema

/-- Every live row of good pages has an encoding. -/
theorem GoodPages.encodes {schema : Schema} {bs : List (Block pageSize)}
    (h : GoodPages schema bs) {row : Row} (hrow : row ∈ liveRows schema bs) :
    ∃ bytes, Encodes schema bytes row := by
  obtain ⟨b, hb, hrow⟩ := List.mem_flatMap.1 hrow
  have hmem : some row ∈ (blockPage b).rows schema := List.reduceOption_mem_iff.1 hrow
  obtain ⟨slot, hslot, hdecode⟩ := List.mem_map.1 hmem
  cases slot with
  | none => cases hdecode
  | some bytes =>
    obtain ⟨row', henc⟩ := (h b hb).encoded bytes hslot
    rw [Option.bind_some, henc.decode_eq] at hdecode
    cases hdecode
    exact ⟨bytes, henc⟩

/-- The pages of a table file: page 0 is reserved and stays as it was made, and the page
ids fit into 32 bits. -/
structure TablePages (bs : List (Block pageSize)) : Prop where
  reserved : bs[0]? = some (Page.init 0).data
  length_le : bs.length ≤ 2 ^ 32
  wf : ∀ b ∈ bs, (blockPage b).WF

theorem TablePages.length_pos {bs : List (Block pageSize)} (h : TablePages bs) :
    0 < bs.length := by
  have := List.getElem?_eq_some_iff.1 h.reserved
  exact this.1

/-- Replacing a data page. -/
theorem TablePages.set {bs : List (Block pageSize)} (h : TablePages bs) {k : ℕ} (hk : 1 ≤ k)
    {p : Page} (hp : p.WF) : TablePages (bs.set k p.data) where
  reserved := by
    rw [List.getElem?_set_ne (by omega)]
    exact h.reserved
  length_le := by
    rw [List.length_set]
    exact h.length_le
  wf := by
    intro b hb
    rcases List.mem_or_eq_of_mem_set hb with hb | hb
    · exact h.wf b hb
    · subst hb
      exact ⟨hp.dir_le, hp.freePtr_le, hp.region, hp.disjoint⟩

theorem GoodPages.set {schema : Schema} {bs : List (Block pageSize)} (h : GoodPages schema bs)
    (k : ℕ) {p : Page} (hp : p.Good schema) : GoodPages schema (bs.set k p.data) := by
  intro b hb
  rcases List.mem_or_eq_of_mem_set hb with hb | hb
  · exact h b hb
  · subst hb
    exact hp.with_id 0

end MicroSql
