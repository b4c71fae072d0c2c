import MicroSql.Storage.Page

/-!
# The layout of a slotted page

The slot directory grows up from the header and the rows grow down from the end of
the page.  `Page.WF` is the invariant: the directory ends below the free pointer,
every live slot's row lies above it, and the rows of distinct live slots are
disjoint.  Each method is described by one equation on well-formed pages, and its
effect on the sequence of slots by one more:

* `slots_inserted`: an insertion appends a slot;
* `slots_removed`: a deletion empties one slot;
* `slots_rewritten`, `slots_moved`: an update replaces the contents of one slot, in
  place or at the free pointer.
-/

namespace MicroSql

open Lib

namespace Page

/-! ### Reading back what was written -/

@[simp] theorem pageId_write (p : Page) (off : ℕ) (bs : List UInt8) :
    (p.write off bs).pageId = p.pageId := rfl

theorem read16_write_self {p : Page} {off v : ℕ} (h : off + 2 ≤ pageSize) (hv : v < 65536) :
    (p.write off (toLE 2 v)).read16 off = v := by
  have hself : slice (p.write off (toLE 2 v)).data.val off (toLE 2 v).length = toLE 2 v :=
    Block.slice_write_self (by rwa [length_toLE])
  rw [length_toLE] at hself
  rw [read16, hself]
  exact fromLE_toLE_of_lt hv

theorem read16_write_of_disjoint {p : Page} {off off' : ℕ} {bs : List UInt8}
    (hd : off' + 2 ≤ off ∨ off + bs.length ≤ off') :
    (p.write off bs).read16 off' = p.read16 off' :=
  congrArg fromLE (Block.slice_write_of_disjoint hd)

/-- `read16_write_of_disjoint` for a 16-bit field. -/
theorem read16_write16_of_disjoint {p : Page} {off off' v : ℕ}
    (hd : off' + 2 ≤ off ∨ off + 2 ≤ off') :
    (p.write off (toLE 2 v)).read16 off' = p.read16 off' :=
  read16_write_of_disjoint (by rwa [length_toLE])

theorem slice_write16_of_disjoint {p : Page} {off off' n v : ℕ}
    (hd : off' + n ≤ off ∨ off + 2 ≤ off') :
    slice (p.write off (toLE 2 v)).data.val off' n = slice p.data.val off' n :=
  Block.slice_write_of_disjoint (by rwa [length_toLE])

theorem slice_write_of_disjoint {p : Page} {off off' n : ℕ} {bs : List UInt8}
    (hd : off' + n ≤ off ∨ off + bs.length ≤ off') :
    slice (p.write off bs).data.val off' n = slice p.data.val off' n :=
  Block.slice_write_of_disjoint hd

theorem slice_write_self {p : Page} {off : ℕ} {bs : List UInt8}
    (h : off + bs.length ≤ pageSize) :
    slice (p.write off bs).data.val off bs.length = bs :=
  Block.slice_write_self h

theorem memcpy_apply {off n : ℕ} {src : List UInt8} (hn : n ≤ src.length)
    (h : off + n ≤ pageSize) (p : Page) :
    memcpy off src n p = (.ok (), p.write off (src.take n)) := by
  have hc : ¬(src.length < n ∨ pageSize < off + n) := by omega
  rw [memcpy, Prog.failIf_neg hc]
  rfl

theorem write16_apply {off : ℕ} (h : off + 2 ≤ pageSize) (v : ℕ) (p : Page) :
    write16 off v p = (.ok (), p.write off (toLE 2 v)) := by
  rw [write16, memcpy_apply (by rw [length_toLE]) h, List.take_of_length_le (by rw [length_toLE])]

/-! ### Slots -/

/-- The contents of slot `i`; `none` when it is deleted. -/
def slot (p : Page) (i : ℕ) : Option (List UInt8) :=
  if p.slotDeleted i then none
  else some (slice p.data.val (p.slotOffset i) (p.slotLength i))

/-- The contents of the slots, in order. -/
def slots (p : Page) : List (Option (List UInt8)) := (List.range p.numSlots).map p.slot

@[simp] theorem length_slots (p : Page) : p.slots.length = p.numSlots := by simp [slots]

theorem getElem?_slots (p : Page) (i : ℕ) :
    p.slots[i]? = if i < p.numSlots then some (p.slot i) else none := by
  rw [slots, List.getElem?_map]
  by_cases h : i < p.numSlots
  · simp [h]
  · simp [h]

/-- A slot is live when it is not deleted. -/
def Live (p : Page) (i : ℕ) : Prop := i < p.numSlots ∧ p.slotLength i ≠ 0

theorem slotDeleted_eq_false {p : Page} {i : ℕ} :
    p.slotDeleted i = false ↔ p.slotLength i ≠ 0 := by
  simp [slotDeleted]

/-- The invariant of a slotted page. -/
structure WF (p : Page) : Prop where
  dir_le : headerSize + slotEntrySize * p.numSlots ≤ p.freePtr
  freePtr_le : p.freePtr ≤ pageSize
  region : ∀ i, p.Live i →
    p.freePtr ≤ p.slotOffset i ∧ p.slotOffset i + p.slotLength i ≤ pageSize
  disjoint : ∀ i j, p.Live i → p.Live j → i ≠ j →
    p.slotOffset i + p.slotLength i ≤ p.slotOffset j ∨
      p.slotOffset j + p.slotLength j ≤ p.slotOffset i

/-- A slot whose entry and row are not touched keeps its contents. -/
theorem slot_congr {p q : Page} {i : ℕ} (ho : q.slotOffset i = p.slotOffset i)
    (hl : q.slotLength i = p.slotLength i)
    (hs : p.slotLength i ≠ 0 → slice q.data.val (p.slotOffset i) (p.slotLength i) =
      slice p.data.val (p.slotOffset i) (p.slotLength i)) : q.slot i = p.slot i := by
  rw [slot, slot, slotDeleted, slotDeleted, ho, hl]
  by_cases h : p.slotLength i = 0
  · simp [h]
  · simp [h, hs h]

namespace WF

variable {p : Page}

theorem freeSpace_eq (hp : p.WF) :
    p.freeSpace = p.freePtr - (headerSize + slotEntrySize * p.numSlots) := by
  have h1 := hp.dir_le
  have h2 := hp.freePtr_le
  simp only [headerSize, slotEntrySize, pageSize] at h1 h2
  exact narrow16_of_lt (by simp only [headerSize, slotEntrySize]; omega)
    (by simp only [headerSize, slotEntrySize]; omega)

theorem numSlots_le (hp : p.WF) : p.numSlots ≤ 1020 := by
  have h1 := hp.dir_le
  have h2 := hp.freePtr_le
  simp only [headerSize, slotEntrySize, pageSize] at h1 h2
  omega

end WF

/-- A page that differs from a well-formed one in the slot `i` alone is well formed
when the row of that slot lies above the free pointer and overlaps no other row. -/
theorem WF.of_regions {p q : Page} (hp : p.WF) (i : ℕ)
    (hdir : headerSize + slotEntrySize * q.numSlots ≤ q.freePtr) (hfp : q.freePtr ≤ p.freePtr)
    (hother : ∀ j, j ≠ i → q.Live j → p.Live j ∧ q.slotOffset j = p.slotOffset j ∧
      q.slotLength j = p.slotLength j)
    (hself : q.Live i → q.freePtr ≤ q.slotOffset i ∧
      q.slotOffset i + q.slotLength i ≤ pageSize ∧ ∀ j, j ≠ i → p.Live j →
        q.slotOffset i + q.slotLength i ≤ p.slotOffset j ∨
          p.slotOffset j + p.slotLength j ≤ q.slotOffset i) : q.WF where
  dir_le := hdir
  freePtr_le := hfp.trans hp.freePtr_le
  region := by
    intro j hj
    by_cases hji : j = i
    · subst hji
      exact ⟨(hself hj).1, (hself hj).2.1⟩
    · obtain ⟨hl, ho, hlen⟩ := hother j hji hj
      rw [ho, hlen]
      exact ⟨hfp.trans (hp.region j hl).1, (hp.region j hl).2⟩
  disjoint := by
    intro j k hj hk hjk
    by_cases hji : j = i
    · subst hji
      obtain ⟨hl, ho, hlen⟩ := hother k hjk.symm hk
      rw [ho, hlen]
      exact (hself hj).2.2 k hjk.symm hl
    · obtain ⟨hl, ho, hlen⟩ := hother j hji hj
      rw [ho, hlen]
      by_cases hki : k = i
      · subst hki
        exact ((hself hk).2.2 j hji hl).symm
      · obtain ⟨hl', ho', hlen'⟩ := hother k hki hk
        rw [ho', hlen']
        exact hp.disjoint j k hl hl' hjk

/-- The slots of a page that differs from another in slot `i` alone. -/
theorem slots_eq_set {p q : Page} {i : ℕ} {c : Option (List UInt8)}
    (hn : q.numSlots = p.numSlots) (hself : q.slot i = c)
    (hother : ∀ j, j < p.numSlots → j ≠ i → q.slot j = p.slot j) :
    q.slots = p.slots.set i c := by
  apply List.ext_getElem?
  intro j
  rw [getElem?_slots, hn, List.getElem?_set, length_slots, getElem?_slots]
  by_cases hj : j < p.numSlots
  · by_cases hij : i = j
    · subst hij
      rw [if_pos hj, if_pos rfl, if_pos hj, hself]
    · rw [if_pos hj, if_neg hij, if_pos hj, hother j hj (Ne.symm hij)]
  · rw [if_neg hj]
    split
    · next hij => rw [if_neg (hij ▸ hj)]
    · rfl

/-! ### A fresh page -/

theorem init_eq_write (id : ℕ) : init id =
    ((⟨Block.zero pageSize, id⟩ : Page).write headerOffsetNumSlots (toLE 2 0)).write
      headerOffsetFreePtr (toLE 2 pageSize) := rfl

@[simp] theorem numSlots_init (id : ℕ) : (init id).numSlots = 0 := by
  rw [numSlots, init_eq_write, read16_write_of_disjoint (.inl (by decide)),
    read16_write_self (by decide) (by decide)]

@[simp] theorem freePtr_init (id : ℕ) : (init id).freePtr = pageSize := by
  rw [freePtr, init_eq_write, read16_write_self (by decide) (by decide)]

@[simp] theorem slots_init (id : ℕ) : (init id).slots = [] := by simp [slots]

theorem wf_init (id : ℕ) : (init id).WF where
  dir_le := by simp [headerSize, pageSize]
  freePtr_le := by simp
  region := fun i hi => absurd hi.1 (by simp)
  disjoint := fun i j hi => absurd hi.1 (by simp)

/-! ### Insertion -/

/-- The page after a row is inserted. -/
def inserted (p : Page) (row : List UInt8) : Page :=
  let offset := p.freePtr - row.length
  let slotDirEnd := headerSize + p.numSlots * slotEntrySize
  ((((p.write offset row).write slotDirEnd (toLE 2 offset)).write (slotDirEnd + 2)
    (toLE 2 row.length)).write headerOffsetFreePtr (toLE 2 offset)).write
      headerOffsetNumSlots (toLE 2 (p.numSlots + 1))

/-- `insertRow` on a well-formed page: what it checks, and the page it leaves. -/
theorem insertRow_apply {p : Page} (hp : p.WF) {rowBytes : List UInt8} {rowLen : ℕ}
    (hlen : rowLen ≤ rowBytes.length) :
    insertRow rowBytes rowLen p =
      if rowLen = 0 then (.error (.error .invalidRowLength), p)
      else if p.freeSpace < rowLen + slotEntrySize then (.error (.error .pageFull), p)
      else (.ok (), p.inserted (rowBytes.take rowLen)) := by
  have hspace := hp.freeSpace_eq
  have hfp := hp.freePtr_le
  rw [insertRow]
  by_cases h0 : rowLen = 0
  · rw [Prog.failIf_pos h0, if_pos h0]
    rfl
  rw [Prog.failIf_neg h0, if_neg h0]
  simp only [Prog.pure_bind_apply, Prog.gets_bind_apply]
  by_cases hroom : p.freeSpace < rowLen + slotEntrySize
  · rw [Prog.failIf_pos hroom, if_pos hroom]
    rfl
  rw [Prog.failIf_neg hroom, if_neg hroom, Prog.pure_bind_apply]
  simp only [headerSize, slotEntrySize, pageSize] at hspace hfp hroom
  have hoff : narrow16 (p.freePtr - rowLen) = p.freePtr - rowLen :=
    narrow16_of_lt (by omega) (by omega)
  rw [hoff, Prog.bind_ok (memcpy_apply hlen (by simp only [pageSize]; omega) _),
    Prog.bind_ok (write16_apply (by simp only [headerSize, slotEntrySize, pageSize]; omega) _ _),
    Prog.bind_ok (write16_apply (by simp only [headerSize, slotEntrySize, pageSize]; omega) _ _),
    Prog.bind_ok (write16_apply (by decide) _ _), write16_apply (by decide)]
  simp only [inserted, List.length_take, Nat.min_eq_left hlen]

section Inserted

variable {p : Page} {row : List UInt8}

theorem numSlots_inserted (hp : p.WF) (row : List UInt8) :
    (p.inserted row).numSlots = p.numSlots + 1 := by
  have := hp.numSlots_le
  exact read16_write_self (by decide) (by omega)

theorem freePtr_inserted (hp : p.WF) (row : List UInt8) :
    (p.inserted row).freePtr = p.freePtr - row.length := by
  have := hp.freePtr_le
  simp only [freePtr, inserted, headerOffsetNumSlots, headerOffsetFreePtr, pageSize] at this ⊢
  rw [read16_write16_of_disjoint (.inr (by decide)), read16_write_self (by decide) (by omega)]

variable (hp : p.WF) (hroom : row.length + slotEntrySize ≤ p.freeSpace)

include hp hroom

/-- The entries of the old slots are not touched. -/
theorem read16_inserted {i : ℕ} (hi : headerSize ≤ i)
    (h : i + 2 ≤ headerSize + p.numSlots * slotEntrySize) :
    (p.inserted row).read16 i = p.read16 i := by
  have hspace := hp.freeSpace_eq
  simp only [inserted, headerSize, slotEntrySize, headerOffsetNumSlots,
    headerOffsetFreePtr] at hspace hroom hi h ⊢
  rw [read16_write16_of_disjoint (.inr (by omega)), read16_write16_of_disjoint (.inr (by omega)),
    read16_write16_of_disjoint (.inl (by omega)), read16_write16_of_disjoint (.inl (by omega)),
    read16_write_of_disjoint (.inl (by omega))]

/-- The old rows are not touched. -/
theorem slice_inserted {off n : ℕ} (hoff : p.freePtr ≤ off) :
    slice (p.inserted row).data.val off n = slice p.data.val off n := by
  have hspace := hp.freeSpace_eq
  simp only [inserted, headerSize, slotEntrySize, headerOffsetNumSlots,
    headerOffsetFreePtr] at hspace hroom ⊢
  rw [slice_write16_of_disjoint (.inr (by omega)), slice_write16_of_disjoint (.inr (by omega)),
    slice_write16_of_disjoint (.inr (by omega)), slice_write16_of_disjoint (.inr (by omega)),
    slice_write_of_disjoint (.inr (by omega))]

theorem slotOffset_inserted {i : ℕ} (hi : i < p.numSlots) :
    (p.inserted row).slotOffset i = p.slotOffset i :=
  read16_inserted hp hroom (by simp only [headerSize]; omega)
    (by simp only [headerSize, slotEntrySize]; omega)

theorem slotLength_inserted {i : ℕ} (hi : i < p.numSlots) :
    (p.inserted row).slotLength i = p.slotLength i :=
  read16_inserted hp hroom (by simp only [headerSize]; omega)
    (by simp only [headerSize, slotEntrySize]; omega)

/-- The new slot points to the new row. -/
theorem slotOffset_inserted_self :
    (p.inserted row).slotOffset p.numSlots = p.freePtr - row.length := by
  have hspace := hp.freeSpace_eq
  have hfp := hp.freePtr_le
  simp only [slotOffset, inserted, headerSize, slotEntrySize, headerOffsetNumSlots,
    headerOffsetFreePtr, pageSize] at hspace hroom hfp ⊢
  rw [read16_write16_of_disjoint (.inr (by omega)), read16_write16_of_disjoint (.inr (by omega)),
    read16_write16_of_disjoint (.inl (by omega)),
    read16_write_self (by simp only [pageSize]; omega) (by omega)]

theorem slotLength_inserted_self : (p.inserted row).slotLength p.numSlots = row.length := by
  have hspace := hp.freeSpace_eq
  have hfp := hp.freePtr_le
  simp only [slotLength, inserted, headerSize, slotEntrySize, headerOffsetNumSlots,
    headerOffsetFreePtr, pageSize] at hspace hroom hfp ⊢
  rw [read16_write16_of_disjoint (.inr (by omega)), read16_write16_of_disjoint (.inr (by omega)),
    read16_write_self (by simp only [pageSize]; omega) (by omega)]

theorem slice_inserted_self :
    slice (p.inserted row).data.val (p.freePtr - row.length) row.length = row := by
  have hspace := hp.freeSpace_eq
  have hfp := hp.freePtr_le
  simp only [inserted, headerSize, slotEntrySize, headerOffsetNumSlots,
    headerOffsetFreePtr, pageSize] at hspace hroom hfp ⊢
  rw [slice_write16_of_disjoint (.inr (by omega)), slice_write16_of_disjoint (.inr (by omega)),
    slice_write16_of_disjoint (.inr (by omega)), slice_write16_of_disjoint (.inr (by omega)),
    slice_write_self (by simp only [pageSize]; omega)]

theorem wf_inserted : (p.inserted row).WF := by
  have hspace := hp.freeSpace_eq
  have hfp := hp.freePtr_le
  have hn := numSlots_inserted hp row
  have hf := freePtr_inserted hp row
  simp only [headerSize, slotEntrySize, pageSize] at hspace hroom hfp
  refine hp.of_regions p.numSlots ?_ (by omega) ?_ ?_
  · simp only [headerSize, slotEntrySize]
    omega
  · rintro j hj ⟨hlt, hl⟩
    have hj : j < p.numSlots := by omega
    have hlen := slotLength_inserted hp hroom hj
    exact ⟨⟨hj, hlen ▸ hl⟩, slotOffset_inserted hp hroom hj, hlen⟩
  · intro _
    rw [slotOffset_inserted_self hp hroom, slotLength_inserted_self hp hroom]
    refine ⟨by omega, by simp only [pageSize]; omega, fun j _ hl => .inl ?_⟩
    have := (hp.region j hl).1
    omega

/-- An insertion appends a slot. -/
theorem slots_inserted (h0 : row.length ≠ 0) :
    (p.inserted row).slots = p.slots ++ [some row] := by
  have hold : ∀ i ∈ List.range p.numSlots, (p.inserted row).slot i = p.slot i := by
    intro i hi
    have hi := List.mem_range.1 hi
    refine slot_congr (slotOffset_inserted hp hroom hi) (slotLength_inserted hp hroom hi) ?_
    intro hl
    exact slice_inserted hp hroom (hp.region i ⟨hi, hl⟩).1
  have hnew : (p.inserted row).slot p.numSlots = some row := by
    have hl := slotLength_inserted_self hp hroom
    rw [slot, if_neg (by rw [slotDeleted, hl]; simpa using h0), hl,
      slotOffset_inserted_self hp hroom, slice_inserted_self hp hroom]
  rw [slots, numSlots_inserted hp, List.range_succ, List.map_append, List.map_congr_left hold,
    List.map_singleton, hnew, slots]

end Inserted

/-! ### Deletion -/

/-- The page after slot `i` is deleted. -/
def removed (p : Page) (i : ℕ) : Page :=
  p.write (headerSize + i * slotEntrySize + 2) (toLE 2 0)

/-- `deleteRow` on a well-formed page. -/
theorem deleteRow_apply {p : Page} (hp : p.WF) (i : ℕ) :
    deleteRow i p =
      if i ≥ p.numSlots then (.error (.error .slotOutOfBounds), p)
      else if p.slotDeleted i then (.error (.error .slotDeleted), p)
      else (.ok (), p.removed i) := by
  have hn := hp.numSlots_le
  rw [deleteRow]
  simp only [Prog.gets_bind_apply]
  by_cases hi : i ≥ p.numSlots
  · rw [Prog.failIf_pos hi, if_pos hi]
    rfl
  rw [Prog.failIf_neg hi, if_neg hi]
  simp only [Prog.pure_bind_apply, Prog.gets_bind_apply]
  by_cases hd : p.slotDeleted i = true
  · rw [Prog.failIf_pos hd, if_pos hd]
    rfl
  rw [Prog.failIf_neg hd, if_neg hd, Prog.pure_bind_apply,
    write16_apply (by simp only [headerSize, slotEntrySize, pageSize]; omega)]
  rfl

section Removed

variable {p : Page} {i : ℕ}

/-- Only the length of slot `i` changes. -/
theorem read16_removed {k : ℕ} (hk : k + 2 ≤ headerSize + i * slotEntrySize + 2 ∨
    headerSize + i * slotEntrySize + 4 ≤ k) : (p.removed i).read16 k = p.read16 k :=
  read16_write16_of_disjoint hk

theorem numSlots_removed : (p.removed i).numSlots = p.numSlots :=
  read16_removed (.inl (by simp only [headerSize, slotEntrySize, headerOffsetNumSlots]; omega))

theorem freePtr_removed : (p.removed i).freePtr = p.freePtr :=
  read16_removed (.inl (by simp only [headerSize, slotEntrySize, headerOffsetFreePtr]; omega))

theorem slotOffset_removed (j : ℕ) : (p.removed i).slotOffset j = p.slotOffset j :=
  read16_removed (by simp only [headerSize, slotEntrySize]; omega)

theorem slotLength_removed {j : ℕ} (hj : j ≠ i) :
    (p.removed i).slotLength j = p.slotLength j :=
  read16_removed (by simp only [headerSize, slotEntrySize]; omega)

variable (hp : p.WF) (hi : i < p.numSlots)

include hp hi

theorem slotLength_removed_self : (p.removed i).slotLength i = 0 := by
  have := hp.numSlots_le
  exact read16_write_self (by simp only [headerSize, slotEntrySize, pageSize]; omega) (by decide)

theorem wf_removed : (p.removed i).WF := by
  refine hp.of_regions i (by rw [numSlots_removed, freePtr_removed]; exact hp.dir_le)
    freePtr_removed.le ?_ ?_
  · rintro j hj ⟨hlt, hl⟩
    rw [numSlots_removed] at hlt
    have hlen := slotLength_removed (p := p) hj
    exact ⟨⟨hlt, hlen ▸ hl⟩, slotOffset_removed j, hlen⟩
  · rintro ⟨-, hl⟩
    exact absurd (slotLength_removed_self hp hi) hl

/-- A deletion empties one slot. -/
theorem slots_removed : (p.removed i).slots = p.slots.set i none := by
  refine slots_eq_set numSlots_removed ?_ ?_
  · rw [slot, if_pos]
    simp [slotDeleted, slotLength_removed_self hp hi]
  · intro j hj hji
    refine slot_congr (slotOffset_removed j) (slotLength_removed hji) fun hl => ?_
    have hreg := (hp.region j ⟨hj, hl⟩).1
    have hdir := hp.dir_le
    simp only [headerSize, slotEntrySize] at hdir
    exact slice_write16_of_disjoint (.inr (by simp only [headerSize, slotEntrySize]; omega))

end Removed

/-! ### Updates -/

/-- The page after the row of slot `i` is overwritten by one that is no longer. -/
def rewritten (p : Page) (i : ℕ) (row : List UInt8) : Page :=
  (p.write (p.slotOffset i) row).write (headerSize + i * slotEntrySize + 2) (toLE 2 row.length)

/-- The page after a longer row for slot `i` is written at the free pointer. -/
def moved (p : Page) (i : ℕ) (row : List UInt8) : Page :=
  let offset := p.freePtr - row.length
  (((p.write offset row).write (headerSize + i * slotEntrySize) (toLE 2 offset)).write
    (headerSize + i * slotEntrySize + 2) (toLE 2 row.length)).write headerOffsetFreePtr
      (toLE 2 offset)

/-- `updateRow` on a well-formed page. -/
theorem updateRow_apply {p : Page} (hp : p.WF) (i : ℕ) {rowBytes : List UInt8} {rowLen : ℕ}
    (hlen : rowLen ≤ rowBytes.length) :
    updateRow i rowBytes rowLen p =
      if i ≥ p.numSlots then (.error (.error .slotOutOfBounds), p)
      else if p.slotDeleted i then (.error (.error .slotDeleted), p)
      else if rowLen = 0 then (.error (.error .invalidRowLength), p)
      else if rowLen > p.slotLength i then
        if p.freeSpace < rowLen then (.error (.error .pageFull), p)
        else (.ok (p.freePtr - rowLen), p.moved i (rowBytes.take rowLen))
      else (.ok (p.slotOffset i), p.rewritten i (rowBytes.take rowLen)) := by
  have hn := hp.numSlots_le
  have hspace := hp.freeSpace_eq
  have hfp := hp.freePtr_le
  simp only [headerSize, slotEntrySize, pageSize] at hspace hfp
  rw [updateRow]
  simp only [Prog.gets_bind_apply]
  by_cases hi : i ≥ p.numSlots
  · rw [Prog.failIf_pos hi, if_pos hi]
    rfl
  rw [Prog.failIf_neg hi, if_neg hi]
  simp only [Prog.pure_bind_apply, Prog.gets_bind_apply]
  by_cases hd : p.slotDeleted i = true
  · rw [Prog.failIf_pos hd, if_pos hd]
    rfl
  rw [Prog.failIf_neg hd, if_neg hd, Prog.pure_bind_apply]
  by_cases h0 : rowLen = 0
  · rw [Prog.failIf_pos h0, if_pos h0]
    rfl
  rw [Prog.failIf_neg h0, if_neg h0]
  simp only [Prog.pure_bind_apply, Prog.gets_bind_apply]
  change (if rowLen > p.slotLength i then _ else _ : Prog Page (Failure PageError) ℕ) p = _
  by_cases hgrow : rowLen > p.slotLength i
  · rw [if_pos hgrow, if_pos hgrow]
    simp only [Prog.gets_bind_apply]
    by_cases hroom : p.freeSpace < rowLen
    · rw [Prog.failIf_pos hroom, if_pos hroom]
      rfl
    rw [Prog.failIf_neg hroom, if_neg hroom]
    simp only [Prog.pure_bind_apply, Prog.gets_bind_apply]
    have hoff : narrow16 (p.freePtr - rowLen) = p.freePtr - rowLen :=
      narrow16_of_lt (by omega) (by omega)
    rw [hoff, Prog.bind_ok (memcpy_apply hlen (by simp only [pageSize]; omega) _),
      Prog.bind_ok (write16_apply (by simp only [headerSize, slotEntrySize, pageSize]; omega) _ _),
      Prog.bind_ok (write16_apply (by simp only [headerSize, slotEntrySize, pageSize]; omega) _ _),
      Prog.bind_ok (write16_apply (by decide) _ _)]
    simp only [Prog.pure_apply, moved, List.length_take, Nat.min_eq_left hlen]
  · rw [if_neg hgrow, if_neg hgrow]
    -- the old bytes are inside the page, so the shorter row written over them is too
    have hlive : p.Live i := ⟨by omega, slotDeleted_eq_false.1 (by simpa using hd)⟩
    have hreg := hp.region i hlive
    simp only [pageSize] at hreg
    change (memcpy (p.slotOffset i) rowBytes rowLen >>= _) p = _
    rw [Prog.bind_ok (memcpy_apply hlen (by simp only [pageSize]; omega) _),
      Prog.bind_ok (write16_apply (by simp only [headerSize, slotEntrySize, pageSize]; omega) _ _)]
    simp only [Prog.pure_apply, rewritten, List.length_take, Nat.min_eq_left hlen]
    rfl

section Rewritten

variable {p : Page} {i : ℕ} {row : List UInt8} (hp : p.WF) (hi : p.Live i)
  (hle : row.length ≤ p.slotLength i)

include hp hi hle

omit hle in
/-- The header and the directory change in the length of slot `i` only. -/
theorem read16_rewritten {k : ℕ} (hdir : k + 2 ≤ headerSize + slotEntrySize * p.numSlots)
    (hk : k + 2 ≤ headerSize + i * slotEntrySize + 2 ∨
      headerSize + i * slotEntrySize + 4 ≤ k) : (p.rewritten i row).read16 k = p.read16 k := by
  have hreg := (hp.region i hi).1
  have hle' := hp.dir_le
  rw [rewritten, read16_write16_of_disjoint hk, read16_write_of_disjoint (.inl (by omega))]

omit hle in
theorem numSlots_rewritten : (p.rewritten i row).numSlots = p.numSlots :=
  read16_rewritten hp hi (by simp only [headerSize, slotEntrySize, headerOffsetNumSlots]; omega)
    (.inl (by simp only [headerSize, slotEntrySize, headerOffsetNumSlots]; omega))

omit hle in
theorem freePtr_rewritten : (p.rewritten i row).freePtr = p.freePtr :=
  read16_rewritten hp hi (by simp only [headerSize, slotEntrySize, headerOffsetFreePtr]; omega)
    (.inl (by simp only [headerSize, slotEntrySize, headerOffsetFreePtr]; omega))

omit hle in
theorem slotOffset_rewritten {j : ℕ} (hj : j < p.numSlots) :
    (p.rewritten i row).slotOffset j = p.slotOffset j :=
  read16_rewritten hp hi (by simp only [headerSize, slotEntrySize]; omega)
    (by simp only [headerSize, slotEntrySize]; omega)

omit hle in
theorem slotLength_rewritten {j : ℕ} (hj : j < p.numSlots) (hji : j ≠ i) :
    (p.rewritten i row).slotLength j = p.slotLength j :=
  read16_rewritten hp hi (by simp only [headerSize, slotEntrySize]; omega)
    (by simp only [headerSize, slotEntrySize]; omega)

theorem slotLength_rewritten_self : (p.rewritten i row).slotLength i = row.length := by
  have hn := hp.numSlots_le
  have hlt := hi.1
  have hreg := (hp.region i hi).2
  simp only [pageSize] at hreg
  exact read16_write_self (by simp only [headerSize, slotEntrySize, pageSize]; omega) (by omega)

theorem slice_rewritten_self :
    slice (p.rewritten i row).data.val (p.slotOffset i) row.length = row := by
  have hdir := hp.dir_le
  have hlt := hi.1
  have hreg := hp.region i hi
  simp only [headerSize, slotEntrySize, pageSize] at hdir hreg
  rw [rewritten, slice_write16_of_disjoint (.inr (by simp only [headerSize, slotEntrySize]; omega)),
    slice_write_self (by simp only [pageSize]; omega)]

/-- The rows of the other slots are not touched. -/
theorem slice_rewritten {j : ℕ} (hj : p.Live j) (hji : j ≠ i) :
    slice (p.rewritten i row).data.val (p.slotOffset j) (p.slotLength j) =
      slice p.data.val (p.slotOffset j) (p.slotLength j) := by
  have hdir := hp.dir_le
  have hlt := hi.1
  have hreg := (hp.region j hj).1
  have hdis := hp.disjoint j i hj hi hji
  simp only [headerSize, slotEntrySize] at hdir
  rw [rewritten, slice_write16_of_disjoint (.inr (by simp only [headerSize, slotEntrySize]; omega)),
    slice_write_of_disjoint (by omega)]

theorem wf_rewritten : (p.rewritten i row).WF := by
  have hn : (p.rewritten i row).numSlots = p.numSlots := numSlots_rewritten hp hi
  have hf : (p.rewritten i row).freePtr = p.freePtr := freePtr_rewritten hp hi
  refine hp.of_regions i (by rw [hn, hf]; exact hp.dir_le) hf.le ?_ ?_
  · rintro j hj ⟨hlt, hl⟩
    rw [hn] at hlt
    have hlen : (p.rewritten i row).slotLength j = p.slotLength j :=
      slotLength_rewritten hp hi hlt hj
    exact ⟨⟨hlt, hlen ▸ hl⟩, slotOffset_rewritten hp hi hlt, hlen⟩
  · intro _
    have hreg := hp.region i hi
    rw [slotOffset_rewritten hp hi hi.1, slotLength_rewritten_self hp hi hle, hf]
    refine ⟨hreg.1, by omega, fun j hji hj => ?_⟩
    have := hp.disjoint i j hi hj hji.symm
    omega

/-- An update in place replaces the contents of one slot. -/
theorem slots_rewritten (h0 : row.length ≠ 0) :
    (p.rewritten i row).slots = p.slots.set i (some row) := by
  refine slots_eq_set (numSlots_rewritten hp hi) ?_ ?_
  · have hl := slotLength_rewritten_self hp hi hle
    rw [slot, if_neg (by rw [slotDeleted, hl]; simpa using h0), hl,
      slotOffset_rewritten hp hi hi.1, slice_rewritten_self hp hi hle]
  · intro j hj hji
    exact slot_congr (slotOffset_rewritten hp hi hj) (slotLength_rewritten hp hi hj hji)
      fun hl => slice_rewritten hp hi hle ⟨hj, hl⟩ hji

end Rewritten

section Moved

variable {p : Page} {i : ℕ} {row : List UInt8} (hp : p.WF) (hi : i < p.numSlots)
  (hroom : row.length ≤ p.freeSpace)

include hp hi hroom

/-- Of the directory only the entry of slot `i` changes. -/
theorem read16_moved {k : ℕ} (hdir : k + 2 ≤ headerSize + slotEntrySize * p.numSlots)
    (hk : k + 2 ≤ headerSize + i * slotEntrySize ∨ headerSize + i * slotEntrySize + 4 ≤ k)
    (hfp : k + 2 ≤ headerOffsetFreePtr ∨ headerOffsetFreePtr + 2 ≤ k) :
    (p.moved i row).read16 k = p.read16 k := by
  have hspace := hp.freeSpace_eq
  have hle := hp.dir_le
  simp only [moved, headerSize, slotEntrySize, headerOffsetFreePtr] at hspace hle hdir hk hfp ⊢
  rw [read16_write16_of_disjoint hfp, read16_write16_of_disjoint (by omega),
    read16_write16_of_disjoint (by omega), read16_write_of_disjoint (.inl (by omega))]

theorem numSlots_moved : (p.moved i row).numSlots = p.numSlots :=
  read16_moved hp hi hroom (by simp only [headerSize, slotEntrySize, headerOffsetNumSlots]; omega)
    (.inl (by simp only [headerSize, slotEntrySize, headerOffsetNumSlots]; omega))
    (.inl (by decide))

omit hi hroom in
theorem freePtr_moved (row : List UInt8) : (p.moved i row).freePtr = p.freePtr - row.length := by
  have := hp.freePtr_le
  simp only [freePtr, moved, headerOffsetFreePtr, pageSize] at this ⊢
  rw [read16_write_self (by decide) (by omega)]

theorem slotOffset_moved {j : ℕ} (hj : j < p.numSlots) (hji : j ≠ i) :
    (p.moved i row).slotOffset j = p.slotOffset j :=
  read16_moved hp hi hroom (by simp only [headerSize, slotEntrySize]; omega)
    (by simp only [headerSize, slotEntrySize]; omega)
    (.inr (by simp only [headerSize, slotEntrySize, headerOffsetFreePtr]; omega))

theorem slotLength_moved {j : ℕ} (hj : j < p.numSlots) (hji : j ≠ i) :
    (p.moved i row).slotLength j = p.slotLength j :=
  read16_moved hp hi hroom (by simp only [headerSize, slotEntrySize]; omega)
    (by simp only [headerSize, slotEntrySize]; omega)
    (.inr (by simp only [headerSize, slotEntrySize, headerOffsetFreePtr]; omega))

omit hroom in
theorem slotOffset_moved_self : (p.moved i row).slotOffset i = p.freePtr - row.length := by
  have hn := hp.numSlots_le
  have hfp := hp.freePtr_le
  simp only [slotOffset, moved, headerSize, slotEntrySize, headerOffsetFreePtr,
    pageSize] at hfp ⊢
  rw [read16_write16_of_disjoint (.inr (by omega)), read16_write16_of_disjoint (.inl (by omega)),
    read16_write_self (by simp only [pageSize]; omega) (by omega)]

theorem slotLength_moved_self : (p.moved i row).slotLength i = row.length := by
  have hn := hp.numSlots_le
  have hfp := hp.freePtr_le
  have hspace := hp.freeSpace_eq
  simp only [slotLength, moved, headerSize, slotEntrySize, headerOffsetFreePtr,
    pageSize] at hfp hspace ⊢
  rw [read16_write16_of_disjoint (.inr (by omega)),
    read16_write_self (by simp only [pageSize]; omega) (by omega)]

theorem slice_moved_self :
    slice (p.moved i row).data.val (p.freePtr - row.length) row.length = row := by
  have hfp := hp.freePtr_le
  have hspace := hp.freeSpace_eq
  have hdir := hp.dir_le
  simp only [moved, headerSize, slotEntrySize, headerOffsetFreePtr, pageSize] at hfp hspace hdir ⊢
  rw [slice_write16_of_disjoint (.inr (by omega)), slice_write16_of_disjoint (.inr (by omega)),
    slice_write16_of_disjoint (.inr (by omega)),
    slice_write_self (by simp only [pageSize]; omega)]

/-- The rows above the free pointer are not touched. -/
theorem slice_moved {off n : ℕ} (hoff : p.freePtr ≤ off) :
    slice (p.moved i row).data.val off n = slice p.data.val off n := by
  have hspace := hp.freeSpace_eq
  have hdir := hp.dir_le
  simp only [moved, headerSize, slotEntrySize, headerOffsetFreePtr] at hspace hdir ⊢
  rw [slice_write16_of_disjoint (.inr (by omega)), slice_write16_of_disjoint (.inr (by omega)),
    slice_write16_of_disjoint (.inr (by omega)), slice_write_of_disjoint (.inr (by omega))]

theorem wf_moved : (p.moved i row).WF := by
  have hspace := hp.freeSpace_eq
  have hdir := hp.dir_le
  have hfp := hp.freePtr_le
  have hn := numSlots_moved hp hi hroom
  have hf := freePtr_moved (i := i) hp row
  simp only [headerSize, slotEntrySize, pageSize] at hspace hdir hfp
  refine hp.of_regions i ?_ (by omega) ?_ ?_
  · simp only [headerSize, slotEntrySize]
    omega
  · rintro j hji ⟨hlt, hl⟩
    rw [hn] at hlt
    have hlen := slotLength_moved hp hi hroom hlt hji
    exact ⟨⟨hlt, hlen ▸ hl⟩, slotOffset_moved hp hi hroom hlt hji, hlen⟩
  · intro _
    rw [slotOffset_moved_self hp hi, slotLength_moved_self hp hi hroom]
    refine ⟨by omega, by simp only [pageSize]; omega, fun j _ hl => .inl ?_⟩
    have := (hp.region j hl).1
    omega

/-- An update at the free pointer replaces the contents of one slot. -/
theorem slots_moved (h0 : row.length ≠ 0) :
    (p.moved i row).slots = p.slots.set i (some row) := by
  refine slots_eq_set (numSlots_moved hp hi hroom) ?_ ?_
  · have hl := slotLength_moved_self hp hi hroom
    rw [slot, if_neg (by rw [slotDeleted, hl]; simpa using h0), hl,
      slotOffset_moved_self hp hi, slice_moved_self hp hi hroom]
  · intro j hj hji
    exact slot_congr (slotOffset_moved hp hi hroom hj hji) (slotLength_moved hp hi hroom hj hji)
      fun hl => slice_moved hp hi hroom (hp.region j ⟨hj, hl⟩).1

end Moved

/-! ### The methods as they end -/

section Calls

variable {p q : Page} (hp : p.WF)

include hp

/-- An insertion that is accepted. -/
theorem insertRow_eq_ok {rowBytes : List UInt8} {rowLen : ℕ} {u : Unit}
    (hlen : rowLen ≤ rowBytes.length) (h : insertRow rowBytes rowLen p = (.ok u, q)) :
    rowLen ≠ 0 ∧ rowLen + slotEntrySize ≤ p.freeSpace ∧ q = p.inserted (rowBytes.take rowLen) := by
  rw [insertRow_apply hp hlen] at h
  by_cases h0 : rowLen = 0
  · rw [if_pos h0] at h
    cases h
  rw [if_neg h0] at h
  by_cases hroom : p.freeSpace < rowLen + slotEntrySize
  · rw [if_pos hroom] at h
    cases h
  rw [if_neg hroom] at h
  cases h
  exact ⟨h0, Nat.not_lt.1 hroom, rfl⟩

/-- A deletion that is accepted. -/
theorem deleteRow_eq_ok {i : ℕ} {u : Unit} (h : deleteRow i p = (.ok u, q)) :
    i < p.numSlots ∧ p.slotDeleted i = false ∧ q = p.removed i := by
  rw [deleteRow_apply hp] at h
  by_cases hi : i ≥ p.numSlots
  · rw [if_pos hi] at h
    cases h
  rw [if_neg hi] at h
  by_cases hd : p.slotDeleted i = true
  · rw [if_pos hd] at h
    cases h
  rw [if_neg hd] at h
  cases h
  exact ⟨Nat.not_le.1 hi, by simpa using hd, rfl⟩

/-- An update that is accepted has been made in place, or the row has moved. -/
theorem updateRow_cases {i rowLen off : ℕ} {rowBytes : List UInt8}
    (hlen : rowLen ≤ rowBytes.length) (h : updateRow i rowBytes rowLen p = (.ok off, q)) :
    p.Live i ∧ rowLen ≠ 0 ∧
      (p.slotLength i < rowLen ∧ rowLen ≤ p.freeSpace ∧ q = p.moved i (rowBytes.take rowLen) ∨
        rowLen ≤ p.slotLength i ∧ q = p.rewritten i (rowBytes.take rowLen)) := by
  rw [updateRow_apply hp i hlen] at h
  by_cases hi : i ≥ p.numSlots
  · rw [if_pos hi] at h
    cases h
  rw [if_neg hi] at h
  by_cases hd : p.slotDeleted i = true
  · rw [if_pos hd] at h
    cases h
  rw [if_neg hd] at h
  by_cases h0 : rowLen = 0
  · rw [if_pos h0] at h
    cases h
  rw [if_neg h0] at h
  refine ⟨⟨Nat.not_le.1 hi, slotDeleted_eq_false.1 (by simpa using hd)⟩, h0, ?_⟩
  by_cases hgrow : rowLen > p.slotLength i
  · rw [if_pos hgrow] at h
    by_cases hroom : p.freeSpace < rowLen
    · rw [if_pos hroom] at h
      cases h
    rw [if_neg hroom] at h
    cases h
    exact .inl ⟨hgrow, Nat.not_lt.1 hroom, rfl⟩
  · rw [if_neg hgrow] at h
    cases h
    exact .inr ⟨Nat.not_lt.1 hgrow, rfl⟩

/-- An update that is accepted. -/
theorem updateRow_eq_ok {i rowLen off : ℕ} {rowBytes : List UInt8}
    (hlen : rowLen ≤ rowBytes.length) (h : updateRow i rowBytes rowLen p = (.ok off, q)) :
    i < p.numSlots ∧ q.pageId = p.pageId ∧ q.WF ∧
      q.slots = p.slots.set i (some (rowBytes.take rowLen)) := by
  have htake : (rowBytes.take rowLen).length = rowLen := by
    rw [List.length_take, Nat.min_eq_left hlen]
  obtain ⟨hlive, h0, ⟨-, hroom, rfl⟩ | ⟨hle, rfl⟩⟩ := updateRow_cases hp hlen h
  · rw [← htake] at hroom
    exact ⟨hlive.1, rfl, wf_moved hp hlive.1 hroom, slots_moved hp hlive.1 hroom (by rwa [htake])⟩
  · rw [← htake] at hle
    exact ⟨hlive.1, rfl, wf_rewritten hp hlive hle, slots_rewritten hp hlive hle (by rwa [htake])⟩

/-- What an update takes of the free space: the length of a row that has moved. -/
theorem updateRow_room {i rowLen off : ℕ} {rowBytes : List UInt8}
    (hlen : rowLen ≤ rowBytes.length) (h : updateRow i rowBytes rowLen p = (.ok off, q)) :
    q.numSlots = p.numSlots ∧
      (∀ j < p.numSlots, j ≠ i → q.slotLength j = p.slotLength j) ∧
      q.freeSpace + (if p.slotLength i < rowLen then rowLen else 0) = p.freeSpace := by
  have htake : (rowBytes.take rowLen).length = rowLen := by
    rw [List.length_take, Nat.min_eq_left hlen]
  obtain ⟨-, -, hq, -⟩ := updateRow_eq_ok hp hlen h
  have hspace := hq.freeSpace_eq
  have hspace' := hp.freeSpace_eq
  obtain ⟨hlive, h0, ⟨hgrow, hroom, rfl⟩ | ⟨hle, rfl⟩⟩ := updateRow_cases hp hlen h
  · have hroom' : (rowBytes.take rowLen).length ≤ p.freeSpace := by omega
    have hslots := numSlots_moved hp hlive.1 hroom'
    refine ⟨hslots, fun j hj hji => slotLength_moved hp hlive.1 hroom' hj hji, ?_⟩
    rw [hslots, freePtr_moved hp, htake] at hspace
    rw [if_pos hgrow]
    omega
  · have hslots : (p.rewritten i (rowBytes.take rowLen)).numSlots = p.numSlots :=
      numSlots_rewritten hp hlive
    refine ⟨hslots, fun j hj hji => slotLength_rewritten hp hlive hj hji, ?_⟩
    rw [hslots, freePtr_rewritten hp hlive] at hspace
    rw [if_neg (by omega)]
    omega

/-- A method that does not return normally returns an error of the page, which it leaves
as it was. -/
theorem insertRow_eq_error {rowBytes : List UInt8} {rowLen : ℕ} {e : Failure PageError}
    (hlen : rowLen ≤ rowBytes.length) (h : insertRow rowBytes rowLen p = (.error e, q)) :
    (∃ pe, e = .error pe) ∧ q = p := by
  rw [insertRow_apply hp hlen] at h
  split_ifs at h <;> cases h <;> exact ⟨⟨_, rfl⟩, rfl⟩

theorem deleteRow_eq_error {i : ℕ} {e : Failure PageError} (h : deleteRow i p = (.error e, q)) :
    (∃ pe, e = .error pe) ∧ q = p := by
  rw [deleteRow_apply hp] at h
  split_ifs at h <;> cases h <;> exact ⟨⟨_, rfl⟩, rfl⟩

theorem updateRow_eq_error {i rowLen : ℕ} {rowBytes : List UInt8} {e : Failure PageError}
    (hlen : rowLen ≤ rowBytes.length) (h : updateRow i rowBytes rowLen p = (.error e, q)) :
    (∃ pe, e = .error pe) ∧ q = p := by
  rw [updateRow_apply hp i hlen] at h
  split_ifs at h <;> cases h <;> exact ⟨⟨_, rfl⟩, rfl⟩

/-- A live slot refuses the bytes of a row only if they are longer and find no room. -/
theorem updateRow_refuses_iff {i : ℕ} (hlive : p.Live i) {rowBytes : List UInt8}
    (h0 : rowBytes.length ≠ 0) {e : Failure PageError} :
    (updateRow i rowBytes rowBytes.length p).1 = .error e ↔
      p.slotLength i < rowBytes.length ∧ p.freeSpace < rowBytes.length ∧ e = .error .pageFull := by
  have hd : ¬p.slotDeleted i = true := by
    rw [slotDeleted_eq_false.2 hlive.2]
    exact Bool.false_ne_true
  rw [updateRow_apply hp i (le_refl _), if_neg (Nat.not_le.2 hlive.1), if_neg hd, if_neg h0]
  by_cases hgrow : rowBytes.length > p.slotLength i
  · rw [if_pos hgrow]
    by_cases hroom : p.freeSpace < rowBytes.length
    · rw [if_pos hroom]
      constructor
      · rintro ⟨⟩
        exact ⟨hgrow, hroom, rfl⟩
      · rintro ⟨-, -, rfl⟩
        rfl
    · rw [if_neg hroom]
      exact iff_of_false nofun fun h => hroom h.2.1
  · rw [if_neg hgrow]
    exact iff_of_false nofun fun h => hgrow h.1

end Calls

end Page

end MicroSql
