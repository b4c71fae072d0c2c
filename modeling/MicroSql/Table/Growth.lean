import MicroSql.Table.Arrives
import MicroSql.Table.Update

/-!
# Room for the new rows

A row that has grown goes to the free space of its page, and the region that it leaves is not
used again.  `growth` is what UPDATE takes of the free space for a slot, and `pageGrowth` what it
takes for a page; both are known before the statement starts.  `RoomLeft` says what is left of the
free space when the loop comes to a slot.
-/

namespace MicroSql

open Lib

/-- The new row of a row for which the condition holds. -/
def newRow (pr : ParseResult) (columns : Schema) (row : Row) : Option Row :=
  if whereMatches pr row (columns.map (·.name)) = .ok true then
    (rowFromUpdate row pr.statement.assignments pr (columns.map (·.name))).toOption
  else none

/-- The bytes of the new row. -/
def newBytes (pr : ParseResult) (columns : Schema) (row : Row) : Option (List UInt8) :=
  (newRow pr columns row).bind fun updated => (serializeRow updated columns).toOption

/-- What UPDATE takes of the free space of a page for a slot: the length of the new row, if it is
longer than the slot. -/
def growth (pr : ParseResult) (columns : Schema) (p : Page) (slot : ℕ) : ℕ :=
  match (p.rows columns)[slot]?.join.bind (newBytes pr columns) with
  | some bytes => if p.slotLength slot < bytes.length then bytes.length else 0
  | none => 0

/-- What UPDATE takes of the free space of a page. -/
def pageGrowth (pr : ParseResult) (columns : Schema) (p : Page) : ℕ :=
  ((List.range p.numSlots).map (growth pr columns p)).sum

variable {limit : ℕ} {pr : ParseResult} {columns : Schema} {bs cs : List (Block pageSize)}
  {k slot : ℕ} {b : Block pageSize} {p q : Page} {row updated : Row} {bytes : List UInt8}

theorem newRow_eq_some :
    newRow pr columns row = some updated ↔
      whereMatches pr row (columns.map (·.name)) = .ok true ∧
        rowFromUpdate row pr.statement.assignments pr (columns.map (·.name)) = .ok updated := by
  unfold newRow
  by_cases hmatch : whereMatches pr row (columns.map (·.name)) = .ok true
  · rw [if_pos hmatch]
    cases rowFromUpdate row pr.statement.assignments pr (columns.map (·.name)) <;>
      simp [hmatch, Except.toOption]
  · simp [hmatch]

theorem newBytes_eq_some (hnew : newRow pr columns row = some updated)
    (hbytes : serializeRow updated columns = .ok bytes) :
    newBytes pr columns row = some bytes := by
  rw [newBytes, hnew, Option.bind_some, hbytes]
  rfl

/-- The row that is there after UPDATE. -/
def afterUpdate (pr : ParseResult) (columns : Schema) (row : Row) : Row :=
  (newRow pr columns row).getD row

theorem UpdatesTo.eq_afterUpdate {row' : Row}
    (hto : UpdatesTo pr (columns.map (·.name)) row row') : row' = afterUpdate pr columns row := by
  rcases hto with ⟨hmatch, rfl⟩ | ⟨hmatch, hupd⟩
  · rw [afterUpdate, newRow, hmatch]
    rfl
  · rw [afterUpdate, newRow_eq_some.2 ⟨hmatch, hupd⟩, Option.getD_some]

/-- UPDATE replaces each row by the one after it. -/
theorem Rewrites.eq_map_afterUpdate {old new : List Row} {n : ℕ}
    (hre : Rewrites (updateAction pr columns) old new n) :
    new = old.map (afterUpdate pr columns) := by
  have hall := hre.updatesTo.1
  clear hre
  induction hall with
  | nil => rfl
  | cons hto _ ih => exact congrArg₂ List.cons hto.eq_afterUpdate ih

theorem growth_of_not_live (hslot : (p.rows columns)[slot]? = some none) :
    growth pr columns p slot = 0 := by
  rw [growth, hslot]
  rfl

theorem growth_of_no_match (hslot : (p.rows columns)[slot]? = some (some row))
    (hmatch : whereMatches pr row (columns.map (·.name)) = .ok false) :
    growth pr columns p slot = 0 := by
  have hnew : newBytes pr columns row = none := by
    rw [newBytes, newRow, hmatch]
    rfl
  rw [growth, hslot]
  simp [hnew]

theorem growth_of_bytes (hslot : (p.rows columns)[slot]? = some (some row))
    (hbytes : newBytes pr columns row = some bytes) :
    growth pr columns p slot = if p.slotLength slot < bytes.length then bytes.length else 0 := by
  rw [growth, hslot]
  simp [hbytes]

/-- What is left when the slots of page `p` before slot `i` have been visited: the page is `q`. -/
structure RoomLeft (pr : ParseResult) (columns : Schema) (p : Page) (i : ℕ) (q : Page) : Prop where
  numSlots_eq : q.numSlots = p.numSlots
  length_eq : ∀ j, i ≤ j → j < p.numSlots → q.slotLength j = p.slotLength j
  space : q.freeSpace + ((List.range i).map (growth pr columns p)).sum = p.freeSpace

theorem RoomLeft.start : RoomLeft pr columns p 0 p := ⟨rfl, fun _ _ _ => rfl, rfl⟩

/-- A slot that is passed over takes no room. -/
theorem RoomLeft.pass {i : ℕ} (h : RoomLeft pr columns p i q) (hzero : growth pr columns p i = 0) :
    RoomLeft pr columns p (i + 1) q := by
  refine ⟨h.numSlots_eq, fun j hij => h.length_eq j (by omega), ?_⟩
  rw [List.range_succ, List.map_append, List.sum_append, List.map_singleton, List.sum_singleton,
    hzero]
  exact h.space

/-- One slot more. -/
theorem RoomLeft.step {act : RowAction} {K : List Row → Prop} {count i : ℕ} {s s' : Page × ℕ}
    (hslots : SlotsDone columns act K cs k p count i s) (h : RoomLeft pr columns p i s.1)
    (hi : i < p.numSlots)
    (hbody : (updateSlot (pageArray limit) serializeWithin pr columns k s i cs).1 = .ok s') :
    RoomLeft pr columns p (i + 1) s'.1 := by
  have hgood := hslots.good
  have hsame : (p.rows columns)[i]? = (s.1.rows columns)[i]? := by
    have hrest := congrArg (·[0]?) hslots.rest
    simpa using hrest.symm
  have hiq : i < s.1.numSlots := h.numSlots_eq ▸ hi
  -- the slot is deleted, its row does not match, or a new row is written
  rcases updateSlot_eq_ok hbody with ⟨hd, heq, -⟩ | ⟨row, hread, ⟨hmatch, heq, -⟩ | ⟨hmatch,
    updated, bytes, off, hupd, -, hbytes, hpage, -⟩⟩
  · rw [heq]
    exact h.pass (growth_of_not_live (hsame.trans (hgood.row_of_deleted hiq hd)))
  · rw [heq]
    exact h.pass (growth_of_no_match (hsame.trans (hgood.row_of_read hiq hread).2) hmatch)
  · have henc := fitsSlots_serializeWithin _ _ _ hbytes
    rw [Nat.mod_eq_of_lt henc.length_lt] at hpage
    obtain ⟨hnum, hlens, hroom⟩ := Page.updateRow_room hgood.wf (le_refl _) hpage
    have hgrowth := growth_of_bytes (hsame.trans (hgood.row_of_read hiq hread).2)
      (newBytes_eq_some (newRow_eq_some.2 ⟨hmatch, hupd⟩) henc.serialize)
    refine ⟨hnum.trans h.numSlots_eq, fun j hij hj => ?_, ?_⟩
    · rw [hlens j (h.numSlots_eq ▸ hj) (by omega), h.length_eq j (by omega) hj]
    · have hspace := h.space
      rw [h.length_eq i (le_refl i) hi, ← hgrowth] at hroom
      rw [List.range_succ, List.map_append, List.sum_append, List.map_singleton,
        List.sum_singleton]
      omega

/-- The room when the loop comes to a slot, or to the end of the page. -/
theorem roomLeft_of_slots {i count : ℕ} {s : Page × ℕ} (h : TablePages cs)
    (hgood : GoodPages columns cs) (hK : KeysDistinct columns (liveRows columns cs)) (hk : 1 ≤ k)
    (hb : cs[k]? = some b) (hi : i ≤ Page.numSlots ⟨b, k⟩)
    (hpart : ((List.range i).foldlM (updateSlot (pageArray limit) serializeWithin pr columns k)
      (⟨b, k⟩, count) cs).1 = .ok s) : RoomLeft pr columns ⟨b, k⟩ i s.1 := by
  have hkn := (List.getElem?_eq_some_iff.1 hb).1
  have hbg : ({ data := b, pageId := k } : Page).Good columns :=
    (hgood b (List.mem_of_getElem? hb)).with_id k
  refine (foldlM_range_rule
    (J := fun i s => SlotsDone columns (updateAction pr columns) (KeysDistinct columns) cs k ⟨b, k⟩
      count i s ∧ RoomLeft pr columns ⟨b, k⟩ i s.1)
    (fun s slot => updateSlot_readOnly limit serializeWithin pr columns k s slot) ⟨?_, .start⟩ ?_
    hpart).2
  · exact ⟨rfl, hbg, by rw [rowsWith_read hb]; exact hK, ⟨0, Rewrites.nil _, rfl⟩, rfl, rfl⟩
  · rintro j s s' hj ⟨hs, hroom⟩ hbody
    exact ⟨hs.step (updateSlot_actsOnRow fitsSlots_serializeWithin) h hgood hk hkn (by omega) hbody,
      hroom.step hs (by omega) hbody⟩

end MicroSql
