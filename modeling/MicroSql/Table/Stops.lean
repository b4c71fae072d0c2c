import MicroSql.Table.Stuck

/-!
# Where an UPDATE stops

What UPDATE finds when it comes to a slot is known before it starts: the other rows, of which
those before the slot are replaced by then, the free space that is left of the page, and the number
of rows that have been counted.  So it is known whether it gets stuck there (`StuckAt`), and an
UPDATE fails exactly at the first slot where it does.
-/

namespace MicroSql

open Lib

/-- The other rows when UPDATE comes to slot `slot` of page `k`, which is `b` before. -/
def othersAt (pr : ParseResult) (columns : Schema) (bs : List (Block pageSize)) (k : ℕ)
    (b : Block pageSize) (slot : ℕ) : List Row :=
  (rowsBefore columns bs k ⟨b, k⟩ slot).map (afterUpdate pr columns) ++
    rowsAfter columns bs k ⟨b, k⟩ slot

/-- The free space of a page that is left then. -/
def freeAt (pr : ParseResult) (columns : Schema) (p : Page) (slot : ℕ) : ℕ :=
  p.freeSpace - ((List.range slot).map (growth pr columns p)).sum

/-- The number of rows that have been counted by then. -/
def countAt (pr : ParseResult) (columns : Schema) (bs : List (Block pageSize)) (k : ℕ)
    (b : Block pageSize) (slot : ℕ) : ℕ :=
  (rowsBefore columns bs k ⟨b, k⟩ slot).countP fun row =>
    decide (whereMatches pr row (columns.map (·.name)) = .ok true)

/-- UPDATE fails at slot `slot` of page `k` if it comes to it. -/
def StuckAt (pr : ParseResult) (columns : Schema) (bs : List (Block pageSize)) (k slot : ℕ)
    (e : Failure ExecError) : Prop :=
  ∃ b row, bs[k]? = some b ∧ ((⟨b, k⟩ : Page).rows columns)[slot]? = some (some row) ∧
    Stuck pr columns (othersAt pr columns bs k b slot) (freeAt pr columns ⟨b, k⟩ slot)
      (Page.slotLength ⟨b, k⟩ slot) (countAt pr columns bs k b slot) row e

/-- UPDATE comes to slot `slot'` of page `k'` before it comes to slot `slot` of page `k`. -/
def Earlier (k' slot' k slot : ℕ) : Prop := k' < k ∨ k' = k ∧ slot' < slot

/-- Slot `slot` of page `k` is the first one at which UPDATE fails. -/
def StuckFirst (pr : ParseResult) (columns : Schema) (bs : List (Block pageSize)) (k slot : ℕ)
    (e : Failure ExecError) : Prop :=
  StuckAt pr columns bs k slot e ∧
    ∀ k' slot' e', Earlier k' slot' k slot → ¬StuckAt pr columns bs k' slot' e'

variable {limit : ℕ} {pr : ParseResult} {columns : Schema} {bs cs : List (Block pageSize)}
  {k k' slot slot' : ℕ} {s : Page × ℕ} {b : Block pageSize} {row : Row} {e : Failure ExecError}

/-- The row of a slot that fails is counted last of all, if it is. -/
theorem countAt_lt (hb : bs[k]? = some b)
    (hrow : ((⟨b, k⟩ : Page).rows columns)[slot]? = some (some row))
    (hmatch : whereMatches pr row (columns.map (·.name)) = .ok true) :
    countAt pr columns bs k b slot + 1 ≤ (liveRows columns bs).countP fun row =>
      decide (whereMatches pr row (columns.map (·.name)) = .ok true) := by
  rw [liveRows_at_slot hb hrow, List.countP_append, List.countP_cons, if_pos (by simp [hmatch]),
    countAt]
  omega

/-- There are no rows on page 0. -/
theorem StuckAt.one_le (h : TablePages bs) (hf : StuckAt pr columns bs k slot e) : 1 ≤ k := by
  obtain ⟨b, row, hb, hrow, -⟩ := hf
  by_contra hk
  obtain rfl : k = 0 := by omega
  rw [h.reserved] at hb
  cases hb
  have hempty : ((⟨(Page.init 0).data, 0⟩ : Page).rows columns) = [] := Page.rows_init columns 0
  rw [hempty] at hrow
  simp at hrow

section Run

variable (h : TablePages bs) (hgood : GoodPages columns bs)
  (hkeys : KeysDistinct columns (liveRows columns bs))

include h hgood hkeys

/-- What is left of the page when the loop comes to a slot. -/
theorem Arrives.roomLeft
    (ha : Arrives (updateSlot (pageArray limit) serializeWithin pr columns) bs cs k slot s)
    (hb : bs[k]? = some b) : RoomLeft pr columns ⟨b, k⟩ slot s.1 := by
  obtain ⟨b', count, hb', hbc, hp, hslot, hpart⟩ := ha.comes
  obtain rfl : b' = b := Option.some.inj (hb'.symm.trans hb)
  obtain ⟨hcs, hI⟩ := hp.pagesDone (updateSlot_readOnly limit serializeWithin pr columns)
    (updateSlot_actsOnRow fitsSlots_serializeWithin) h hgood hkeys
  exact roomLeft_of_slots hcs hI.good hI.keeps hp.one_le hbc hslot.le hpart

/-- **How UPDATE fails at a slot** to which it comes is known before it starts. -/
theorem Arrives.stuckAt_iff
    (ha : Arrives (updateSlot (pageArray limit) serializeWithin pr columns) bs cs k slot s) :
    (updateSlot (pageArray limit) serializeWithin pr columns k s slot cs).1 = .error e ↔
      StuckAt pr columns bs k slot e := by
  obtain ⟨p, count⟩ := s
  obtain ⟨b, hw⟩ := ha.walked (updateSlot_readOnly limit serializeWithin pr columns)
    (updateSlot_actsOnRow fitsSlots_serializeWithin) h hgood hkeys
  have hb := hw.page
  rcases hw.good.slot_cases hw.lt_numSlots with ⟨hd, hnone⟩ | ⟨-, -, row, -, -, hrow, -⟩
  · -- an empty slot is passed over
    refine iff_of_false ?_ ?_
    · rw [updateSlot_of_deleted hd]
      rintro ⟨⟩
    · rintro ⟨b', row, hb', hrow, -⟩
      cases hb.symm.trans hb'
      rw [← hw.slot_eq, hnone] at hrow
      cases hrow
  have hleft := ha.roomLeft h hgood hkeys hb
  have hothers : rowsBefore columns cs k p slot ++ rowsAfter columns cs k p slot =
      othersAt pr columns bs k b slot := by
    rw [hw.done.eq_map_afterUpdate, hw.after_eq, othersAt]
  have hcount : count = countAt pr columns bs k b slot := hw.done.updatesTo.2
  have hfree : p.freeSpace = freeAt pr columns ⟨b, k⟩ slot := by
    have hspace := hleft.space
    rw [freeAt]
    dsimp only at hspace ⊢
    omega
  have hlen : p.slotLength slot = Page.slotLength ⟨b, k⟩ slot :=
    hleft.length_eq slot (le_refl slot) (hleft.numSlots_eq ▸ hw.lt_numSlots)
  rw [hw.updateSlot_eq_error hrow, hothers, hfree, hlen, hcount]
  constructor
  · intro hstuck
    exact ⟨b, row, hb, hw.slot_eq.symm.trans hrow, hstuck⟩
  · rintro ⟨b', row', hb', hrow', hstuck⟩
    cases hb.symm.trans hb'
    cases hrow.symm.trans (hw.slot_eq.trans hrow')
    exact hstuck

/-- Where UPDATE has been, it has not failed. -/
theorem Arrives.not_stuckAt
    (ha : Arrives (updateSlot (pageArray limit) serializeWithin pr columns) bs cs k slot s)
    (hlt : Earlier k' slot' k slot) : ¬StuckAt pr columns bs k' slot' e := by
  intro hf
  have hread := updateSlot_readOnly limit serializeWithin pr columns
  have hpos := hf.one_le h
  obtain ⟨b', row, hb', hrow, -⟩ := id hf
  have hslot' : slot' < Page.numSlots ⟨b', k'⟩ := by
    rw [← Page.length_rows columns]
    exact (List.getElem?_eq_some_iff.1 hrow).1
  obtain ⟨b, count, hb, hbc, hp, hslot, hpart⟩ := ha.comes
  obtain ⟨ds, s₁, s₂, ha', hok⟩ : ∃ ds s₁ s₂,
      Arrives (updateSlot (pageArray limit) serializeWithin pr columns) bs ds k' slot' s₁ ∧
      (updateSlot (pageArray limit) serializeWithin pr columns k' s₁ slot' ds).1 = .ok s₂ := by
    rcases hlt with hlt | ⟨rfl, hlt⟩
    · obtain ⟨ds, n, b'', s', hp', hb'', hloop⟩ := hp.exists_page hpos hlt
      obtain rfl : b'' = b' := Option.some.inj (hb''.symm.trans (hp'.getElem?_eq.trans hb'))
      obtain ⟨s₁, s₂, hpart', hok⟩ := foldlM_range_passes (fun s i => hread k' s i) hloop hslot'
      exact ⟨ds, s₁, s₂, ⟨(List.getElem?_eq_some_iff.1 hb').1, b'', n, hb', hb'', hp', hslot',
        hpart'⟩, hok⟩
    · obtain ⟨s₁, s₂, hpart', hok⟩ := foldlM_range_passes (fun s i => hread k' s i) hpart hlt
      exact ⟨cs, s₁, s₂, ⟨ha.lt_length, b, count, hb, hbc, hp, hlt.trans hslot, hpart'⟩, hok⟩
  have hfail := (ha'.stuckAt_iff h hgood hkeys).2 hf
  rw [hok] at hfail
  cases hfail

/-- UPDATE passes the pages on which it does not fail. -/
theorem exists_passed (limit : ℕ) (hk : 1 ≤ k) (hle : k ≤ bs.length)
    (hno : ∀ k' slot' e', k' < k → ¬StuckAt pr columns bs k' slot' e') :
    ∃ cs count, Passed (updateSlot (pageArray limit) serializeWithin pr columns) bs k count cs := by
  have hread := updateSlot_readOnly limit serializeWithin pr columns
  induction k, hk using Nat.le_induction with
  | base => exact ⟨bs, 0, .start⟩
  | succ k hk ih =>
    obtain ⟨cs, count, hp⟩ := ih (by omega) fun k' slot' e' hlt => hno k' slot' e' (by omega)
    have hkn : k < bs.length := by omega
    have hb : bs[k]? = some bs[k] := List.getElem?_eq_getElem hkn
    have hbc := hp.getElem?_eq.trans hb
    rcases hloop : (slotLoop (updateSlot (pageArray limit) serializeWithin pr columns) k
      ⟨bs[k], k⟩ count cs).1 with e' | ⟨p', count'⟩
    · obtain ⟨slot, s, hslot, hpart, hfail⟩ :=
        (foldlM_range_eq_error fun s i => hread k s i).1 hloop
      have ha : Arrives (updateSlot (pageArray limit) serializeWithin pr columns) bs cs k slot s :=
        ⟨hkn, bs[k], count, hb, hbc, hp, hslot, hpart⟩
      exact absurd ((ha.stuckAt_iff h hgood hkeys).1 hfail) (hno k slot e' (by omega))
    · exact ⟨_, count', .page hp hbc hloop⟩

/-- UPDATE comes to the first slot at which it fails. -/
theorem StuckFirst.arrives (limit : ℕ) (hf : StuckFirst pr columns bs k slot e) :
    ∃ cs s, Arrives (updateSlot (pageArray limit) serializeWithin pr columns) bs cs k slot s := by
  obtain ⟨hstuck, hfirst⟩ := hf
  have hread := updateSlot_readOnly limit serializeWithin pr columns
  obtain ⟨b, row, hb, hrow, -⟩ := id hstuck
  have hkn := (List.getElem?_eq_some_iff.1 hb).1
  have hslot : slot < Page.numSlots ⟨b, k⟩ := by
    rw [← Page.length_rows columns]
    exact (List.getElem?_eq_some_iff.1 hrow).1
  obtain ⟨cs, count, hp⟩ := exists_passed h hgood hkeys limit (hstuck.one_le h) hkn.le
    fun k' slot' e' hlt => hfirst k' slot' e' (.inl hlt)
  have hbc := hp.getElem?_eq.trans hb
  rcases hpart : ((List.range slot).foldlM
    (updateSlot (pageArray limit) serializeWithin pr columns k) (⟨b, k⟩, count) cs).1 with e' | s
  · obtain ⟨i, s, hi, hpre, hfail⟩ := (foldlM_range_eq_error fun s i => hread k s i).1 hpart
    have ha : Arrives (updateSlot (pageArray limit) serializeWithin pr columns) bs cs k i s :=
      ⟨hkn, b, count, hb, hbc, hp, hi.trans hslot, hpre⟩
    exact absurd ((ha.stuckAt_iff h hgood hkeys).1 hfail) (hfirst k i e' (.inr ⟨rfl, hi⟩))
  · exact ⟨cs, s, hkn, b, count, hb, hbc, hp, hslot, hpart⟩

/-- **An UPDATE fails at the first slot where it gets stuck**, and leaves the pages before that
one rewritten and the others as they were. -/
theorem updateRows_stops_iff :
    updateRows (pageArray limit) serializeWithin pr columns bs = (.error e, cs) ↔
      ∃ k slot count, StuckFirst pr columns bs k slot e ∧
        Passed (updateSlot (pageArray limit) serializeWithin pr columns) bs k count cs := by
  have hread := updateSlot_readOnly limit serializeWithin pr columns
  rw [updateRows, rewritePages_stops_iff hread updateSlot_keepsPages h]
  constructor
  · rintro ⟨k, slot, s, ha, hfail⟩
    obtain ⟨-, count, -, -, hp, -⟩ := ha.comes
    exact ⟨k, slot, count, ⟨(ha.stuckAt_iff h hgood hkeys).1 hfail, fun k' slot' e' hlt =>
      ha.not_stuckAt h hgood hkeys hlt⟩, hp⟩
  · rintro ⟨k, slot, count, hf, hp⟩
    obtain ⟨ds, s, ha⟩ := hf.arrives h hgood hkeys limit
    obtain ⟨-, count', -, -, hp', -⟩ := ha.comes
    obtain ⟨rfl, rfl⟩ := hp.unique hp'
    exact ⟨k, slot, s, ha, (ha.stuckAt_iff h hgood hkeys).2 hf.1⟩

theorem updateRows_eq_error :
    (updateRows (pageArray limit) serializeWithin pr columns bs).1 = .error e ↔
      ∃ k slot, StuckFirst pr columns bs k slot e := by
  constructor
  · intro herr
    obtain ⟨k, slot, -, hf, -⟩ := (updateRows_stops_iff h hgood hkeys).1 (Prod.ext herr rfl)
    exact ⟨k, slot, hf⟩
  · rintro ⟨k, slot, hf⟩
    obtain ⟨cs, s, ha⟩ := hf.arrives h hgood hkeys limit
    obtain ⟨-, count, -, -, hp, -⟩ := ha.comes
    rw [(updateRows_stops_iff h hgood hkeys).2 ⟨k, slot, count, hf, hp⟩]

/-- An UPDATE that returns fails at no slot. -/
theorem not_stuckAt_of_ok {n : ℕ}
    (hok : (updateRows (pageArray limit) serializeWithin pr columns bs).1 = .ok n) :
    ¬StuckAt pr columns bs k slot e := by
  intro hf
  obtain ⟨b, row, hb, hrow, -⟩ := id hf
  have hslot : slot < Page.numSlots ⟨b, k⟩ := by
    rw [← Page.length_rows columns]
    exact (List.getElem?_eq_some_iff.1 hrow).1
  obtain ⟨cs, s, s', ha, hstep⟩ :=
    rewritePages_arrives (updateSlot_readOnly limit serializeWithin pr columns)
      updateSlot_keepsPages h hok (hf.one_le h) hb hslot
  have hfail := (ha.stuckAt_iff h hgood hkeys).2 hf
  rw [hstep] at hfail
  cases hfail

end Run

end MicroSql
