import MicroSql.Storage.RowTypes
import MicroSql.Table.Growth

/-!
# Where UPDATE gets stuck

UPDATE can fail at a slot in eight ways.  `Stuck` lists them by the row of the slot, the other
rows as they are when the loop comes to it (`KeyTaken`), the free space of the page, the length of
the slot and the number of rows that have been counted.
-/

namespace MicroSql

open Lib

/-- The statement assigns the primary key, and one of the other rows has that of the new row. -/
def KeyTaken (pr : ParseResult) (columns : Schema) (others : List Row) (updated : Row) : Prop :=
  ∃ pk v, primaryKeyIndex columns = some pk ∧ pkAssigned pr columns pk = true ∧
    updated[pk]? = some v ∧ others.any (holdsKey pk v) = true

/-- Why the new row `updated` is not stored in a slot of length `len`, on a page that has `free`
bytes left, when `count` rows have been counted. -/
inductive StuckNew (pr : ParseResult) (columns : Schema) (others : List Row) (free len count : ℕ)
    (updated : Row) : Failure ExecError → Prop
  /-- the new key is that of another row -/
  | key (htaken : KeyTaken pr columns others updated) :
      StuckNew pr columns others free len count updated (.error .primaryKeyViolation)
  /-- the encoder stops at a text that is too long -/
  | text (hfree : ¬KeyTaken pr columns others updated) (hstop : StopsAtText updated columns) :
      StuckNew pr columns others free len count updated (.error .internalError)
  /-- a value is not of the type of its column -/
  | type (hfree : ¬KeyTaken pr columns others updated) (hstop : ¬StopsAtText updated columns)
      (htyped : ¬updated.Typed columns) :
      StuckNew pr columns others free len count updated (.fault .badVariantAccess)
  /-- the length does not fit into 16 bits -/
  | long (hfree : ¬KeyTaken pr columns others updated) {bytes : List UInt8}
      (hbytes : serializeRow updated columns = .ok bytes) (hlong : 65536 ≤ bytes.length) :
      StuckNew pr columns others free len count updated (.fault .assertion)
  /-- the row is longer than the slot and than the free space -/
  | room (hfree : ¬KeyTaken pr columns others updated) {bytes : List UInt8}
      (hbytes : serializeRow updated columns = .ok bytes) (hshort : bytes.length < 65536)
      (hgrow : len < bytes.length) (hroom : free < bytes.length) :
      StuckNew pr columns others free len count updated (.error .internalError)
  /-- the row cannot be counted -/
  | count (hfree : ¬KeyTaken pr columns others updated) {bytes : List UInt8}
      (hbytes : serializeRow updated columns = .ok bytes) (hshort : bytes.length < 65536)
      (hfits : bytes.length ≤ len ∨ bytes.length ≤ free) (hcount : 2 ^ 31 ≤ count + 1) :
      StuckNew pr columns others free len count updated (.fault .signedOverflow)

/-- Why UPDATE fails at a slot with the row `row`. -/
inductive Stuck (pr : ParseResult) (columns : Schema) (others : List Row) (free len count : ℕ)
    (row : Row) : Failure ExecError → Prop
  | condition {e : Failure ExecError}
      (hmatch : whereMatches pr row (columns.map (·.name)) = .error e) :
      Stuck pr columns others free len count row e
  | values {e : Failure ExecError} (hmatch : whereMatches pr row (columns.map (·.name)) = .ok true)
      (hupd : rowFromUpdate row pr.statement.assignments pr (columns.map (·.name)) = .error e) :
      Stuck pr columns others free len count row e
  | new {updated : Row} {e : Failure ExecError} (hnew : newRow pr columns row = some updated)
      (hstuck : StuckNew pr columns others free len count updated e) :
      Stuck pr columns others free len count row e

variable {limit : ℕ} {pr : ParseResult} {columns : Schema} {bs cs : List (Block pageSize)}
  {k slot count : ℕ} {b : Block pageSize} {p : Page} {row updated : Row} {bytes : List UInt8}
  {act : RowAction} {K : List Row → Prop} {e : Failure ExecError}

/-! ### The first of the checks that fails -/

section Cases

variable {others : List Row} {free len : ℕ} {e' : Failure ExecError}

theorem stuck_of_condition_error (hmatch : whereMatches pr row (columns.map (·.name)) = .error e') :
    Stuck pr columns others free len count row e ↔ e' = e := by
  constructor
  · rintro (hmatch' | ⟨hmatch', -⟩ | ⟨hnew, -⟩)
    · exact Except.error.inj (hmatch.symm.trans hmatch')
    · cases hmatch.symm.trans hmatch'
    · cases hmatch.symm.trans (newRow_eq_some.1 hnew).1
  · rintro rfl
    exact .condition hmatch

theorem not_stuck_of_no_match (hmatch : whereMatches pr row (columns.map (·.name)) = .ok false) :
    ¬Stuck pr columns others free len count row e := by
  rintro (hmatch' | ⟨hmatch', -⟩ | ⟨hnew, -⟩)
  · cases hmatch.symm.trans hmatch'
  · cases hmatch.symm.trans hmatch'
  · cases hmatch.symm.trans (newRow_eq_some.1 hnew).1

theorem stuck_of_values_error (hmatch : whereMatches pr row (columns.map (·.name)) = .ok true)
    (hupd : rowFromUpdate row pr.statement.assignments pr (columns.map (·.name)) = .error e') :
    Stuck pr columns others free len count row e ↔ e' = e := by
  constructor
  · rintro (hmatch' | ⟨-, hupd'⟩ | ⟨hnew, -⟩)
    · cases hmatch.symm.trans hmatch'
    · exact Except.error.inj (hupd.symm.trans hupd')
    · cases hupd.symm.trans (newRow_eq_some.1 hnew).2
  · rintro rfl
    exact .values hmatch hupd

theorem stuck_of_newRow (hnew : newRow pr columns row = some updated) :
    Stuck pr columns others free len count row e ↔
      StuckNew pr columns others free len count updated e := by
  obtain ⟨hmatch, hupd⟩ := newRow_eq_some.1 hnew
  constructor
  · rintro (hmatch' | ⟨-, hupd'⟩ | ⟨hnew', hstuck⟩)
    · cases hmatch.symm.trans hmatch'
    · cases hupd.symm.trans hupd'
    · cases hnew.symm.trans hnew'
      exact hstuck
  · exact .new hnew

end Cases

/-! ### Encodings are not empty -/

/-- A row of some columns takes at least one byte. -/
theorem serializeRow_ne_nil (hcols : columns ≠ []) (h : serializeRow row columns = .ok bytes) :
    bytes.length ≠ 0 := by
  obtain ⟨hlen, n, fs, hn, -, -⟩ := serializeRow_eq_ok.1 h
  rw [length_serializeRow h hn]
  obtain ⟨c, columns, rfl⟩ := List.exists_cons_of_ne_nil hcols
  cases row with
  | nil => cases hlen
  | cons v row =>
    obtain ⟨k, m, hk, -, rfl⟩ := encodedSize_cons.1 hn
    have hpos : 0 < k := by
      unfold fieldSize at hk
      split at hk
      · cases hk
        decide
      · split at hk
        · cases hk
        · cases hk
          omega
      · cases hk
      · cases hk
        omega
    omega

/-- Where there are live rows there are columns. -/
theorem Page.Good.columns_ne_nil (hp : p.Good columns) (hslot : slot < p.numSlots)
    (hrow : (p.rows columns)[slot]? = some (some row)) : columns ≠ [] := by
  rcases hp.slot_cases hslot with ⟨-, hnone⟩ | ⟨hd, bytes, row', hbytes, henc, -, -⟩
  · rw [hnone] at hrow
    cases hrow
  · rintro rfl
    -- the encoding of no columns is empty, and the slot is not
    have hnil : bytes = [] := by
      obtain ⟨hlen, n, fs, hn, hfs, rfl⟩ := serializeRow_eq_ok.1 henc.serialize
      obtain rfl : row' = [] := List.length_eq_zero_iff.1 hlen
      cases hn
      cases hfs
      rfl
    have hlive : p.Live slot := ⟨hslot, Page.slotDeleted_eq_false.1 hd⟩
    have hreg := hp.wf.region slot hlive
    rw [Page.getElem?_slots, if_pos hslot, Page.slot, if_neg (by simp [hd])] at hbytes
    have hlen := congrArg List.length (Option.some.inj (Option.some.inj hbytes))
    rw [length_slice (by rw [p.data.property]; exact hreg.2), hnil] at hlen
    exact hlive.2 hlen

/-! ### The primary key check -/

/-- When the primary key check of UPDATE fails. -/
theorem Walked.checkKey_eq_error (hw : Walked columns act K bs cs k slot b p count)
    (hlen : updated.length = columns.length) {e : Failure ExecError} :
    (checkKey (pageArray limit) pr columns updated p k slot cs).1 = .error e ↔
      KeyTaken pr columns (rowsBefore columns cs k p slot ++ rowsAfter columns cs k p slot)
        updated ∧ e = .error .primaryKeyViolation := by
  unfold checkKey KeyTaken
  cases hpk : primaryKeyIndex columns with
  | none => simp
  | some pk =>
    have hlt := primaryKeyIndex_lt hpk
    have hup : updated[pk]? = some (updated.get ⟨pk, hlen ▸ hlt⟩) := List.getElem?_eq_getElem _
    generalize updated.get ⟨pk, hlen ▸ hlt⟩ = v at hup
    dsimp only
    by_cases hass : pkAssigned pr columns pk = true
    swap
    · simp [hass]
    -- the check looks at all live rows but this one
    have hothers : liveRows columns (cs.take k) ++ ((p.rows columns).set slot none).reduceOption ++
        liveRows columns (cs.drop (k + 1)) =
          rowsBefore columns cs k p slot ++ rowsAfter columns cs k p slot := by
      rw [reduceOption_set (by rw [Page.length_rows]; exact hw.lt_numSlots), rowsBefore, rowsAfter]
      simp only [Option.toList_none, List.append_nil, List.append_assoc]
    rw [if_pos hass, Row.at, hup, Prog.lift_ok_bind_apply,
      Prog.bind_ok (primaryKeyExists_some hlt hw.table hw.goodPages hw.one_le hw.lt_length hw.good
        hw.lt_numSlots), hothers, Prog.failIf_apply]
    by_cases hfound : (rowsBefore columns cs k p slot ++ rowsAfter columns cs k p slot).any
        (holdsKey pk v) = true
    · rw [if_pos hfound]
      constructor
      · rintro ⟨⟩
        exact ⟨⟨pk, v, rfl, hass, hup, hfound⟩, rfl⟩
      · rintro ⟨-, rfl⟩
        rfl
    · rw [if_neg hfound]
      constructor
      · rintro ⟨⟩
      · rintro ⟨⟨pk', v', hpk', -, hup', hfound'⟩, -⟩
        cases hpk'
        cases hup.symm.trans hup'
        exact absurd hfound' hfound

/-! ### One slot -/

theorem serializeWithin_of_lt (h : serializeRow row columns = .ok bytes)
    (hshort : bytes.length < 65536) : serializeWithin row columns = .ok bytes := by
  rw [serializeWithin, h, ok_bind, if_pos hshort]
  rfl

theorem serializeWithin_of_le (h : serializeRow row columns = .ok bytes)
    (hlong : 65536 ≤ bytes.length) : serializeWithin row columns = .error (.fault .assertion) := by
  rw [serializeWithin, h, ok_bind, if_neg (Nat.not_lt.2 hlong)]
  rfl

theorem serializeWithin_of_error {re : Failure RowError}
    (h : serializeRow row columns = .error re) : serializeWithin row columns = .error re := by
  rw [serializeWithin, h]
  rfl

/-- What is left of `updateSlot` when the key is free, and the page and the count are known. -/
def storeUpdated (columns : Schema) (slot : ℕ) (p : Page) (count : ℕ) (updated : Row) :
    Prog (List (Block pageSize)) (Failure ExecError) (Page × ℕ) := do
  let rowBytes ← .lift ((serializeWithin updated columns).mapError internal)
  let (_, page) ← onPage p (Page.updateRow slot rowBytes (rowBytes.length % 65536))
  let count ← .lift (increment count)
  return (page, count)

section Slot

variable (hw : Walked columns act K bs cs k slot b p count)
  (hrow : (p.rows columns)[slot]? = some (some row))

include hw hrow

/-- How a row whose length fits into 16 bits is not stored. -/
theorem Walked.storeUpdated_of_short (hbytes : serializeRow updated columns = .ok bytes)
    (hshort : bytes.length < 65536) : (storeUpdated columns slot p count updated cs).1 = .error e ↔
      (p.slotLength slot < bytes.length ∧ p.freeSpace < bytes.length ∧
        e = .error .internalError) ∨
      ((bytes.length ≤ p.slotLength slot ∨ bytes.length ≤ p.freeSpace) ∧ 2 ^ 31 ≤ count + 1 ∧
        e = .fault .signedOverflow) := by
  have hlive : p.Live slot := by
    rcases hw.good.slot_cases hw.lt_numSlots with ⟨-, hnone⟩ | ⟨hd, -⟩
    · rw [hnone] at hrow
      cases hrow
    · exact ⟨hw.lt_numSlots, Page.slotDeleted_eq_false.1 hd⟩
  have hpage : ∀ {e}, (onPage p (Page.updateRow slot bytes (bytes.length % 65536)) cs).1 =
      .error e ↔ p.slotLength slot < bytes.length ∧ p.freeSpace < bytes.length ∧
        e = .error .internalError := by
    intro e
    have hrefuses := fun pe => Page.updateRow_refuses_iff (e := pe) hw.good.wf hlive
      (serializeRow_ne_nil (hw.good.columns_ne_nil hw.lt_numSlots hrow) hbytes)
    rw [Nat.mod_eq_of_lt hshort, onPage_eq_error]
    constructor
    · rintro ⟨pe, hpe, rfl⟩
      obtain ⟨hgrow, hroom, rfl⟩ := (hrefuses pe).1 hpe
      exact ⟨hgrow, hroom, rfl⟩
    · rintro ⟨hgrow, hroom, rfl⟩
      exact ⟨_, (hrefuses _).2 ⟨hgrow, hroom, rfl⟩, rfl⟩
  rw [storeUpdated, serializeWithin_of_lt hbytes hshort, mapError_ok, Prog.lift_ok_bind_apply,
    (onPage_readOnly _ _).bind_eq_error, hpage]
  refine or_congr Iff.rfl ?_
  -- the page takes the bytes, so that only the count is left
  have hcount : ∀ a : ℕ × Page, ((do
      let count ← Prog.lift (increment count)
      return (a.2, count) : Prog (List (Block pageSize)) (Failure ExecError) (Page × ℕ)) cs).1 =
        .error e ↔ 2 ^ 31 ≤ count + 1 ∧ e = .fault .signedOverflow := by
    intro a
    rw [← increment_eq_error]
    rcases increment count with e' | next
    · constructor <;>
        · rintro ⟨⟩
          rfl
    · exact iff_of_false (by rintro ⟨⟩) (by rintro ⟨⟩)
  constructor
  · rintro ⟨a, hok, hfail⟩
    refine ⟨?_, (hcount a).1 hfail⟩
    by_contra hfits
    rw [not_or, Nat.not_le, Nat.not_le] at hfits
    have hfull := hpage.2 ⟨hfits.1, hfits.2, rfl⟩
    rw [hok] at hfull
    cases hfull
  · rintro ⟨hfits, hover⟩
    rcases hrun : (onPage p (Page.updateRow slot bytes (bytes.length % 65536)) cs).1 with e' | a
    · obtain ⟨hgrow, hroom, -⟩ := hpage.1 hrun
      omega
    · exact ⟨a, rfl, (hcount a).2 hover⟩

/-- How a new row is not stored although its key is free. -/
theorem Walked.storeUpdated_eq_error (hlen : updated.length = columns.length)
    {others : List Row} (hfree : ¬KeyTaken pr columns others updated) :
    (storeUpdated columns slot p count updated cs).1 = .error e ↔
      StuckNew pr columns others p.freeSpace (p.slotLength slot) count updated e := by
  have hfails : ∀ {re}, serializeRow updated columns = .error re →
      (storeUpdated columns slot p count updated cs).1 = .error (internal re) := by
    intro re hrun
    rw [storeUpdated, serializeWithin_of_error hrun]
    rfl
  have hlongs : ∀ {bytes}, serializeRow updated columns = .ok bytes → 65536 ≤ bytes.length →
      (storeUpdated columns slot p count updated cs).1 = .error (.fault .assertion) := by
    intro bytes hbytes hlong
    rw [storeUpdated, serializeWithin_of_le hbytes hlong]
    rfl
  constructor
  · intro hfail
    rcases serializeRow_cases hlen with ⟨hstop, hrun⟩ | ⟨-, bytes, hbytes⟩ | ⟨hstop, htyped, hrun⟩
    · rw [hfails hrun] at hfail
      cases hfail
      exact .text hfree hstop
    · by_cases hshort : bytes.length < 65536
      · rcases (hw.storeUpdated_of_short hrow hbytes hshort).1 hfail with
          ⟨hgrow, hroom, rfl⟩ | ⟨hfits, hcount, rfl⟩
        · exact .room hfree hbytes hshort hgrow hroom
        · exact .count hfree hbytes hshort hfits hcount
      · rw [hlongs hbytes (Nat.not_lt.1 hshort)] at hfail
        cases hfail
        exact .long hfree hbytes (Nat.not_lt.1 hshort)
    · rw [hfails hrun] at hfail
      cases hfail
      exact .type hfree hstop htyped
  · intro hstuck
    cases hstuck with
    | key htaken => exact absurd htaken hfree
    | text _ hstop => exact hfails (hstop.serializeRow hlen)
    | type _ hstop htyped =>
      rcases serializeRow_cases hlen with ⟨hstop', -⟩ | ⟨hsuits, -⟩ | ⟨-, -, hrun⟩
      · exact absurd hstop' hstop
      · exact absurd (hsuits.imp fun _ _ => Value.Suits.typed) htyped
      · exact hfails hrun
    | long _ hbytes hlong => exact hlongs hbytes hlong
    | room _ hbytes hshort hgrow hroom =>
      exact (hw.storeUpdated_of_short hrow hbytes hshort).2 (.inl ⟨hgrow, hroom, rfl⟩)
    | count _ hbytes hshort hfits hcount =>
      exact (hw.storeUpdated_of_short hrow hbytes hshort).2 (.inr ⟨hfits, hcount, rfl⟩)

/-- **How UPDATE fails at a slot.** -/
theorem Walked.updateSlot_eq_error :
    (updateSlot (pageArray limit) serializeWithin pr columns k (p, count) slot cs).1 = .error e ↔
      Stuck pr columns (rowsBefore columns cs k p slot ++ rowsAfter columns cs k p slot)
        p.freeSpace (p.slotLength slot) count row e := by
  generalize hothers : rowsBefore columns cs k p slot ++ rowsAfter columns cs k p slot = others
  rcases hw.good.slot_cases hw.lt_numSlots with ⟨-, hnone⟩ | ⟨hd, _, row', -, -, hrow', hread⟩
  · rw [hnone] at hrow
    cases hrow
  cases hrow.symm.trans hrow'
  rw [updateSlot]
  dsimp only
  rw [if_neg (by simp [hd]), hread, Prog.lift_ok_bind_apply]
  -- the condition, the new values and the new row, one after the other
  rcases hmatch : whereMatches pr row (columns.map (·.name)) with e' | isMatch
  · rw [hmatch, stuck_of_condition_error hmatch]
    exact iff_of_eq (Except.error.injEq _ _)
  rw [hmatch, Prog.lift_ok_bind_apply]
  cases isMatch with
  | false =>
    refine iff_of_false ?_ (not_stuck_of_no_match hmatch)
    rintro ⟨⟩
  | true =>
    simp only [Bool.not_true, Bool.false_eq_true, if_false]
    rcases hupd : rowFromUpdate row pr.statement.assignments pr (columns.map (·.name)) with
      e' | updated
    · rw [hupd, stuck_of_values_error hmatch hupd]
      exact iff_of_eq (Except.error.injEq _ _)
    have hnew : newRow pr columns row = some updated := newRow_eq_some.2 ⟨hmatch, hupd⟩
    have hlen : updated.length = columns.length :=
      (length_rowFromUpdate hupd).trans (length_readSlotRow hread)
    have hkey : ∀ e, (checkKey (pageArray limit) pr columns updated p k slot cs).1 = .error e ↔
        KeyTaken pr columns others updated ∧ e = .error .primaryKeyViolation := by
      intro e
      rw [← hothers]
      exact hw.checkKey_eq_error hlen
    rw [hupd, Prog.lift_ok_bind_apply, stuck_of_newRow hnew,
      (checkKey_readOnly updated p k slot).bind_eq_error, hkey]
    by_cases htaken : KeyTaken pr columns others updated
    · have hviolates := (hkey _).2 ⟨htaken, rfl⟩
      constructor
      · rintro (⟨-, rfl⟩ | ⟨u, hpass, -⟩)
        · exact .key htaken
        · rw [hviolates] at hpass
          cases hpass
      · intro hstuck
        cases hstuck with
        | key => exact .inl ⟨htaken, rfl⟩
        | text hfree | type hfree | long hfree | room hfree | count hfree =>
          exact absurd htaken hfree
    · rw [← hw.storeUpdated_eq_error hrow hlen htaken]
      constructor
      · rintro (⟨htaken', -⟩ | ⟨u, -, hfail⟩)
        · exact absurd htaken' htaken
        · exact hfail
      · intro hfail
        rcases hpass : (checkKey (pageArray limit) pr columns updated p k slot cs).1 with e' | ⟨⟩
        · exact absurd ((hkey e').1 hpass).1 htaken
        · exact .inr ⟨(), rfl, hfail⟩

end Slot

end MicroSql
