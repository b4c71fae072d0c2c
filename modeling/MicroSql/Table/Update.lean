import MicroSql.Executor.Simultaneous
import MicroSql.Table.Keys

/-!
# UPDATE on an array of pages

What UPDATE does to one slot, and from it what it does to the rows of the table.  The
encoder is assumed to produce only encodings that fit into slots.
-/

namespace MicroSql

open Lib

/-- The row that UPDATE leaves for a row, and whether it counts it. -/
def updateAction (pr : ParseResult) (columns : Schema) : RowAction := fun row => do
  let shouldUpdate ← whereMatches pr row (columns.map (·.name))
  if shouldUpdate then
    let updated ← rowFromUpdate row pr.statement.assignments pr (columns.map (·.name))
    return (true, some updated)
  else return (false, some row)

/-- What UPDATE makes of a row: it stays, or it is replaced by `rowFromUpdate`. -/
def UpdatesTo (pr : ParseResult) (names : List Str) (row row' : Row) : Prop :=
  (whereMatches pr row names = .ok false ∧ row' = row) ∨
    (whereMatches pr row names = .ok true ∧
      rowFromUpdate row pr.statement.assignments pr names = .ok row')

theorem updateAction_eq_ok {pr : ParseResult} {columns : Schema} {row : Row} {c : Bool}
    {o : Option Row} (h : updateAction pr columns row = .ok (c, o)) :
    ∃ row', o = some row' ∧ UpdatesTo pr (columns.map (·.name)) row row' ∧
      (c = true ↔ whereMatches pr row (columns.map (·.name)) = .ok true) := by
  unfold updateAction at h
  obtain ⟨b, hb, h⟩ := bind_eq_ok.1 h
  cases b with
  | false =>
    cases h
    exact ⟨row, rfl, .inl ⟨hb, rfl⟩, by simp [hb]⟩
  | true =>
    obtain ⟨updated, hupd, h⟩ := bind_eq_ok.1 h
    cases h
    exact ⟨updated, rfl, .inr ⟨hb, hupd⟩, by simp [hb]⟩

/-- UPDATE as a map over the rows, with the number of rows that matched. -/
theorem Rewrites.updatesTo {pr : ParseResult} {columns : Schema} {old new : List Row} {n : ℕ}
    (h : Rewrites (updateAction pr columns) old new n) :
    List.Forall₂ (UpdatesTo pr (columns.map (·.name))) old new ∧
      n = old.countP fun row => decide (whereMatches pr row (columns.map (·.name)) = .ok true) := by
  obtain ⟨outs, hmap, rfl, rfl⟩ := h
  rw [mapM_eq_ok] at hmap
  induction hmap with
  | nil => exact ⟨.nil, rfl⟩
  | @cons row out old outs hrow _ ih =>
    obtain ⟨c, o⟩ := out
    obtain ⟨row', rfl, hto, hc⟩ := updateAction_eq_ok hrow
    obtain ⟨hall, hcount⟩ := ih
    refine ⟨?_, ?_⟩
    · rw [List.map_cons, List.reduceOption_cons_of_some]
      exact .cons hto hall
    · rw [List.countP_cons, List.countP_cons, hcount]
      congr 1
      simp only [← hc]
      cases c <;> rfl

variable {limit : ℕ} {serialize : Row → Schema → Expected RowError (List UInt8)}
  {pr : ParseResult} {columns : Schema}

/-! ### The slot loop only reads the array -/

theorem checkKey_readOnly (updated : Row) (page : Page) (pageIndex slot : ℕ) :
    (checkKey (pageArray limit) pr columns updated page pageIndex slot).ReadOnly := by
  unfold checkKey
  cases primaryKeyIndex columns with
  | none => exact Prog.ReadOnly.pure _
  | some pk =>
    refine Prog.ReadOnly.ite (Prog.ReadOnly.bind (Prog.ReadOnly.lift _) fun key => ?_)
      (Prog.ReadOnly.pure _)
    exact Prog.ReadOnly.bind (primaryKeyExists_readOnly _ _ _ _ _ _ _) fun found =>
      Prog.ReadOnly.failIf _ _

theorem updateSlot_readOnly (limit : ℕ)
    (serialize : Row → Schema → Expected RowError (List UInt8)) (pr : ParseResult)
    (columns : Schema) (pageIndex : ℕ) (s : Page × ℕ) (slot : ℕ) :
    (updateSlot (pageArray limit) serialize pr columns pageIndex s slot).ReadOnly := by
  refine Prog.ReadOnly.ite (Prog.ReadOnly.pure _) ?_
  refine Prog.ReadOnly.bind (Prog.ReadOnly.lift _) fun row => ?_
  refine Prog.ReadOnly.bind (Prog.ReadOnly.lift _) fun shouldUpdate => ?_
  refine Prog.ReadOnly.ite (Prog.ReadOnly.pure _) ?_
  refine Prog.ReadOnly.bind (Prog.ReadOnly.lift _) fun updated => ?_
  refine Prog.ReadOnly.bind (checkKey_readOnly _ _ _ _) fun _ => ?_
  refine Prog.ReadOnly.bind (Prog.ReadOnly.lift _) fun rowBytes => ?_
  refine Prog.ReadOnly.bind (onPage_readOnly _ _) fun _ => ?_
  exact Prog.ReadOnly.bind (Prog.ReadOnly.lift _) fun _ => Prog.ReadOnly.pure _

/-! ### One slot -/

/-- UPDATE passes over a slot without a row. -/
theorem updateSlot_of_deleted {bs : List (Block pageSize)} {k count slot : ℕ} {p : Page}
    (hd : p.slotDeleted slot = true) :
    updateSlot (pageArray limit) serialize pr columns k (p, count) slot bs =
      (.ok (p, count), bs) := by
  rw [updateSlot]
  dsimp only
  rw [if_pos hd]
  rfl

/-- What it takes for UPDATE to get past a slot. -/
theorem updateSlot_eq_ok {bs : List (Block pageSize)} {k count slot : ℕ} {p p' : Page}
    {count' : ℕ}
    (h : (updateSlot (pageArray limit) serialize pr columns k (p, count) slot bs).1 =
      .ok (p', count')) :
    (p.slotDeleted slot = true ∧ p' = p ∧ count' = count) ∨
      ∃ row, readSlotRow p slot columns = .ok row ∧
        (whereMatches pr row (columns.map (·.name)) = .ok false ∧ p' = p ∧ count' = count ∨
          whereMatches pr row (columns.map (·.name)) = .ok true ∧ ∃ updated bytes off,
            rowFromUpdate row pr.statement.assignments pr (columns.map (·.name)) = .ok updated ∧
            checkKey (pageArray limit) pr columns updated p k slot bs = (.ok (), bs) ∧
            serialize updated columns = .ok bytes ∧
            Page.updateRow slot bytes (bytes.length % 65536) p = (.ok off, p') ∧
            count + 1 < 2 ^ 31 ∧ count' = count + 1) := by
  have hrun := (updateSlot_readOnly limit serialize pr columns k (p, count) slot).eq bs
  rw [h, updateSlot] at hrun
  by_cases hd : p.slotDeleted slot = true
  · simp only [if_pos hd, Prog.pure_apply] at hrun
    cases hrun
    exact .inl ⟨hd, rfl, rfl⟩
  simp only [if_neg hd] at hrun
  obtain ⟨row, hrow, hrun⟩ := Prog.lift_bind_eq_ok.1 hrun
  obtain ⟨shouldUpdate, hmatch, hrun⟩ := Prog.lift_bind_eq_ok.1 hrun
  refine .inr ⟨row, hrow, ?_⟩
  cases shouldUpdate with
  | false =>
    cases hrun
    exact .inl ⟨hmatch, rfl, rfl⟩
  | true =>
    -- the steps of the body one by one, each of which has returned
    obtain ⟨updated, hupd, hrun⟩ := Prog.lift_bind_eq_ok.1 hrun
    obtain ⟨⟨⟩, hkey, hrun⟩ := (checkKey_readOnly _ _ _ _).bind_eq_ok.1 hrun
    obtain ⟨bytes, hbytes, hrun⟩ := Prog.lift_bind_eq_ok.1 hrun
    obtain ⟨⟨off, q⟩, hpage, hrun⟩ := (onPage_readOnly _ _).bind_eq_ok.1 hrun
    obtain ⟨next, hnext, hrun⟩ := Prog.lift_bind_eq_ok.1 hrun
    cases hrun
    rw [onPage_apply] at hpage
    obtain ⟨a, ha, hq⟩ := map_eq_ok.1 (mapError_eq_ok.1 (Prod.mk.inj hpage).1)
    cases hq
    refine .inr ⟨hmatch, updated, bytes, off, hupd, hkey, mapError_eq_ok.1 hbytes, ?_,
      increment_eq_ok.1 hnext⟩
    exact Prod.ext ha rfl

theorem updateSlot_keepsPages :
    KeepsPages (updateSlot (pageArray limit) serialize pr columns) := by
  intro bs k p count slot p' count' hp hid h
  rcases updateSlot_eq_ok h with ⟨-, rfl, -⟩ | ⟨row, -, ⟨-, rfl, -⟩ | ⟨-, updated, bytes, off, -, -,
    -, hpage, -⟩⟩
  · exact ⟨hp, hid⟩
  · exact ⟨hp, hid⟩
  · obtain ⟨-, hid', hp', -⟩ := Page.updateRow_eq_ok hp (Nat.mod_le _ _) hpage
    exact ⟨hp', hid'.trans hid⟩

theorem updateSlot_countsInInt :
    CountsInInt (updateSlot (pageArray limit) serialize pr columns) := by
  intro bs k p count slot p' count' h hcount
  rcases updateSlot_eq_ok h with ⟨-, -, rfl⟩ | ⟨row, -, ⟨-, -, rfl⟩ | ⟨-, updated, bytes, off, -, -,
    -, -, hlt, rfl⟩⟩
  · exact hcount
  · exact hcount
  · exact hlt

/-! ### The new row -/

/-- An UPDATE that does not assign the primary key keeps it. -/
theorem rowFromUpdate_key {row updated : Row} {pk : ℕ} {c : ColumnDefinition}
    (hc : columns[pk]? = some c) (hpk : pkAssigned pr columns pk = false)
    (h : rowFromUpdate row pr.statement.assignments pr (columns.map (·.name)) = .ok updated) :
    updated[pk]? = row[pk]? := by
  refine foldlM_assign_getElem? (fun a ha hidx => ?_) h
  have hname : (columns.map (·.name))[pk]? = some a.1 := by
    obtain ⟨hlt, heq, -⟩ := List.idxOf?_eq_some_iff.1 hidx
    rw [List.getElem?_eq_getElem hlt, heq]
  rw [List.getElem?_map, hc] at hname
  have := List.any_eq_false.1 hpk a ha
  rw [hc] at this
  exact this (by simpa using hname)

theorem length_rowFromUpdate {row updated : Row} {names : List Str}
    {assignments : List (Str × ℤ)} (h : rowFromUpdate row assignments pr names = .ok updated) :
    updated.length = row.length := by
  suffices hfold : ∀ (start : Row), assignments.foldlM (assign pr row names) start = .ok updated →
      updated.length = start.length from hfold row h
  clear h
  induction assignments with
  | nil =>
    rintro start ⟨⟩
    rfl
  | cons a assignments ih =>
    intro start h
    rw [List.foldlM_cons] at h
    obtain ⟨next, hnext, h⟩ := bind_eq_ok.1 h
    obtain ⟨i, v, -, -, -, rfl⟩ := assign_eq_ok hnext
    rw [ih _ h, List.length_set]

theorem length_readSlotRow {p : Page} {slot : ℕ} {row : Row}
    (h : readSlotRow p slot columns = .ok row) : row.length = columns.length := by
  obtain ⟨⟨rowData, n⟩, -, h⟩ := bind_eq_ok.1 h
  exact length_decodeFields (mapError_eq_ok.1 h)

/-- The primary key of the new row is not that of any other row, if the statement assigns
primary keys. -/
theorem checkKey_eq_ok {bs : List (Block pageSize)} (h : TablePages bs)
    (hgood : GoodPages columns bs) {k slot : ℕ} (hk : 1 ≤ k) (hkn : k < bs.length) {p : Page}
    (hp : p.Good columns) (hslot : slot < p.numSlots) {updated : Row} {bytes : List UInt8}
    (henc : Encodes columns bytes updated)
    (hkey : checkKey (pageArray limit) pr columns updated p k slot bs = (.ok (), bs))
    {pk : ℕ} (hpk : primaryKeyIndex columns = some pk) (hass : pkAssigned pr columns pk = true) :
    ∀ r ∈ liveRows columns (bs.take k) ++ ((p.rows columns).set slot none).reduceOption ++
      liveRows columns (bs.drop (k + 1)), ¬SameKey pk r updated := by
  have hlt := primaryKeyIndex_lt hpk
  have hup : updated[pk]? = some (updated.get ⟨pk, henc.length_eq ▸ hlt⟩) :=
    List.getElem?_eq_getElem _
  rw [checkKey, hpk] at hkey
  dsimp only at hkey
  rw [if_pos hass] at hkey
  obtain ⟨key, hat, hkey⟩ := Prog.lift_bind_eq_ok.1 hkey
  rw [Row.at, hup] at hat
  cases hat
  rw [Prog.bind_ok (primaryKeyExists_some hlt h hgood hk hkn hp hslot)] at hkey
  rintro r hr ⟨v, hv, hholds⟩
  obtain rfl := Option.some.inj (hup.symm.trans hv)
  rw [List.any_eq_true.2 ⟨r, hr, hholds⟩, Prog.failIf_pos rfl] at hkey
  cases hkey

/-! ### The rows -/

/-- UPDATE acts on the row of a slot, and keeps the primary keys distinct. -/
theorem updateSlot_actsOnRow (hser : FitsSlots serialize) :
    ActsOnRow (updateSlot (pageArray limit) serialize pr columns) columns
      (updateAction pr columns) (KeysDistinct columns) := by
  intro bs k p count slot p' count' h hgood hk hkn hp hid hslot hK hbody
  rcases updateSlot_eq_ok hbody with ⟨hd, rfl, rfl⟩ | ⟨row, hread, hcase⟩
  · exact ⟨hid, hp, hK, .inl ⟨hp.row_of_deleted hslot hd, rfl, rfl⟩⟩
  · obtain ⟨-, hrow⟩ := hp.row_of_read hslot hread
    obtain ⟨hlen, hget⟩ := List.getElem?_eq_some_iff.1 hrow
    have hsame : (p.rows columns).set slot (some row) = p.rows columns := by
      rw [← hget, List.set_getElem_self]
    rcases hcase with ⟨hmatch, rfl, rfl⟩ | ⟨hmatch, updated, bytes, off, hupd, hkey, hbytes,
      hpage, -, rfl⟩
    · refine ⟨hid, hp, hK, .inr ⟨row, false, some row, hrow, ?_, hsame.symm, rfl⟩⟩
      rw [updateAction, hmatch]
      rfl
    · have henc := hser _ _ _ hbytes
      rw [Nat.mod_eq_of_lt henc.length_lt] at hpage
      obtain ⟨hid', hp', hrows⟩ := hp.updateRow_eq henc hpage
      refine ⟨hid'.trans hid, hp', ?_, .inr ⟨row, true, some updated, hrow, ?_, hrows, rfl⟩⟩
      swap
      · rw [updateAction, hmatch, ok_bind, if_pos rfl, hupd]
        rfl
      rw [rowsWith_set hslot hrows, Option.toList_some, List.append_assoc, List.singleton_append]
      rw [rowsWith_split hslot hrow] at hK
      obtain ⟨hothers, hne⟩ := hK.others
      refine hothers.insert fun pk hpk r hr => ?_
      by_cases hass : pkAssigned pr columns pk = true
      · refine checkKey_eq_ok h hgood hk hkn hp hslot henc hkey hpk hass r ?_
        rw [reduceOption_set hlen]
        simpa only [Option.toList_none, List.append_nil, List.append_assoc] using hr
      · have hc := List.getElem?_eq_getElem (primaryKeyIndex_lt hpk)
        rw [SameKey, rowFromUpdate_key hc (by simpa using hass) hupd]
        exact hne pk hpk r hr

/-- **UPDATE on an array of pages** maps `updateAction` over the rows and keeps the
primary keys distinct, on all pages or, when it fails, on those before the failure. -/
theorem updateRows_rows (hser : FitsSlots serialize) {bs : List (Block pageSize)}
    (h : TablePages bs) (hgood : GoodPages columns bs)
    (hkeys : KeysDistinct columns (liveRows columns bs)) :
    Prog.Spec (fun cs => cs = bs) (updateRows (pageArray limit) serialize pr columns)
      (fun n cs => PagesDone columns (updateAction pr columns) (KeysDistinct columns) bs bs.length
        n cs)
      (fun _ cs => ∃ k n, 1 ≤ k ∧ k < bs.length ∧
        PagesDone columns (updateAction pr columns) (KeysDistinct columns) bs k n cs) :=
  rewritePages_rows (updateSlot_readOnly limit serialize pr columns) updateSlot_keepsPages
    (updateSlot_actsOnRow hser) h hgood hkeys

end MicroSql
