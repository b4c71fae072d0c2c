import MicroSql.Table.Stops

/-!
# How an UPDATE ends

For a statement whose condition and new values can be evaluated on every row, and whose new rows
can be encoded, two ways to fail are left as long as the rows can be counted, and both are read off
the table as it was before the statement.  It finds room exactly if on every page what the new rows
take of the free space is there; it fails with a duplicate key exactly if some new key is among
those of the new rows before and of the old rows after (`KeyClash`).
-/

namespace MicroSql

open Lib

/-- The condition has a value on the row.  If it holds, the new row can be computed, its values
suit their columns, and it takes at most 4076 bytes. -/
inductive Legal (pr : ParseResult) (columns : Schema) (row : Row) : Prop
  | kept (hmatch : whereMatches pr row (columns.map (·.name)) = .ok false)
  | new {updated : Row} (hmatch : whereMatches pr row (columns.map (·.name)) = .ok true)
      (hupd : rowFromUpdate row pr.statement.assignments pr (columns.map (·.name)) = .ok updated)
      (hsuits : updated.Suits columns)
      (hsize : ∀ bytes, serializeRow updated columns = .ok bytes → bytes.length ≤ 4076)

variable {limit : ℕ} {pr : ParseResult} {columns : Schema} {bs cs : List (Block pageSize)}
  {k slot : ℕ} {b : Block pageSize} {row updated : Row} {s : Page × ℕ} {e : Failure ExecError}

theorem Legal.suits (hlegal : Legal pr columns row) (hnew : newRow pr columns row = some updated) :
    updated.Suits columns := by
  obtain ⟨hmatch, hupd⟩ := newRow_eq_some.1 hnew
  cases hlegal with
  | kept hmatch' =>
    rw [hmatch] at hmatch'
    cases hmatch'
  | new _ hupd' hsuits =>
    cases hupd.symm.trans hupd'
    exact hsuits

theorem Legal.length_le (hlegal : Legal pr columns row)
    (hnew : newRow pr columns row = some updated) {bytes : List UInt8}
    (hbytes : serializeRow updated columns = .ok bytes) : bytes.length ≤ 4076 := by
  obtain ⟨hmatch, hupd⟩ := newRow_eq_some.1 hnew
  cases hlegal with
  | kept hmatch' => cases hmatch.symm.trans hmatch'
  | new _ hupd' _ hsize =>
    cases hupd.symm.trans hupd'
    exact hsize bytes hbytes

/-- The ways to get stuck that are left: a key that is taken, no room, and too large a count. -/
theorem Legal.stuck_cases (hlegal : Legal pr columns row) {others : List Row} {free len count : ℕ}
    (hstuck : Stuck pr columns others free len count row e) :
    ∃ updated bytes, newRow pr columns row = some updated ∧
      serializeRow updated columns = .ok bytes ∧
      (KeyTaken pr columns others updated ∧ e = .error .primaryKeyViolation ∨
        ¬KeyTaken pr columns others updated ∧ (len < bytes.length ∧ free < bytes.length ∨
          2 ^ 31 ≤ count + 1) ∧ e ≠ .fault .assertion) := by
  cases hstuck with
  | condition hmatch =>
    cases hlegal with
    | kept hmatch' => cases hmatch.symm.trans hmatch'
    | new hmatch' => cases hmatch.symm.trans hmatch'
  | values hmatch hupd =>
    cases hlegal with
    | kept hmatch' => cases hmatch.symm.trans hmatch'
    | new _ hupd' => cases hupd.symm.trans hupd'
  | @new updated _ hnew hstuck =>
    have hsuits := hlegal.suits hnew
    obtain ⟨bytes, hbytes⟩ := hsuits.serializeRow
    refine ⟨updated, bytes, hnew, hbytes, ?_⟩
    cases hstuck with
    | key htaken => exact .inl ⟨htaken, rfl⟩
    | text _ hstop => exact absurd hstop hsuits.not_stopsAtText
    | type _ _ htyped => exact absurd (hsuits.imp fun _ _ => Value.Suits.typed) htyped
    | long _ hbytes' hlong =>
      cases hbytes.symm.trans hbytes'
      have hsize := hlegal.length_le hnew hbytes
      omega
    | room hfree hbytes' _ hgrow hroom =>
      cases hbytes.symm.trans hbytes'
      exact .inr ⟨hfree, .inl ⟨hgrow, hroom⟩, by rintro ⟨⟩⟩
    | count hfree _ _ _ hcount => exact .inr ⟨hfree, .inr hcount, by rintro ⟨⟩⟩

/-! ### Room -/

/-- Every page has room for what UPDATE takes of its free space. -/
def HasGrowthRoom (pr : ParseResult) (columns : Schema) (bs : List (Block pageSize)) : Prop :=
  ∀ b ∈ bs, pageGrowth pr columns (blockPage b) ≤ (blockPage b).freeSpace

theorem sum_range_le (f : ℕ → ℕ) {m n : ℕ} (h : m ≤ n) :
    ((List.range m).map f).sum ≤ ((List.range n).map f).sum := by
  obtain ⟨d, rfl⟩ := Nat.exists_eq_add_of_le h
  rw [List.range_add, List.map_append, List.sum_append]
  exact Nat.le_add_right _ _

/-- If the pages have room, no new row is too long when the loop comes to its slot. -/
theorem HasGrowthRoom.le_freeAt (hroom : HasGrowthRoom pr columns bs) (hb : bs[k]? = some b)
    (hrow : ((⟨b, k⟩ : Page).rows columns)[slot]? = some (some row))
    (hnew : newRow pr columns row = some updated) {bytes : List UInt8}
    (hbytes : serializeRow updated columns = .ok bytes)
    (hgrow : Page.slotLength ⟨b, k⟩ slot < bytes.length) :
    bytes.length ≤ freeAt pr columns ⟨b, k⟩ slot := by
  have hslot : slot < Page.numSlots ⟨b, k⟩ := by
    rw [← Page.length_rows columns]
    exact (List.getElem?_eq_some_iff.1 hrow).1
  have htotal : pageGrowth pr columns ⟨b, k⟩ ≤ Page.freeSpace ⟨b, k⟩ :=
    hroom b (List.mem_of_getElem? hb)
  have hupto := sum_range_le (growth pr columns ⟨b, k⟩) (Nat.succ_le_of_lt hslot)
  have hgrowth : growth pr columns ⟨b, k⟩ slot = bytes.length := by
    rw [growth_of_bytes hrow (newBytes_eq_some hnew hbytes), if_pos hgrow]
  rw [List.range_succ, List.map_append, List.sum_append, List.map_singleton, List.sum_singleton,
    hgrowth] at hupto
  rw [pageGrowth] at htotal
  rw [freeAt]
  omega

/-- With room, and not too many rows to count, only the key of the new row is in the way. -/
theorem HasGrowthRoom.key_of_stuckAt (hroom : HasGrowthRoom pr columns bs)
    (hlegal : ∀ row ∈ liveRows columns bs, Legal pr columns row)
    (hcount : ((liveRows columns bs).countP fun row =>
      decide (whereMatches pr row (columns.map (·.name)) = .ok true)) < 2 ^ 31)
    (hf : StuckAt pr columns bs k slot e) :
    ∃ b row updated, bs[k]? = some b ∧
      ((⟨b, k⟩ : Page).rows columns)[slot]? = some (some row) ∧
      newRow pr columns row = some updated ∧ updated.Suits columns ∧
      KeyTaken pr columns (othersAt pr columns bs k b slot) updated ∧
      e = .error .primaryKeyViolation := by
  obtain ⟨b, row, hb, hrow, hstuck⟩ := hf
  have hmem : row ∈ liveRows columns bs := by
    rw [liveRows_at_slot hb hrow]
    simp
  obtain ⟨updated, bytes, hnew, hbytes, hcase⟩ := (hlegal row hmem).stuck_cases hstuck
  rcases hcase with ⟨htaken, rfl⟩ | ⟨-, ⟨hgrow, hfull⟩ | hmany, -⟩
  · exact ⟨b, row, updated, hb, hrow, hnew, (hlegal row hmem).suits hnew, htaken, rfl⟩
  · have hle := hroom.le_freeAt hb hrow hnew hbytes hgrow
    omega
  · have hlt := countAt_lt hb hrow (newRow_eq_some.1 hnew).1
    omega

section Run

variable (h : TablePages bs) (hgood : GoodPages columns bs)
  (hkeys : KeysDistinct columns (liveRows columns bs))

include h hgood hkeys

/-- A statement that returns has found room. -/
theorem hasGrowthRoom_of_ok {n : ℕ}
    (hok : (updateRows (pageArray limit) serializeWithin pr columns bs).1 = .ok n) :
    HasGrowthRoom pr columns bs := by
  intro b hb
  obtain ⟨k, hk⟩ := List.mem_iff_getElem?.1 hb
  rcases Nat.eq_zero_or_pos k with rfl | hpos
  · rw [h.reserved] at hk
    cases hk
    have hzero : (blockPage (Page.init 0).data).numSlots = 0 := by decide +kernel
    rw [pageGrowth, hzero]
    exact Nat.zero_le _
  · have hread := updateSlot_readOnly limit serializeWithin pr columns
    have hrule : Prog.Spec _ (updateRows (pageArray limit) serializeWithin pr columns) _ _ :=
      rewritePages_passed hread updateSlot_keepsPages h
    obtain ⟨-, -, hall⟩ := hrule.ok rfl (Prod.ext hok rfl)
    obtain ⟨cs, count, b', s, hp, hb', hloop⟩ :=
      hall.exists_page hpos (List.getElem?_eq_some_iff.1 hk).1
    obtain rfl : b' = b := Option.some.inj (hb'.symm.trans (hp.getElem?_eq.trans hk))
    obtain ⟨hcs, hI⟩ := hp.pagesDone hread (updateSlot_actsOnRow fitsSlots_serializeWithin) h hgood
      hkeys
    have hleft := roomLeft_of_slots hcs hI.good hI.keeps hpos hb' (le_refl _) hloop
    have hspace : _ = Page.freeSpace ⟨b', k⟩ := hleft.space
    change pageGrowth pr columns ⟨b', k⟩ ≤ Page.freeSpace ⟨b', k⟩
    rw [pageGrowth]
    omega

/-- A statement that returns has counted the rows that match, in an `int`. -/
theorem count_of_updateRows_ok {n : ℕ}
    (hok : (updateRows (pageArray limit) serializeWithin pr columns bs).1 = .ok n) :
    n = ((liveRows columns bs).countP fun row =>
      decide (whereMatches pr row (columns.map (·.name)) = .ok true)) ∧ n < 2 ^ 31 := by
  have hrule : Prog.Spec _ (updateRows (pageArray limit) serializeWithin pr columns) _ _ :=
    updateRows_rows fitsSlots_serializeWithin h hgood hkeys
  have hdone := hrule.ok rfl (Prod.ext hok rfl)
  exact ⟨hdone.rewrites.updatesTo.2, rewritePages_count_lt
    (updateSlot_readOnly limit serializeWithin pr columns) updateSlot_keepsPages
    updateSlot_countsInInt h hok⟩

/-- **Room is all that such an UPDATE needs**, if it does not assign the primary key: it returns if
and only if every page has the free space that its new rows take, and the `int` of its counter has
room for the rows that match. -/
theorem updateRows_ok_iff (hlegal : ∀ row ∈ liveRows columns bs, Legal pr columns row)
    (hkey : ∀ pk, primaryKeyIndex columns = some pk → pkAssigned pr columns pk = false) :
    (∃ n, (updateRows (pageArray limit) serializeWithin pr columns bs).1 = .ok n) ↔
      HasGrowthRoom pr columns bs ∧ ((liveRows columns bs).countP fun row =>
        decide (whereMatches pr row (columns.map (·.name)) = .ok true)) < 2 ^ 31 := by
  constructor
  · rintro ⟨n, hok⟩
    obtain ⟨hn, hlt⟩ := count_of_updateRows_ok h hgood hkeys hok
    exact ⟨hasGrowthRoom_of_ok h hgood hkeys hok, hn ▸ hlt⟩
  · rintro ⟨hroom, hcount⟩
    rcases hrun : (updateRows (pageArray limit) serializeWithin pr columns bs).1 with e | n
    swap
    · exact ⟨n, rfl⟩
    obtain ⟨k, slot, hf, -⟩ := (updateRows_eq_error h hgood hkeys).1 hrun
    obtain ⟨-, -, -, -, -, -, -, ⟨pk, -, hpk, hass, -⟩, -⟩ :=
      hroom.key_of_stuckAt hlegal hcount hf
    rw [hkey pk hpk] at hass
    cases hass

end Run

/-! ### Keys -/

/-- Some new row has the primary key of a row before it, as that is after the statement, or of a
row after it, as that was. -/
def KeyClash (pr : ParseResult) (columns : Schema) (pk : ℕ) (rows : List Row) : Prop :=
  ∃ before row after updated, rows = before ++ row :: after ∧
    newRow pr columns row = some updated ∧
    ∃ r ∈ before.map (afterUpdate pr columns) ++ after, r[pk]? = updated[pk]?

/-- The other rows in which a key is looked for. -/
theorem keyTaken_iff {pk : ℕ} {c : ColumnDefinition} (hpk : primaryKeyIndex columns = some pk)
    (hass : pkAssigned pr columns pk = true) (hc : columns[pk]? = some c) (ht : c.type ≠ .float)
    (hsuits : updated.Suits columns) {others : List Row} :
    KeyTaken pr columns others updated ↔ ∃ r ∈ others, r[pk]? = updated[pk]? := by
  have hlt := primaryKeyIndex_lt hpk
  have hup : updated[pk]? = some (updated.get ⟨pk, hsuits.length_eq ▸ hlt⟩) :=
    List.getElem?_eq_getElem _
  generalize updated.get ⟨pk, hsuits.length_eq ▸ hlt⟩ = v at hup
  have hv : ∀ d, v ≠ .float d := by
    rintro d rfl
    exact ht (forall₂_getElem? hsuits hup hc)
  rw [hup]
  constructor
  · rintro ⟨pk', v', hpk', -, hup', hany⟩
    cases hpk.symm.trans hpk'
    cases hup.symm.trans hup'
    obtain ⟨r, hr, hholds⟩ := List.any_eq_true.1 hany
    exact ⟨r, hr, (holdsKey_iff hv).1 hholds⟩
  · rintro ⟨r, hr, heq⟩
    exact ⟨pk, v, hpk, hass, hup, List.any_eq_true.2 ⟨r, hr, (holdsKey_iff hv).2 heq⟩⟩

/-- **The key check of UPDATE goes by the rows as they are then**: with room for all new rows, the
statement fails with a duplicate key exactly if there is a clash. -/
theorem updateRows_keyViolation_iff (h : TablePages bs) (hgood : GoodPages columns bs)
    (hkeys : KeysDistinct columns (liveRows columns bs))
    (hlegal : ∀ row ∈ liveRows columns bs, Legal pr columns row)
    (hcount : ((liveRows columns bs).countP fun row =>
      decide (whereMatches pr row (columns.map (·.name)) = .ok true)) < 2 ^ 31)
    (hroom : HasGrowthRoom pr columns bs) {pk : ℕ} {c : ColumnDefinition}
    (hpk : primaryKeyIndex columns = some pk) (hass : pkAssigned pr columns pk = true)
    (hc : columns[pk]? = some c) (ht : c.type ≠ .float) :
    (updateRows (pageArray limit) serializeWithin pr columns bs).1 =
        .error (.error .primaryKeyViolation) ↔
      KeyClash pr columns pk (liveRows columns bs) := by
  constructor
  · intro hrun
    obtain ⟨k, slot, hf, -⟩ := (updateRows_eq_error h hgood hkeys).1 hrun
    obtain ⟨b, row, updated, hb, hrow, hnew, hsuits, htaken, -⟩ :=
      hroom.key_of_stuckAt hlegal hcount hf
    exact ⟨_, row, _, updated, liveRows_at_slot hb hrow, hnew,
      (keyTaken_iff hpk hass hc ht hsuits).1 htaken⟩
  · rintro ⟨before, row, after, updated, hrows, hnew, hclash⟩
    have hsuits := (hlegal row (by simp [hrows])).suits hnew
    obtain ⟨k, b, slot, hk, hb, hrow, rfl, rfl⟩ := exists_slot_of_liveRows h hrows
    have hf : StuckAt pr columns bs k slot (.error .primaryKeyViolation) :=
      ⟨b, row, hb, hrow, .new hnew (.key ((keyTaken_iff hpk hass hc ht hsuits).2 hclash))⟩
    rcases hrun : (updateRows (pageArray limit) serializeWithin pr columns bs).1 with e | n
    · obtain ⟨k', slot', hf', -⟩ := (updateRows_eq_error h hgood hkeys).1 hrun
      obtain ⟨-, -, -, -, -, -, -, -, rfl⟩ := hroom.key_of_stuckAt hlegal hcount hf'
      rfl
    · exact absurd hf (not_stuckAt_of_ok h hgood hkeys hrun)

/-- A matching row gets the primary key that a matching row after it had. -/
def Overtakes (pr : ParseResult) (columns : Schema) (pk : ℕ) (rows : List Row) : Prop :=
  ∃ row later updated, [row, later].Sublist rows ∧ newRow pr columns row = some updated ∧
    (newRow pr columns later).isSome ∧ updated[pk]? = later[pk]?

/-- What a clash is for the statement as a whole: two rows with one key afterwards, or a row that
takes the key of a later one. -/
theorem keyClash_iff {pk : ℕ} {rows : List Row} (hnodup : (rows.map (·[pk]?)).Nodup) :
    KeyClash pr columns pk rows ↔
      ¬(rows.map fun row => (afterUpdate pr columns row)[pk]?).Nodup ∨
        Overtakes pr columns pk rows := by
  have hafter : ∀ {row updated}, newRow pr columns row = some updated →
      afterUpdate pr columns row = updated := by
    intro row updated hnew
    rw [afterUpdate, hnew, Option.getD_some]
  have hkept : ∀ {row}, newRow pr columns row = none → afterUpdate pr columns row = row := by
    intro row hnone
    rw [afterUpdate, hnone, Option.getD_none]
  rw [not_nodup_map_iff]
  constructor
  · rintro ⟨before, row, after, updated, hrows, hnew, r, hr, hkey⟩
    rcases List.mem_append.1 hr with hr | hr
    · obtain ⟨r₀, hr₀, rfl⟩ := List.mem_map.1 hr
      refine .inl ⟨r₀, row, pair_sublist_iff_left.2 ⟨before, after, hrows, hr₀⟩, ?_⟩
      rw [hafter hnew, hkey]
    · have hpair : [row, r].Sublist rows := pair_sublist_iff_right.2 ⟨before, after, hrows, hr⟩
      cases hlater : newRow pr columns r with
      | none => exact .inl ⟨row, r, hpair, by rw [hafter hnew, hkept hlater, hkey]⟩
      | some updated' => exact .inr ⟨row, r, updated, hpair, hnew, by simp [hlater], hkey.symm⟩
  · rintro (⟨a, b, hpair, hkey⟩ | ⟨row, later, updated, hpair, hnew, -, hkey⟩)
    · cases hb : newRow pr columns b with
      | some updated =>
        obtain ⟨before, after, hrows, ha⟩ := pair_sublist_iff_left.1 hpair
        refine ⟨before, b, after, updated, hrows, hb, afterUpdate pr columns a, ?_, ?_⟩
        · exact List.mem_append_left _ (List.mem_map_of_mem ha)
        · rw [hkey, hafter hb]
      | none =>
        cases ha : newRow pr columns a with
        | some updated =>
          obtain ⟨before, after, hrows, hb'⟩ := pair_sublist_iff_right.1 hpair
          refine ⟨before, a, after, updated, hrows, ha, b, List.mem_append_right _ hb', ?_⟩
          rw [← hafter ha, hkey, hkept hb]
        | none =>
          -- two rows that stay have different keys
          rw [hkept ha, hkept hb] at hkey
          exact absurd hnodup (not_nodup_map_iff.2 ⟨a, b, hpair, hkey⟩)
    · obtain ⟨before, after, hrows, hlater⟩ := pair_sublist_iff_right.1 hpair
      exact ⟨before, row, after, updated, hrows, hnew, later, List.mem_append_right _ hlater,
        hkey.symm⟩

end MicroSql
