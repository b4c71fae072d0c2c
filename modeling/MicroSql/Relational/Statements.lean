import MicroSql.Relational.Database
import MicroSql.Table.Rejects
import MicroSql.Table.Sweeps

/-!
# Statements on pages answer as commands on relations

A stored table holds a relation: its live rows.  On good pages every statement answers as the
command for which it stands, if the rows that it encodes take at most 65535 bytes.  DELETE and
UPDATE are sweeps over the rows, and their visits are those of the database.
-/

namespace MicroSql

open Lib Engine

variable {limit : ℕ} {pr : ParseResult} {columns : Schema} {bs : List (Block pageSize)}

/-- The relation that a table holds. -/
def StoredTable.relation (t : StoredTable) : Relation :=
  ⟨t.schema.columns, liveRows t.schema.columns t.pages⟩

/-! ### Rows that are too long -/

/-- No row of these columns takes more than 65535 bytes. -/
def ShortRows (columns : Schema) : Prop :=
  ∀ row bytes, serializeRow row columns = .ok bytes → bytes.length < 65536

/-- A bound on the columns is enough. -/
theorem shortRows_of_rowLimit (h : rowLimit columns < 65536) : ShortRows columns := by
  intro row bytes hbytes
  exact (length_serializeRow_le hbytes).trans_lt h

theorem ShortRows.serializeWithin_eq (h : ShortRows columns) (row : Row) :
    serializeWithin row columns = serializeRow row columns := by
  rw [serializeWithin]
  rcases hrow : serializeRow row columns with e | bytes
  · rfl
  · rw [ok_bind, if_pos (h row bytes hrow)]
    rfl

section Congr

variable {σ : Type} {file : PageFile σ}
  {serialize serialize' : Row → Schema → Expected RowError (List UInt8)}

/-- Of the encoder only its values on the columns of the table matter. -/
theorem insertRow_serialize_congr (h : ∀ row, serialize row columns = serialize' row columns) :
    insertRow file serialize pr columns = insertRow file serialize' pr columns := by
  unfold insertRow
  simp only [h]

theorem updateRows_serialize_congr (h : ∀ row, serialize row columns = serialize' row columns) :
    updateRows file serialize pr columns = updateRows file serialize' pr columns := by
  unfold updateRows
  refine congrArg (rewritePages file) ?_
  funext pageIndex s slot
  unfold updateSlot
  simp only [h]

end Congr

/-- The statement encodes no row of more than 65535 bytes, or there is none. -/
theorem insertRow_within {file : PageFile (List (Block pageSize))}
    (h : (insertRow file serializeWithin pr columns bs).1 = .error tooLong → ShortRows columns) :
    insertRow file serializeWithin pr columns bs = insertRow file serializeRow pr columns bs := by
  by_cases hlong : (insertRow file serializeWithin pr columns bs).1 = .error tooLong
  · exact congrFun (insertRow_serialize_congr (h hlong).serializeWithin_eq) bs
  · exact (insertRow_guards file pr columns).eq hlong

theorem updateRows_within {file : PageFile (List (Block pageSize))}
    (h : (updateRows file serializeWithin pr columns bs).1 = .error tooLong → ShortRows columns) :
    updateRows file serializeWithin pr columns bs = updateRows file serializeRow pr columns bs := by
  by_cases hlong : (updateRows file serializeWithin pr columns bs).1 = .error tooLong
  · exact congrFun (updateRows_serialize_congr (h hlong).serializeWithin_eq) bs
  · exact (updateRows_guards file pr columns).eq hlong

/-! ### Checks -/

/-- The check of the database goes by the encoder, as long as the encoding is not too long. -/
theorem checkRow_of_ok {row : Row} {bytes : List UInt8}
    (h : serializeWithin row columns = .ok bytes) : checkRow row columns = .ok () := by
  obtain ⟨bs, hbs, -⟩ := bind_eq_ok.1 h
  rw [checkRow, hbs]
  rfl

theorem checkRow_of_error {row : Row} {e : Failure ExecError}
    (h : (serializeWithin row columns).mapError internal = .error e)
    (hlong : e = tooLong → ShortRows columns) : checkRow row columns = .error e := by
  have hsame : (serializeWithin row columns).mapError internal =
      (serializeRow row columns).mapError internal := by
    rcases serializeWithin_guards row columns with hsame | hbad
    · exact hsame
    · rw [h] at hbad
      rw [(hlong (Except.error.inj hbad)).serializeWithin_eq]
  rw [checkRow, ← hsame, h]
  rfl

theorem repeatsKey_eq_true {others : List Row} {row : Row} : repeatsKey columns others row = true ↔
    ∃ pk v, primaryKeyIndex columns = some pk ∧ row[pk]? = some v ∧
      others.any (holdsKey pk v) = true := by
  unfold repeatsKey
  cases primaryKeyIndex columns with
  | none => simp
  | some pk =>
    cases hv : row[pk]? with
    | none => simp [hv]
    | some v => simp [hv]

theorem repeatsKey_eq {others : List Row} {row : Row} {pk : ℕ} {v : Value}
    (hpk : primaryKeyIndex columns = some pk) (hv : row[pk]? = some v) :
    repeatsKey columns others row = others.any (holdsKey pk v) := by
  rw [repeatsKey, hpk]
  dsimp only
  rw [hv]

/-- The primary key check of INSERT. -/
theorem checkNewKey_apply (h : TablePages bs) (hgood : GoodPages columns bs) {row : Row}
    (hlen : row.length = columns.length) :
    checkNewKey (pageArray limit) columns row bs =
      (if repeatsKey columns (liveRows columns bs) row then .error (.error .primaryKeyViolation)
        else .ok (), bs) := by
  rw [checkNewKey]
  cases hpk : primaryKeyIndex columns with
  | none =>
    rw [repeatsKey, hpk]
    rfl
  | some pk =>
    have hlt := primaryKeyIndex_lt hpk
    have hrow : row[pk]? = some (row.get ⟨pk, hlen ▸ hlt⟩) := List.getElem?_eq_getElem _
    generalize row.get ⟨pk, hlen ▸ hlt⟩ = v at hrow
    dsimp only
    rw [repeatsKey_eq hpk hrow, Row.at, hrow, Prog.lift_ok_bind_apply,
      Prog.bind_ok (primaryKeyExists_none hlt h hgood), Prog.failIf_apply]

/-- The primary key check of UPDATE, on the rows around that of the slot. -/
theorem keyTaken_iff_repeatsKey {assignments : List (Str × Tree)} {others : List Row}
    {updated : Row}
    (hassigns : List.Forall₂ pr.Assigns pr.statement.assignments assignments) :
    KeyTaken pr columns others updated ↔
      (assignsKey columns assignments && repeatsKey columns others updated) = true := by
  have hnames : pr.statement.assignments.map (·.1) = assignments.map (·.1) := by
    generalize pr.statement.assignments = as at hassigns
    induction hassigns with
    | nil => rfl
    | cons hab _ ih => rw [List.map_cons, List.map_cons, hab.1, ih]
  have hpk : ∀ pk, pkAssigned pr columns pk =
      assignments.any fun a => (columns[pk]?.map (·.name)) == some a.1 := by
    intro pk
    have hany := congrArg
      (fun names : List Str => names.any fun n => (columns[pk]?.map (·.name)) == some n) hnames
    rw [List.any_map, List.any_map] at hany
    exact hany
  rw [Bool.and_eq_true, repeatsKey_eq_true, assignsKey, KeyTaken]
  constructor
  · rintro ⟨pk, v, hindex, hass, hv, hany⟩
    rw [hindex]
    exact ⟨(hpk pk).symm.trans hass, pk, v, rfl, hv, hany⟩
  · rintro ⟨hass, pk, v, hindex, hv, hany⟩
    rw [hindex] at hass
    exact ⟨pk, v, hindex, (hpk pk).trans hass, hv, hany⟩

/-! ### INSERT -/

theorem insertRow_answers {table : Str} {names : List Str} {values : List Tree}
    (hrow : rowFromInsertValues pr columns = insertedRow names values columns)
    (hnames : pr.statement.insertColumnNames = names) (h : TablePages bs)
    (hlimit : limit ≤ maxFileSize) (hgood : GoodPages columns bs)
    (hwithin : (insertRow (pageArray limit) serializeWithin pr columns bs).1 = .error tooLong →
      ShortRows columns) :
    Answers (.insert table names values) (some ⟨columns, liveRows columns bs⟩)
      ((insertRow (pageArray limit) serializeRow pr columns bs).1.map fun _ =>
        { message := str "1 row inserted" })
      (some ⟨columns,
        liveRows columns (insertRow (pageArray limit) serializeRow pr columns bs).2⟩) := by
  have hcheck : checkInsert names values ⟨columns, liveRows columns bs⟩ = (do
      let row ← rowFromInsertValues pr columns
      if names = [] ∧ row.length ≠ columns.length then .error (.error .columnCountMismatch)
      else if repeatsKey columns (liveRows columns bs) row then
        .error (.error .primaryKeyViolation)
      else (fun _ => row) <$> checkRow row columns) := by rw [hrow]; rfl
  rw [← insertRow_within hwithin]
  rw [insertRow] at hwithin ⊢
  rcases hvalues : rowFromInsertValues pr columns with e | row
  · rw [hvalues, error_bind] at hcheck
    exact .rejected hcheck
  rw [hvalues, ok_bind] at hcheck
  rw [hvalues, Prog.lift_ok_bind_apply] at hwithin
  rw [Prog.lift_ok_bind_apply]
  by_cases hcount : pr.statement.insertColumnNames = [] ∧ row.length ≠ columns.length
  · rw [Prog.failIf_pos hcount]
    rw [if_pos (hnames ▸ hcount)] at hcheck
    exact .rejected hcheck
  rw [Prog.failIf_neg hcount, Prog.pure_bind_apply] at hwithin ⊢
  rw [if_neg (hnames ▸ hcount)] at hcheck
  have hlen : row.length = columns.length := by
    by_cases hlist : pr.statement.insertColumnNames = []
    · by_contra hne
      exact hcount ⟨hlist, hne⟩
    · exact length_rowFromInsertValues hvalues hlist
  have hkey : checkNewKey (pageArray limit) columns row bs = _ := checkNewKey_apply h hgood hlen
  by_cases hrepeat : repeatsKey columns (liveRows columns bs) row = true
  · rw [if_pos hrepeat] at hkey hcheck
    rw [Prog.bind_error hkey]
    exact .rejected hcheck
  rw [if_neg hrepeat] at hkey hcheck
  rw [Prog.bind_ok hkey] at hwithin ⊢
  rcases hbytes : serializeWithin row columns with e | bytes
  · rw [hbytes] at hwithin
    have hfails : checkRow row columns = .error (internal e) := by
      refine checkRow_of_error (by rw [hbytes]; rfl) fun he => hwithin ?_
      rw [← he]
      rfl
    rw [hfails] at hcheck
    exact .rejected hcheck
  · -- the row passes all checks, and its bytes are stored if there is room
    rw [checkRow_of_ok hbytes] at hcheck
    have henc := fitsSlots_serializeWithin _ _ _ hbytes
    have hspec := storeBytes_spec h hlimit bytes
    rw [Nat.mod_eq_of_lt henc.length_lt, List.take_length] at hspec
    obtain ⟨-, hrows⟩ := hspec.rows henc hgood
    rw [mapError_ok, Prog.lift_ok_bind_apply]
    have hfull : ∀ e, (storeBytes (pageArray limit) bytes bs).1 = .error e → e = noRoom := by
      intro e he
      generalize storeBytes (pageArray limit) bytes bs = r at hspec he
      cases hspec <;> cases he <;> rfl
    rcases hend : storeBytes (pageArray limit) bytes bs with ⟨e | u, cs⟩ <;>
      rw [hend] at hrows hfull
    · obtain rfl := hfull e rfl
      have hsame : liveRows columns cs = liveRows columns bs := hrows
      rw [hsame]
      exact .full hcheck
    · obtain ⟨before, after, hold, hnew⟩ := hrows
      rw [hnew]
      exact .inserted hcheck hold

/-! ### DELETE -/

/-- The count that an `int` cannot increment is the last one. -/
theorem count_eq_most {count : ℕ} (hcount : count < 2 ^ 31) (hmany : 2 ^ 31 ≤ count + 1) :
    count = sweepLimits.most := by
  show count = 2 ^ 31 - 1
  omega

theorem deleteSlot_makesVisits {condition : Option Tree} (hcondition : pr.Condition condition) :
    MakesVisits (deleteSlot pr columns) columns (deleteAction pr columns) (KeysDistinct columns)
      (deleteVisit condition columns) sweepLimits (fun _ => False) where
  goes := by
    intro bs cs k slot b p count s' _ row _ _ c o hact
    rw [deleteAction, hcondition.whereMatches] at hact
    exact hact
  stops := by
    intro bs cs k slot b p count e hw hcount row hrow hfail _
    rcases hw.good.slot_cases hw.lt_numSlots with ⟨-, hnone⟩ | ⟨hd, -, row', -, -, hrow', hread⟩
    · rw [hnone] at hrow
      cases hrow
    cases hrow.symm.trans hrow'
    rw [deleteSlot] at hfail
    dsimp only at hfail
    rw [if_neg (by simp [hd]), hread, Prog.lift_ok_bind_apply, hcondition.whereMatches] at hfail
    rcases hmatch : holds condition (columns.map (·.name)) row with e' | isMatch
    · rw [hmatch] at hfail
      cases hfail
      refine .fails ?_
      rw [deleteVisit, hmatch]
      rfl
    · -- a live slot can be deleted, but not always counted
      obtain ⟨hdelete, -, -⟩ := hw.good.deleteRow_eq hw.lt_numSlots hd
      rw [hmatch, Prog.lift_ok_bind_apply] at hfail
      cases isMatch with
      | false => cases hfail
      | true =>
        have hpage : (onPage p (Page.deleteRow slot) : Prog (List (Block pageSize)) _ _) cs =
            (.ok ((), p.removed slot), cs) := by
          rw [onPage_apply, hdelete]
          rfl
        simp only [Bool.not_true, Bool.false_eq_true, if_false] at hfail
        rw [Prog.bind_ok hpage] at hfail
        rcases hinc : increment count with e' | next
        · rw [hinc] at hfail
          cases hfail
          obtain ⟨hle, rfl⟩ := increment_eq_error.1 hinc
          refine StopsAt.tooMany (o := none) ?_ (count_eq_most hcount hle)
          rw [deleteVisit, hmatch]
          rfl
        · rw [hinc] at hfail
          cases hfail
  skips := by
    intro bs cs k slot b p count hw hnone
    rcases hw.good.slot_cases hw.lt_numSlots with ⟨hd, -⟩ | ⟨-, -, row, -, -, hrow, -⟩
    · rw [deleteSlot_of_deleted hd]
    · rw [hnone] at hrow
      cases hrow

/-! ### UPDATE -/

section Update

variable {assignments : List (Str × Tree)} {condition : Option Tree}
  (hassigns : List.Forall₂ pr.Assigns pr.statement.assignments assignments)
  (hcondition : pr.Condition condition)

include hassigns hcondition

/-- The visit of a row whose condition holds. -/
theorem updateVisit_of_match {before after : List Row} {row : Row}
    (hlen : row.length = columns.length)
    (hmatch : whereMatches pr row (columns.map (·.name)) = .ok true) :
    updateVisit assignments condition columns before row after = (do
      let updated ← rowFromUpdate row pr.statement.assignments pr (columns.map (·.name))
      if assignsKey columns assignments && repeatsKey columns (before ++ after) updated then
        .error (.error .primaryKeyViolation)
      else (fun _ => (true, some updated)) <$> checkRow updated columns) := by
  rw [hcondition.whereMatches] at hmatch
  rw [updateVisit, hmatch, ok_bind, rowFromUpdate_of_assigns hassigns (by simp [hlen])]
  rfl

/-- What keeps a new row out of its slot stops the visit of the old one. -/
theorem StuckNew.stopsAt {before after : List Row} {row updated : Row} {free len count : ℕ}
    {e : Failure ExecError}
    (hstuck : StuckNew pr columns (before ++ after) free len count updated e)
    (hlen : row.length = columns.length) (hnew : newRow pr columns row = some updated)
    (hcount : count < 2 ^ 31) (hlong : ¬(e = tooLong ∧ ¬ShortRows columns)) :
    StopsAt (updateVisit assignments condition columns) sweepLimits before row after count e := by
  obtain ⟨hmatch, hupd⟩ := newRow_eq_some.1 hnew
  have hlen' : updated.length = columns.length := (length_rowFromUpdate hupd).trans hlen
  -- what the visit does when the key is free
  have hvisit : ¬KeyTaken pr columns (before ++ after) updated →
      updateVisit assignments condition columns before row after =
        (fun _ => (true, some updated)) <$> checkRow updated columns := by
    intro hfree
    rw [updateVisit_of_match hassigns hcondition hlen hmatch, hupd, ok_bind,
      if_neg fun h => hfree ((keyTaken_iff_repeatsKey hassigns).2 h)]
  have hstored : ∀ {bytes}, ¬KeyTaken pr columns (before ++ after) updated →
      serializeRow updated columns = .ok bytes →
      updateVisit assignments condition columns before row after = .ok (true, some updated) := by
    intro bytes hfree hbytes
    rw [hvisit hfree, checkRow, hbytes]
    rfl
  cases hstuck with
  | key htaken =>
    refine .fails ?_
    rw [updateVisit_of_match hassigns hcondition hlen hmatch, hupd, ok_bind,
      if_pos ((keyTaken_iff_repeatsKey hassigns).1 htaken)]
  | text hfree hstop =>
    refine .fails ?_
    rw [hvisit hfree, checkRow, hstop.serializeRow hlen']
    rfl
  | type hfree hstop htyped =>
    refine .fails ?_
    rcases serializeRow_cases hlen' with ⟨hstop', -⟩ | ⟨hsuits, -⟩ | ⟨-, -, hrun⟩
    · exact absurd hstop' hstop
    · exact absurd (hsuits.imp fun _ _ => Value.Suits.typed) htyped
    · rw [hvisit hfree, checkRow, hrun]
      rfl
  | long hfree hbytes hsize =>
    -- no row of these columns is too long, or the failure is not considered
    exact absurd ⟨rfl, fun hs => Nat.not_lt.2 hsize (hs _ _ hbytes)⟩ hlong
  | room hfree hbytes => exact .full (hstored hfree hbytes)
  | count hfree hbytes _ _ hmany =>
    exact .tooMany (hstored hfree hbytes) (count_eq_most hcount hmany)

theorem Stuck.stopsAt {before after : List Row} {row : Row} {free len count : ℕ}
    {e : Failure ExecError} (hstuck : Stuck pr columns (before ++ after) free len count row e)
    (hlen : row.length = columns.length) (hcount : count < 2 ^ 31)
    (hlong : ¬(e = tooLong ∧ ¬ShortRows columns)) :
    StopsAt (updateVisit assignments condition columns) sweepLimits before row after count e := by
  cases hstuck with
  | condition hmatch =>
    rw [hcondition.whereMatches] at hmatch
    refine .fails ?_
    rw [updateVisit, hmatch]
    rfl
  | values hmatch hupd =>
    refine .fails ?_
    rw [updateVisit_of_match hassigns hcondition hlen hmatch, hupd]
    rfl
  | new hnew hstuck => exact hstuck.stopsAt hassigns hcondition hlen hnew hcount hlong

theorem updateSlot_makesVisits :
    MakesVisits (updateSlot (pageArray limit) serializeWithin pr columns) columns
      (updateAction pr columns) (KeysDistinct columns) (updateVisit assignments condition columns)
      sweepLimits (fun e => e = tooLong ∧ ¬ShortRows columns) where
  goes := by
    intro bs cs k slot b p count s' hw row hrow hbody c o hact
    obtain ⟨p', count'⟩ := s'
    rcases updateSlot_eq_ok hbody with ⟨hd, -, -⟩ | ⟨row', hread, hcase⟩
    · rw [hw.good.row_of_deleted hw.lt_numSlots hd] at hrow
      cases hrow
    obtain ⟨-, hrow'⟩ := hw.good.row_of_read hw.lt_numSlots hread
    cases hrow.symm.trans hrow'
    have hlen := length_readSlotRow hread
    rcases hcase with ⟨hmatch, -, -⟩ | ⟨hmatch, updated, bytes, off, hupd, hkey, hbytes, -, -⟩
    · rw [updateAction, hmatch] at hact
      cases hact
      rw [hcondition.whereMatches] at hmatch
      rw [updateVisit, hmatch]
      rfl
    · have hlen' : updated.length = columns.length := (length_rowFromUpdate hupd).trans hlen
      have hfree : ¬(assignsKey columns assignments && repeatsKey columns
          (rowsBefore columns cs k p slot ++ rowsAfter columns cs k p slot) updated) = true := by
        rw [← keyTaken_iff_repeatsKey hassigns]
        intro htaken
        have hfails : (checkKey (pageArray limit) pr columns updated p k slot cs).1 =
            .error (.error .primaryKeyViolation) := (hw.checkKey_eq_error hlen').2 ⟨htaken, rfl⟩
        rw [hkey] at hfails
        cases hfails
      rw [updateAction, hmatch, ok_bind, if_pos rfl, hupd] at hact
      cases hact
      rw [updateVisit_of_match hassigns hcondition hlen hmatch, hupd, ok_bind, if_neg hfree,
        checkRow_of_ok hbytes]
      rfl
  stops := by
    intro bs cs k slot b p count e hw hcount row hrow hfail hlong
    exact ((hw.updateSlot_eq_error hrow).1 hfail).stopsAt hassigns hcondition
      (hw.good.length_of_row hw.lt_numSlots hrow) hcount hlong
  skips := by
    intro bs cs k slot b p count hw hnone
    rcases hw.good.slot_cases hw.lt_numSlots with ⟨hd, -⟩ | ⟨-, -, row, -, -, hrow, -⟩
    · rw [updateSlot_of_deleted hd]
    · rw [hnone] at hrow
      cases hrow

end Update

end MicroSql
