import MicroSql.Table.Keys

/-!
# INSERT on an array of pages

The bytes of a row go into the first data page that has room for them, or else into a
new page.  `Stored` lists how this can end; from it follow what INSERT does to the rows
of the table, and when it succeeds.
-/

namespace MicroSql

open Lib

variable {limit : ℕ} {bs : List (Block pageSize)} {rowBytes : List UInt8} {size : ℕ}

/-- A page has room for a row of `size` bytes and its slot. -/
def HasRoom (b : Block pageSize) (size : ℕ) : Prop :=
  size + slotEntrySize ≤ (blockPage b).freeSpace

instance (b : Block pageSize) (size : ℕ) : Decidable (HasRoom b size) :=
  inferInstanceAs (Decidable (_ ≤ _))

/-- The page `b` after a row is inserted. -/
def insertedInto (b : Block pageSize) (row : List UInt8) : Block pageSize :=
  ((blockPage b).inserted row).data

/-! ### One page -/

theorem insertRowIntoPage_apply (hwf : ∀ b ∈ bs, (blockPage b).WF) {k : ℕ} {b : Block pageSize}
    (hb : bs[k]? = some b) (hsize : size ≤ rowBytes.length) :
    insertRowIntoPage (pageArray limit) ⟨b, k⟩ rowBytes size bs =
      if size = 0 ∨ ¬HasRoom b size then (.error (.error .internalError), bs)
      else (.ok (), bs.set k (insertedInto b (rowBytes.take size))) := by
  obtain ⟨hk, hbk⟩ := List.getElem?_eq_some_iff.1 hb
  have hw := hwf b (hbk ▸ List.getElem_mem _)
  have hpage : ({ data := b, pageId := k } : Page).WF :=
    ⟨hw.dir_le, hw.freePtr_le, hw.region, hw.disjoint⟩
  have happ := Page.insertRow_apply hpage hsize
  rw [insertRowIntoPage, Prog.bind_apply, onPage_apply, happ]
  by_cases h0 : size = 0
  · rw [if_pos h0, if_pos (.inl h0)]
    rfl
  rw [if_neg h0]
  by_cases hroom : HasRoom b size
  · have hspace : ¬({ data := b, pageId := k } : Page).freeSpace < size + slotEntrySize :=
      Nat.not_lt.2 hroom
    rw [if_neg hspace, if_neg (by tauto)]
    exact writePage_apply limit (p := ({ data := b, pageId := k } : Page).inserted _) hk
  · have hspace : ({ data := b, pageId := k } : Page).freeSpace < size + slotEntrySize :=
      Nat.not_le.1 hroom
    rw [if_pos hspace, if_pos (.inr hroom)]
    rfl

/-! ### The first fit -/

/-- One page of the scan. -/
theorem tryPage_apply (limit : ℕ) (h : TablePages bs) {k : ℕ} {b : Block pageSize}
    (hb : bs[k]? = some b) (hsize : size ≤ rowBytes.length) :
    tryPage (pageArray limit) rowBytes size k bs =
      if ¬HasRoom b size then (.ok false, bs)
      else if size = 0 then (.error (.error .internalError), bs)
      else (.ok true, bs.set k (insertedInto b (rowBytes.take size))) := by
  rw [tryPage, Prog.bind_ok (readPage_apply h.length_le hb)]
  by_cases hroom : HasRoom b size
  · have hge : ({ data := b, pageId := k } : Page).freeSpace ≥ size + slotEntrySize := hroom
    rw [if_pos hge, if_neg (not_not.2 hroom), Prog.bind_apply,
      insertRowIntoPage_apply h.wf hb hsize]
    by_cases h0 : size = 0
    · rw [if_pos (.inl h0), if_pos h0]
    · rw [if_neg (by tauto), if_neg h0]
      rfl
  · have hge : ¬({ data := b, pageId := k } : Page).freeSpace ≥ size + slotEntrySize := hroom
    rw [if_neg hge, if_pos hroom]
    rfl

/-- The scan from page `k` on stops at the first page that has room. -/
theorem anyM_tryPage (limit : ℕ) (h : TablePages bs) (hsize : size ≤ rowBytes.length) {k m : ℕ}
    (hm : k + m = bs.length) :
    (∃ i b, k ≤ i ∧ bs[i]? = some b ∧ HasRoom b size ∧
      (List.range' k m).anyM (tryPage (pageArray limit) rowBytes size) bs =
        if size = 0 then (.error (.error .internalError), bs)
        else (.ok true, bs.set i (insertedInto b (rowBytes.take size)))) ∨
    ((∀ j c, k ≤ j → bs[j]? = some c → ¬HasRoom c size) ∧
      (List.range' k m).anyM (tryPage (pageArray limit) rowBytes size) bs = (.ok false, bs)) := by
  induction m generalizing k with
  | zero =>
    refine .inr ⟨fun j c hj hc => ?_, rfl⟩
    have := (List.getElem?_eq_some_iff.1 hc).1
    omega
  | succ m ih =>
    have hb : bs[k]? = some bs[k] := List.getElem?_eq_getElem (by omega)
    have htry := tryPage_apply limit h hb hsize
    rw [List.range'_succ, List.anyM]
    by_cases hroom : HasRoom bs[k] size
    · refine .inl ⟨k, bs[k], le_refl k, hb, hroom, ?_⟩
      rw [if_neg (not_not.2 hroom)] at htry
      by_cases h0 : size = 0
      · rw [if_pos h0] at htry ⊢
        rw [Prog.bind_error htry]
      · rw [if_neg h0] at htry ⊢
        rw [Prog.bind_ok htry]
        rfl
    · -- a page without room is passed, and is not written
      rw [if_pos hroom] at htry
      rw [Prog.bind_ok htry]
      rcases ih (show k + 1 + m = bs.length by omega) with ⟨i, b, hi, hbi, hri, hrun⟩ | ⟨hno, hrun⟩
      · exact .inl ⟨i, b, by omega, hbi, hri, hrun⟩
      · refine .inr ⟨fun j c hj hc => ?_, hrun⟩
        by_cases hjk : j = k
        · subst hjk
          rw [hb] at hc
          cases hc
          exact hroom
        · exact hno j c (by omega) hc

/-! ### Where the bytes go -/

/-- How `storeBytes` ends for `size` of the bytes of a row. -/
inductive Stored (limit : ℕ) (bs : List (Block pageSize)) (row : List UInt8) :
    Except (Failure ExecError) Unit × List (Block pageSize) → Prop
  /-- into a page that had room -/
  | fits (k : ℕ) (b : Block pageSize) (hk : 1 ≤ k) (hb : bs[k]? = some b)
      (hroom : HasRoom b row.length) (h0 : row.length ≠ 0) :
      Stored limit bs row (.ok (), bs.set k (insertedInto b row))
  /-- into a new page -/
  | new (hfull : ∀ j c, 1 ≤ j → bs[j]? = some c → ¬HasRoom c row.length)
      (hspace : bs.length * pageSize + pageSize ≤ max limit (bs.length * pageSize))
      (hroom : HasRoom (Page.init bs.length).data row.length) (h0 : row.length ≠ 0) :
      Stored limit bs row
        (.ok (), bs ++ [insertedInto (Page.init bs.length).data row])
  /-- nowhere: an empty row is not stored, and a file that may not grow has no room -/
  | failed (hfail : row.length = 0 ∨
      max limit (bs.length * pageSize) < bs.length * pageSize + pageSize) :
      Stored limit bs row (.error (.error .internalError), bs)
  /-- a page was allocated and does not have room either -/
  | failedNew (hspace : bs.length * pageSize + pageSize ≤ max limit (bs.length * pageSize))
      (hfail : row.length = 0 ∨ ¬HasRoom (Page.init bs.length).data row.length) :
      Stored limit bs row
        (.error (.error .internalError), bs ++ [(Page.init bs.length).data])

theorem wf_append_init (h : ∀ b ∈ bs, (blockPage b).WF) (id : ℕ) :
    ∀ b ∈ bs ++ [(Page.init id).data], (blockPage b).WF := by
  intro b hb
  rcases List.mem_append.1 hb with hb | hb
  · exact h b hb
  · cases List.mem_singleton.1 hb
    have hw := Page.wf_init id
    exact ⟨hw.dir_le, hw.freePtr_le, hw.region, hw.disjoint⟩

/-- The bytes go into the first page that has room for them, or else into a new page. -/
theorem storeBytes_apply (h : TablePages bs) (hlimit : limit ≤ maxFileSize)
    (hsize : rowBytes.length % 65536 = size) :
    (∃ k b, 1 ≤ k ∧ bs[k]? = some b ∧ HasRoom b size ∧
      storeBytes (pageArray limit) rowBytes bs =
        if size = 0 then (.error (.error .internalError), bs)
        else (.ok (), bs.set k (insertedInto b (rowBytes.take size)))) ∨
    ((∀ j c, 1 ≤ j → bs[j]? = some c → ¬HasRoom c size) ∧
      storeBytes (pageArray limit) rowBytes bs =
        if max limit (bs.length * pageSize) < bs.length * pageSize + pageSize then
          (.error (.error .internalError), bs)
        else if size = 0 ∨ ¬HasRoom (Page.init bs.length).data size then
          (.error (.error .internalError), bs ++ [(Page.init bs.length).data])
        else (.ok (), bs ++ [insertedInto (Page.init bs.length).data (rowBytes.take size)])) := by
  have hle : size ≤ rowBytes.length := hsize ▸ Nat.mod_le _ _
  have hpos := h.length_pos
  have hlen := h.length_le
  have hscan := anyM_tryPage limit h hle (show 1 + (bs.length - 1) = bs.length by omega)
  rw [storeBytes, Prog.bind_ok (getNumPages_apply limit bs), hsize]
  rw [Prog.bind_apply, insertIntoFirstFit, dataPages]
  rcases hscan with ⟨k, b, hk, hb, hroom, hrun⟩ | ⟨hfull, hrun⟩
  · refine .inl ⟨k, b, hk, hb, hroom, ?_⟩
    rw [hrun]
    by_cases h0 : size = 0
    · rw [if_pos h0, if_pos h0]
    · rw [if_neg h0, if_neg h0]
      rfl
  · refine .inr ⟨hfull, ?_⟩
    rw [hrun]
    dsimp only
    rw [if_neg Bool.false_ne_true]
    -- the file grows by a page before it is known whether the row fits into it
    by_cases hspace : max limit (bs.length * pageSize) < bs.length * pageSize + pageSize
    · have halloc : Prog.mapError internal (pageArray limit).allocatePage bs =
          (.error (.error .internalError), bs) := by
        rw [Prog.mapError_apply, allocatePage_apply, if_pos hspace]
        rfl
      rw [Prog.bind_error halloc, if_pos hspace]
    · have hmod : bs.length % 2 ^ 32 = bs.length := by
        refine Nat.mod_eq_of_lt ?_
        simp only [pageSize, maxFileSize] at hspace hlimit
        omega
      have halloc : Prog.mapError internal (pageArray limit).allocatePage bs =
          (.ok bs.length, bs ++ [(Page.init bs.length).data]) := by
        rw [Prog.mapError_apply, allocatePage_apply, if_neg hspace, hmod]
        rfl
      have hnew : (bs ++ [(Page.init bs.length).data])[bs.length]? =
          some (Page.init bs.length).data := by simp
      have hlen' : (bs ++ [(Page.init bs.length).data]).length ≤ 2 ^ 32 := by
        rw [List.length_append, List.length_singleton]
        simp only [pageSize, maxFileSize] at hspace hlimit
        omega
      rw [Prog.bind_ok halloc, Prog.bind_ok (readPage_apply hlen' hnew),
        insertRowIntoPage_apply (wf_append_init h.wf _) hnew hle, if_neg hspace,
        List.set_append_right _ _ (le_refl _), Nat.sub_self]
      rfl

theorem storeBytes_spec (h : TablePages bs) (hlimit : limit ≤ maxFileSize)
    (rowBytes : List UInt8) :
    Stored limit bs (rowBytes.take (rowBytes.length % 65536))
      (storeBytes (pageArray limit) rowBytes bs) := by
  have hlen : (rowBytes.take (rowBytes.length % 65536)).length = rowBytes.length % 65536 := by
    rw [List.length_take, Nat.min_eq_left (Nat.mod_le _ _)]
  have hrun := storeBytes_apply h hlimit (rfl : rowBytes.length % 65536 = _)
  generalize hs : rowBytes.length % 65536 = size at hlen hrun ⊢
  rcases hrun with ⟨k, b, hk, hb, hroom, hrun⟩ | ⟨hfull, hrun⟩
  · rw [hrun]
    by_cases h0 : size = 0
    · rw [if_pos h0]
      exact .failed (.inl (hlen.trans h0))
    · rw [if_neg h0]
      exact .fits k b hk hb (by rwa [hlen]) (by rwa [hlen])
  · rw [hrun]
    by_cases hspace : max limit (bs.length * pageSize) < bs.length * pageSize + pageSize
    · rw [if_pos hspace]
      exact .failed (.inr hspace)
    rw [if_neg hspace]
    by_cases hfit : size = 0 ∨ ¬HasRoom (Page.init bs.length).data size
    · rw [if_pos hfit]
      exact .failedNew (Nat.not_lt.1 hspace) (by rwa [hlen])
    · rw [if_neg hfit]
      exact .new (by rwa [hlen]) (Nat.not_lt.1 hspace) (by rw [hlen]; tauto) (by rw [hlen]; tauto)

/-- A fresh page has room for 4076 bytes. -/
theorem hasRoom_init {id size : ℕ} : HasRoom (Page.init id).data size ↔ size ≤ 4076 := by
  have hw := (Page.wf_init id).freeSpace_eq
  rw [Page.freePtr_init, Page.numSlots_init] at hw
  have hfree : (blockPage (Page.init id).data).freeSpace = 4080 := hw
  rw [HasRoom, hfree]
  simp only [slotEntrySize]
  omega

namespace Stored

variable {row : List UInt8} {r : Except (Failure ExecError) Unit × List (Block pageSize)}

/-- The file still consists of well-formed pages. -/
theorem tablePages (hr : Stored limit bs row r) (h : TablePages bs)
    (hlimit : limit ≤ maxFileSize) : TablePages r.2 := by
  have happend : ∀ b, (blockPage b).WF →
      bs.length * pageSize + pageSize ≤ max limit (bs.length * pageSize) →
      TablePages (bs ++ [b]) := by
    intro b hb hspace
    refine ⟨?_, ?_, ?_⟩
    · rw [List.getElem?_append_left h.length_pos]
      exact h.reserved
    · rw [List.length_append, List.length_singleton]
      simp only [pageSize, maxFileSize] at hspace hlimit
      omega
    · intro c hc
      rcases List.mem_append.1 hc with hc | hc
      · exact h.wf c hc
      · cases List.mem_singleton.1 hc
        exact hb
  cases hr with
  | fits k b hk hb hroom h0 =>
    obtain ⟨hkn, hbk⟩ := List.getElem?_eq_some_iff.1 hb
    exact h.set hk (Page.wf_inserted (h.wf b (hbk ▸ List.getElem_mem _)) hroom)
  | new hfull hspace hroom h0 =>
    exact happend _ (Page.wf_inserted (wf_append_init h.wf bs.length _ (by simp)) hroom) hspace
  | failed hfail => exact h
  | failedNew hspace hfail =>
    exact happend _ (wf_append_init h.wf bs.length _ (by simp)) hspace

/-- 1 to 4076 bytes are stored, if the file may grow. -/
theorem succeeds (hr : Stored limit bs row r) (h0 : 1 ≤ row.length) (hmax : row.length ≤ 4076)
    (hspace : bs.length * pageSize + pageSize ≤ limit) : ∃ cs, r = (.ok (), cs) := by
  cases hr with
  | fits k b hk hb hroom h0 => exact ⟨_, rfl⟩
  | new hfull hspace hroom h0 => exact ⟨_, rfl⟩
  | failed hfail => omega
  | failedNew hspace hfail =>
    rw [hasRoom_init] at hfail
    omega

/-- At most one page is allocated. -/
theorem length_le {x : Except (Failure ExecError) Unit} {cs : List (Block pageSize)}
    (hr : Stored limit bs row (x, cs)) : cs.length ≤ bs.length + 1 := by
  cases hr <;> simp

/-- A page is allocated only if no data page has room. -/
theorem length_eq {u : Unit} {cs : List (Block pageSize)} (hr : Stored limit bs row (.ok u, cs)) :
    cs.length = bs.length ∨ ∀ j c, 1 ≤ j → bs[j]? = some c → ¬HasRoom c row.length := by
  cases hr with
  | fits k b hk hb hroom h0 => exact .inl (List.length_set ..)
  | new hfull hspace hroom h0 => exact .inr hfull

/-- Without a page that has room the row goes to the end. -/
theorem eq_append {u : Unit} {cs : List (Block pageSize)} (hr : Stored limit bs row (.ok u, cs))
    (hfull : ∀ k b, 1 ≤ k → bs[k]? = some b → ¬HasRoom b row.length) :
    cs = bs ++ [insertedInto (Page.init bs.length).data row] := by
  cases hr with
  | fits k b hk hb hroom h0 => exact absurd hroom (hfull k b hk hb)
  | new hfull hspace hroom h0 => rfl

/-- The rows after the bytes of a row are stored: it comes in addition, somewhere. -/
theorem rows {columns : Schema} {values : Row} (hr : Stored limit bs row r)
    (henc : Encodes columns row values) (hgood : GoodPages columns bs) :
    GoodPages columns r.2 ∧ match r.1 with
      | .ok _ => ∃ before after, liveRows columns bs = before ++ after ∧
          liveRows columns r.2 = before ++ values :: after
      | .error _ => liveRows columns r.2 = liveRows columns bs := by
  have hinit : (blockPage (Page.init bs.length).data).Good columns :=
    (Page.good_init columns bs.length).with_id 0
  have hempty : (blockPage (Page.init bs.length).data).rows columns = [] :=
    Page.rows_init columns bs.length
  have hsingle : ∀ b, liveRows columns [b] = ((blockPage b).rows columns).reduceOption :=
    fun b => liveRows_singleton columns (blockPage b)
  have happend : ∀ b, (blockPage b).Good columns → GoodPages columns (bs ++ [b]) := by
    intro b hb c hc
    rcases List.mem_append.1 hc with hc | hc
    · exact hgood c hc
    · cases List.mem_singleton.1 hc
      exact hb
  cases hr with
  | fits k b hk hb hroom h0 =>
    obtain ⟨hkn, hbk⟩ := List.getElem?_eq_some_iff.1 hb
    have hb' : (blockPage b).Good columns := hgood b (hbk ▸ List.getElem_mem _)
    obtain ⟨-, hnew, hrows⟩ := hb'.insertRow_eq henc h0 hroom
    refine ⟨hgood.set k hnew, liveRows columns (bs.take k) ++
      ((blockPage b).rows columns).reduceOption, liveRows columns (bs.drop (k + 1)), ?_, ?_⟩
    · -- the rows before, with the page put back as it is
      have hset := liveRows_set columns hkn (blockPage b)
      have hsame : bs.set k (blockPage b).data = bs := by
        rw [show (blockPage b).data = bs[k] from hbk.symm, List.set_getElem_self]
      rwa [hsame] at hset
    · refine (liveRows_set columns hkn _).trans ?_
      rw [hrows, List.reduceOption_append]
      simp only [List.append_assoc, List.reduceOption_singleton, Option.toList_some,
        List.singleton_append]
  | new hfull hspace hroom h0 =>
    obtain ⟨-, hnew, hrows⟩ := hinit.insertRow_eq henc h0 hroom
    refine ⟨happend _ (hnew.with_id 0), liveRows columns bs, [], (List.append_nil _).symm, ?_⟩
    have hone : ((blockPage (insertedInto (Page.init bs.length).data row)).rows columns) =
        [some values] := by
      refine Eq.trans ?_ (hrows.trans ?_)
      · rfl
      · rw [hempty, List.nil_append]
    rw [liveRows_append, hsingle, hone]
    rfl
  | failed hfail => exact ⟨hgood, rfl⟩
  | failedNew hspace hfail =>
    refine ⟨happend _ hinit, ?_⟩
    dsimp only
    rw [liveRows_append, hsingle, hempty]
    exact List.append_nil _

end Stored

/-! ### The whole statement -/

section Statement

variable {serialize : Row → Schema → Expected RowError (List UInt8)} {pr : ParseResult}
  {columns : Schema}

theorem checkNewKey_readOnly (limit : ℕ) (columns : Schema) (row : Row) :
    (checkNewKey (pageArray limit) columns row).ReadOnly := by
  unfold checkNewKey
  cases primaryKeyIndex columns with
  | none => exact Prog.ReadOnly.pure _
  | some pk =>
    refine Prog.ReadOnly.bind (Prog.ReadOnly.lift _) fun key => ?_
    exact Prog.ReadOnly.bind (primaryKeyExists_readOnly _ _ _ _ _ _ _) fun found =>
      Prog.ReadOnly.failIf _ _

/-- The primary key check passes exactly when the key is not found. -/
theorem checkNewKey_passes {row : Row} (hlen : row.length = columns.length) :
    checkNewKey (pageArray limit) columns row bs = (.ok (), bs) ↔
      ∀ pk v, primaryKeyIndex columns = some pk → row[pk]? = some v →
        (primaryKeyExists (pageArray limit) columns pk v none 0 (-1) bs).1 = .ok false := by
  have hread := fun pk v =>
    (primaryKeyExists_readOnly limit columns pk v none 0 (-1)).eq bs
  unfold checkNewKey
  cases hpk : primaryKeyIndex columns with
  | none => simp
  | some pk =>
    have hlt := primaryKeyIndex_lt hpk
    have hrow : row[pk]? = some (row.get ⟨pk, hlen ▸ hlt⟩) := List.getElem?_eq_getElem _
    generalize row.get ⟨pk, hlen ▸ hlt⟩ = v at hrow
    dsimp only
    rw [Row.at, hrow, Prog.lift_ok_bind_apply, Prog.bind_apply, hread]
    constructor
    · intro hrun pk' v' hpk' hv'
      cases hpk'
      cases hrow.symm.trans hv'
      rcases hfound : (primaryKeyExists (pageArray limit) columns pk v none 0 (-1) bs).1 with
        e | found <;> rw [hfound] at hrun
      · cases hrun
      · cases found with
        | false => rfl
        | true =>
          dsimp only at hrun
          rw [Prog.failIf_apply, if_pos rfl] at hrun
          cases hrun
    · intro hnew
      rw [hnew pk v rfl hrow]
      dsimp only
      rw [Prog.failIf_apply, if_neg Bool.false_ne_true]

/-- On good pages that is when no live row holds the key. -/
theorem checkNewKey_eq_ok (h : TablePages bs) (hgood : GoodPages columns bs) {row : Row}
    (hlen : row.length = columns.length) :
    checkNewKey (pageArray limit) columns row bs = (.ok (), bs) ↔
      ∀ pk v, primaryKeyIndex columns = some pk → row[pk]? = some v →
        (liveRows columns bs).any (holdsKey pk v) = false := by
  rw [checkNewKey_passes hlen]
  refine forall₂_congr fun pk v => imp_congr_right fun hpk => ?_
  rw [primaryKeyExists_none (primaryKeyIndex_lt hpk) h hgood]
  simp

/-- INSERT fails before it has stored anything, or it stores the bytes of a row that has
passed all checks. -/
theorem insertRow_cases (limit : ℕ) (serialize : Row → Schema → Expected RowError (List UInt8))
    (pr : ParseResult) (columns : Schema) (bs : List (Block pageSize)) :
    (∃ e, insertRow (pageArray limit) serialize pr columns bs = (.error e, bs)) ∨
      ∃ row bytes, rowFromInsertValues pr columns = .ok row ∧
        (pr.statement.insertColumnNames = [] → row.length = columns.length) ∧
        checkNewKey (pageArray limit) columns row bs = (.ok (), bs) ∧
        serialize row columns = .ok bytes ∧
        insertRow (pageArray limit) serialize pr columns bs =
          storeBytes (pageArray limit) bytes bs := by
  rw [insertRow]
  cases hrow : rowFromInsertValues pr columns with
  | error e => exact .inl ⟨e, rfl⟩
  | ok row =>
    rw [Prog.lift_ok_bind_apply]
    by_cases hcount : pr.statement.insertColumnNames = [] ∧ row.length ≠ columns.length
    · rw [Prog.failIf_pos hcount]
      exact .inl ⟨_, rfl⟩
    rw [Prog.failIf_neg hcount, Prog.pure_bind_apply]
    have hkey := (checkNewKey_readOnly limit columns row).eq bs
    rcases hv : (checkNewKey (pageArray limit) columns row bs).1 with e | ⟨⟩ <;> rw [hv] at hkey
    · rw [Prog.bind_error hkey]
      exact .inl ⟨e, rfl⟩
    rw [Prog.bind_ok hkey]
    cases hbytes : serialize row columns with
    | error e => exact .inl ⟨_, rfl⟩
    | ok bytes =>
      refine .inr ⟨row, bytes, rfl, fun hn => ?_, hkey, hbytes, rfl⟩
      by_contra hne
      exact hcount ⟨hn, hne⟩

/-- What INSERT does to the rows: it adds the new row, whose key no other row has, or it
fails and changes none. -/
theorem insertRow_rows (hser : FitsSlots serialize) (h : TablePages bs)
    (hlimit : limit ≤ maxFileSize) (hgood : GoodPages columns bs) :
    Prog.Spec (fun cs => cs = bs) (insertRow (pageArray limit) serialize pr columns)
      (fun _ cs => TablePages cs ∧ GoodPages columns cs ∧ ∃ row bytes before after,
        rowFromInsertValues pr columns = .ok row ∧ serialize row columns = .ok bytes ∧
        checkNewKey (pageArray limit) columns row bs = (.ok (), bs) ∧
        liveRows columns bs = before ++ after ∧ liveRows columns cs = before ++ row :: after)
      (fun _ cs => TablePages cs ∧ GoodPages columns cs ∧
        liveRows columns cs = liveRows columns bs) := by
  rintro cs rfl
  rcases insertRow_cases limit serialize pr columns cs with ⟨e, hrun⟩ |
    ⟨row, bytes, hrow, hcount, hkey, hbytes, hrun⟩
  · rw [hrun]
    exact ⟨h, hgood, rfl⟩
  · have henc := hser _ _ _ hbytes
    have hspec := storeBytes_spec h hlimit bytes
    rw [Nat.mod_eq_of_lt henc.length_lt, List.take_length] at hspec
    obtain ⟨hgood', hrows⟩ := hspec.rows henc hgood
    have hpages := hspec.tablePages h hlimit
    rw [hrun]
    rcases hend : storeBytes (pageArray limit) bytes cs with ⟨_ | _, cs'⟩ <;>
      rw [hend] at hgood' hrows hpages
    · exact ⟨hpages, hgood', hrows⟩
    · obtain ⟨before, after, h1, h2⟩ := hrows
      exact ⟨hpages, hgood', row, bytes, before, after, hrow, hbytes, hkey, h1, h2⟩

/-- INSERT keeps the primary keys distinct. -/
theorem keysDistinct_insert {row : Row} {bytes : List UInt8} {before after : List Row}
    (h : TablePages bs) (hgood : GoodPages columns bs) (henc : Encodes columns bytes row)
    (hkey : checkNewKey (pageArray limit) columns row bs = (.ok (), bs))
    (hrows : liveRows columns bs = before ++ after)
    (hkeys : KeysDistinct columns (liveRows columns bs)) :
    KeysDistinct columns (before ++ row :: after) := by
  rw [hrows] at hkeys
  refine hkeys.insert fun pk hpk r hr hsame => ?_
  obtain ⟨v, hv, hholds⟩ := hsame
  rw [checkNewKey_eq_ok h hgood henc.length_eq] at hkey
  have hfound := hkey pk v hpk hv
  rw [hrows] at hfound
  exact List.any_eq_false.1 hfound r hr hholds

/-- A row with one value per column that can be encoded and does not repeat a primary key gets
as far as to be stored. -/
theorem insertRow_eq (h : TablePages bs) (hgood : GoodPages columns bs) {row : Row}
    {bytes : List UInt8} (hrow : rowFromInsertValues pr columns = .ok row)
    (hlen : row.length = columns.length) (hbytes : serialize row columns = .ok bytes)
    (hkey : ∀ pk v, primaryKeyIndex columns = some pk → row[pk]? = some v →
      (liveRows columns bs).any (holdsKey pk v) = false) :
    insertRow (pageArray limit) serialize pr columns bs =
      storeBytes (pageArray limit) bytes bs := by
  have hcount : ¬(pr.statement.insertColumnNames = [] ∧ row.length ≠ columns.length) :=
    fun hc => hc.2 hlen
  rw [insertRow, hrow, Prog.lift_ok_bind_apply, Prog.failIf_neg hcount, Prog.pure_bind_apply,
    Prog.bind_ok ((checkNewKey_eq_ok h hgood hlen).2 hkey), hbytes]
  rfl

/-- **When INSERT succeeds.**  A row that has one value per column, can be encoded in 1 to
4076 bytes and does not repeat a primary key is stored, if the file may grow. -/
theorem insertRow_succeeds (h : TablePages bs) (hlimit : limit ≤ maxFileSize)
    (hgood : GoodPages columns bs) {row : Row} {bytes : List UInt8}
    (hrow : rowFromInsertValues pr columns = .ok row) (hlen : row.length = columns.length)
    (hbytes : serialize row columns = .ok bytes) (h0 : 1 ≤ bytes.length)
    (hmax : bytes.length ≤ 4076)
    (hkey : ∀ pk v, primaryKeyIndex columns = some pk → row[pk]? = some v →
      (liveRows columns bs).any (holdsKey pk v) = false)
    (hspace : bs.length * pageSize + pageSize ≤ limit) :
    ∃ cs, insertRow (pageArray limit) serialize pr columns bs = (.ok (), cs) ∧
      Stored limit bs bytes (.ok (), cs) := by
  have hspec := storeBytes_spec h hlimit bytes
  rw [Nat.mod_eq_of_lt (by omega), List.take_length] at hspec
  rw [insertRow_eq h hgood hrow hlen hbytes hkey]
  obtain ⟨cs, hcs⟩ := hspec.succeeds h0 hmax hspace
  exact ⟨cs, hcs, hcs ▸ hspec⟩

end Statement

end MicroSql
