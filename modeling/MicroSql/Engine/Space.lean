import MicroSql.Engine.Insert
import MicroSql.Lib.AnyFit
import MicroSql.Storage.FreeSpace

/-!
# The space of a table

INSERT goes to the first data page that has room, and allocates a page only if none has; UPDATE
and DELETE never give space back.  Where every row fits into a page of its own, the pages of a
table are packed like that through all statements, whether they succeed or not.
-/

namespace MicroSql

open Lib

/-- The free space of the data pages. -/
def freeSpaces (bs : List (Block pageSize)) : List ℕ := (bs.drop 1).map fun b =>
  (blockPage b).freeSpace

/-- The free space of a page at first. -/
abbrev pageRoom : ℕ := pageSize - headerSize

/-- The rows of a table fit into a page, and have bytes. -/
structure FitsPage (columns : Schema) : Prop where
  ne_nil : columns ≠ []
  rowLimit_le : rowLimit columns + slotEntrySize ≤ pageRoom

variable {limit : ℕ} {bs cs : List (Block pageSize)} {columns : Schema} {pr : ParseResult}
  {serialize : Row → Schema → Expected RowError (List UInt8)}

theorem freeSpaces_set {k : ℕ} {b : Block pageSize} (hk : 1 ≤ k) :
    freeSpaces (bs.set k b) = (freeSpaces bs).set (k - 1) (blockPage b).freeSpace := by
  obtain ⟨k, rfl⟩ := Nat.exists_eq_add_of_le' hk
  rw [freeSpaces, List.drop_set, if_neg (by omega), List.map_set, freeSpaces]

theorem freeSpaces_append (h : bs ≠ []) (b : Block pageSize) :
    freeSpaces (bs ++ [b]) = freeSpaces bs ++ [(blockPage b).freeSpace] := by
  obtain ⟨c, cs, rfl⟩ := List.exists_cons_of_ne_nil h
  simp [freeSpaces]

theorem freeSpaces_getElem? {k : ℕ} {b : Block pageSize} (hk : 1 ≤ k) (hb : bs[k]? = some b) :
    (freeSpaces bs)[k - 1]? = some (blockPage b).freeSpace := by
  obtain ⟨k, rfl⟩ := Nat.exists_eq_add_of_le' hk
  rw [freeSpaces, List.getElem?_map, List.getElem?_drop, Nat.add_sub_cancel, Nat.add_comm 1 k, hb]
  rfl

theorem mem_freeSpaces {f : ℕ} (h : f ∈ freeSpaces bs) :
    ∃ j c, 1 ≤ j ∧ bs[j]? = some c ∧ (blockPage c).freeSpace = f := by
  obtain ⟨c, hc, rfl⟩ := List.mem_map.1 h
  obtain ⟨j, hj⟩ := List.mem_iff_getElem?.1 hc
  rw [List.getElem?_drop] at hj
  exact ⟨1 + j, c, Nat.le_add_right 1 j, hj, rfl⟩

/-! ### UPDATE and DELETE -/

/-- The body of a slot loop takes space of its page, and gives none back. -/
def TakesSpace (body : ℕ → Page × ℕ → ℕ → Prog (List (Block pageSize)) (Failure ExecError)
    (Page × ℕ)) : Prop :=
  ∀ bs k p count slot p' count', p.WF → p.pageId = k →
    (body k (p, count) slot bs).1 = .ok (p', count') → p'.freeSpace ≤ p.freeSpace

theorem deleteSlot_takesSpace : TakesSpace (deleteSlot pr columns) := by
  intro bs k p count slot p' count' hp _ h
  rcases deleteSlot_eq_ok h with ⟨-, rfl, -⟩ | ⟨row, -, ⟨-, rfl, -⟩ | ⟨-, hpage, -⟩⟩
  · exact le_rfl
  · exact le_rfl
  · obtain ⟨hi, -, rfl⟩ := Page.deleteRow_eq_ok hp hpage
    have hspace := (Page.wf_removed hp hi).freeSpace_eq
    rw [Page.freePtr_removed, Page.numSlots_removed] at hspace
    rw [hspace, hp.freeSpace_eq]

theorem updateSlot_takesSpace : TakesSpace (updateSlot (pageArray limit) serialize pr columns) := by
  intro bs k p count slot p' count' hp _ h
  rcases updateSlot_eq_ok h with ⟨-, rfl, -⟩ | ⟨row, -, ⟨-, rfl, -⟩ | ⟨-, updated, bytes, off, -, -,
    -, hpage, -⟩⟩
  · exact le_rfl
  · exact le_rfl
  · obtain ⟨-, -, hroom⟩ := Page.updateRow_room hp (Nat.mod_le _ _) hpage
    omega

section Rewrite

variable {body : ℕ → Page × ℕ → ℕ → Prog (List (Block pageSize)) (Failure ExecError) (Page × ℕ)}
  (hread : ∀ k s slot, (body k s slot).ReadOnly) (hkeep : KeepsPages body)
  (htakes : TakesSpace body)
include hread hkeep htakes

/-- The pages that have been passed. -/
theorem Passed.takesSpace {k count : ℕ} (h : TablePages bs) (hp : Passed body bs k count cs) :
    TablePages cs ∧ List.Forall₂ (· ≤ ·) (freeSpaces cs) (freeSpaces bs) := by
  induction hp with
  | start => exact ⟨h, List.forall₂_refl _⟩
  | @page k count count' cs b p' hp hb hloop ih =>
    obtain ⟨hcs, hle⟩ := ih
    have hw := hcs.wf b (List.mem_of_getElem? hb)
    have hpage : ({ data := b, pageId := k } : Page).WF :=
      ⟨hw.dir_le, hw.freePtr_le, hw.region, hw.disjoint⟩
    obtain ⟨⟨hwf, -⟩, hspace⟩ := slotLoop_rule hread (J := fun _ s =>
      (s.1.WF ∧ s.1.pageId = k) ∧ s.1.freeSpace ≤ (blockPage b).freeSpace)
      ⟨⟨hpage, rfl⟩, le_rfl⟩ (fun i s s' _ hs hbody =>
        ⟨hkeep cs k s.1 s.2 i s'.1 s'.2 hs.1.1 hs.1.2 hbody,
          (htakes cs k s.1 s.2 i s'.1 s'.2 hs.1.1 hs.1.2 hbody).trans hs.2⟩) hloop
    refine ⟨hcs.set hp.one_le hwf, ?_⟩
    rw [freeSpaces_set hp.one_le]
    exact forall₂_trans (R := (· ≤ ·)) (fun _ _ _ => le_trans)
      (forall₂_set (List.forall₂_refl _) (freeSpaces_getElem? hp.one_le hb) hspace) hle

/-- However such a statement ends, pages have lost space at most. -/
theorem rewritePages_takesSpace (h : TablePages bs) :
    List.Forall₂ (· ≤ ·) (freeSpaces (rewritePages (pageArray limit) body bs).2)
      (freeSpaces bs) := by
  have hrule : Prog.Spec _ (rewritePages (pageArray limit) body) _ _ :=
    rewritePages_passed hread hkeep h
  have hspec := hrule bs rfl
  rcases hrun : rewritePages (pageArray limit) body bs with ⟨e | n, cs⟩ <;> rw [hrun] at hspec
  · obtain ⟨-, -, k, count, b, -, hp, -⟩ := hspec
    exact (hp.takesSpace hread hkeep htakes h).2
  · exact (hspec.2.2.takesSpace hread hkeep htakes h).2

end Rewrite

/-! ### INSERT -/

theorem freeSpace_insertedInto {b : Block pageSize} (hb : (blockPage b).WF) {row : List UInt8}
    (hroom : HasRoom b row.length) :
    (blockPage (insertedInto b row)).freeSpace + (row.length + slotEntrySize) =
      (blockPage b).freeSpace := by
  have hwf : ((blockPage b).inserted row).WF := Page.wf_inserted hb hroom
  have hspace := hwf.freeSpace_eq
  have hspace' := hb.freeSpace_eq
  have hdir := hwf.dir_le
  have hfree := Page.freePtr_inserted hb row
  rw [Page.numSlots_inserted hb row] at hspace hdir
  show ((blockPage b).inserted row).freeSpace + _ = _
  simp only [HasRoom, headerSize, slotEntrySize] at *
  omega

/-- A row that fits into a page is packed like an item into the bins. -/
theorem Stored.anyFit {row : List UInt8}
    {r : Except (Failure ExecError) Unit × List (Block pageSize)} (hr : Stored limit bs row r)
    (h : TablePages bs) (h0 : 0 < row.length) (hmax : row.length + slotEntrySize ≤ pageRoom) :
    AnyFit pageRoom (freeSpaces bs) (freeSpaces r.2) := by
  have hne : bs ≠ [] := List.ne_nil_of_length_pos h.length_pos
  have hroom : HasRoom (Page.init bs.length).data row.length :=
    hasRoom_init.2 (Nat.le_of_add_le_add_right hmax)
  cases hr with
  | fits k b hk hb hroom =>
    have hspace := freeSpace_insertedInto (h.wf b (List.mem_of_getElem? hb)) hroom
    rw [freeSpaces_set hk]
    exact .placed (forall₂_set (List.forall₂_refl _) (freeSpaces_getElem? hk hb) (by omega))
  | new hfull =>
    have hwf := wf_append_init h.wf bs.length _ (List.mem_append_right _ List.mem_cons_self)
    have hspace := freeSpace_insertedInto hwf hroom
    have hinit : (blockPage (Page.init bs.length).data).freeSpace = pageRoom :=
      Page.freeSpace_init bs.length
    rw [freeSpaces_append hne, show (blockPage (insertedInto (Page.init bs.length).data
      row)).freeSpace = pageRoom - (row.length + slotEntrySize) by omega]
    refine .opened _ hmax fun f hf => ?_
    obtain ⟨j, c, hj, hc, rfl⟩ := mem_freeSpaces hf
    exact Nat.not_le.1 (hfull j c hj hc)
  | failed => exact .placed (List.forall₂_refl _)
  | failedNew _ hfail =>
    rcases hfail with hzero | hnone
    · exact absurd hzero h0.ne'
    · exact absurd hroom hnone

/-! ### Runs -/

/-- The data pages are packed as by an any-fit run. -/
def PagesPacked (t : TableSchema) (bs : List (Block pageSize)) : Prop :=
  FitsPage t.columns → Relation.ReflTransGen (AnyFit pageRoom) [] (freeSpaces bs)

theorem pagesPacked_fresh (t : TableSchema) : PagesPacked t [(Page.init 0).data] :=
  fun _ => .refl

/-- Every statement takes a step of such a run, also one that fails. -/
theorem anyFit_after (hlimit : limit ≤ maxFileSize) (hfits : FitsPage columns)
    (h : TablePages bs) (pr : ParseResult) :
    AnyFit pageRoom (freeSpaces bs) (freeSpaces (pagesAfter limit serializeRow pr columns bs)) := by
  unfold pagesAfter
  cases pr.statement.kind with
  | insert =>
    dsimp only
    rcases insertRow_cases limit serializeRow pr columns bs with ⟨e, hrun⟩ |
      ⟨row, bytes, -, -, -, hbytes, hrun⟩
    · rw [hrun]
      exact .placed (List.forall₂_refl _)
    · have hlength := length_serializeRow_le hbytes
      have hpos := length_serializeRow_pos hbytes hfits.ne_nil
      have hmax : bytes.length + slotEntrySize ≤ pageRoom :=
        (Nat.add_le_add_right hlength _).trans hfits.rowLimit_le
      have hspec := storeBytes_spec h hlimit bytes
      have hsmall : bytes.length < 65536 := by
        have hroom : pageRoom = 4080 := rfl
        omega
      rw [Nat.mod_eq_of_lt hsmall, List.take_length] at hspec
      rw [hrun]
      exact hspec.anyFit h hpos hmax
  | delete =>
    exact .placed (rewritePages_takesSpace (deleteSlot_readOnly pr columns) deleteSlot_keepsPages
      deleteSlot_takesSpace h)
  | update =>
    exact .placed (rewritePages_takesSpace (updateSlot_readOnly limit serializeRow pr columns)
      updateSlot_keepsPages updateSlot_takesSpace h)
  | _ => exact .placed (List.forall₂_refl _)

theorem Reachable.pagesPacked {w : Engine} (h : Reachable anyStatement w) :
    Engine.Inv PagesPacked w :=
  h.inv pagesPacked_fresh (fun _ _ _ => rfl) fun pr w _ _ _ _ hp hT hfits =>
    (hT hfits).tail (anyFit_after w.fs.limit_le hfits hp pr)

/-- **The pages of a table are half used.**  After any statements, also failed ones, and any
number of sessions, the free spaces of the data pages of a table whose rows fit into a page are
those of an any-fit packing: no two pages have together as much as a fresh one has, and all but
one are half used on average. -/
theorem pages_half_used {w : Engine} (h : Reachable anyStatement w) {name : Str} {t : TableSchema}
    (hfind : w.catalog.findTable name = some t) (hfits : FitsPage t.columns) :
    let free := freeSpaces (w.pages t)
    Relation.ReflTransGen (AnyFit pageRoom) [] free ∧
      free.Pairwise (fun f g => f + g < pageRoom) ∧
      pageRoom * (free.length - 1) ≤ 2 * (free.map (pageRoom - ·)).sum := by
  intro free
  obtain ⟨-, -, hpacked⟩ := h.pagesPacked.stores hfind
  have hrun := hpacked hfits
  exact ⟨hrun, packed_of_run hrun, (packed_of_run hrun).half⟩

theorem pages_half_used_sample :
    let free := freeSpaces (sampleTwo.pages sampleTable)
    Relation.ReflTransGen (AnyFit pageRoom) [] free ∧
      free.Pairwise (fun f g => f + g < pageRoom) ∧
      pageRoom * (free.length - 1) ≤ 2 * (free.map (pageRoom - ·)).sum :=
  pages_half_used (sampleTwo_reachable.mono fun _ _ _ => trivial) sampleTwo_find
    ⟨by decide, by decide⟩

end MicroSql
