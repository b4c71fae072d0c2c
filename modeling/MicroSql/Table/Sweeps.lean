import MicroSql.Lib.Sweep
import MicroSql.Table.Arrives

/-!
# Rewriting as a sweep over the rows

DELETE and UPDATE visit the rows of the table in order.  `MakesVisits` says that the body of their
loop decides about a row as a visit does, which sees the rows before it as they are by then and
those after it as they were; it may fail where the visit does not, for lack of room.  The
statement is then a sweep over the live rows: of the rows before the one where it stops, those on
the same page are kept as they were.
-/

namespace MicroSql

open Lib

variable {limit : ℕ} {body : ℕ → Page × ℕ → ℕ → Prog (List (Block pageSize)) (Failure ExecError)
  (Page × ℕ)} {bs cs : List (Block pageSize)} {k slot count : ℕ} {s : Page × ℕ}
  {b : Block pageSize} {p : Page} {columns : Schema} {act : RowAction} {K : List Row → Prop}
  {visit : Visit (Failure ExecError) Row} {limits : Limits (Failure ExecError)}
  {aside : Failure ExecError → Prop}

/-- Where the loop comes to a row, it goes on as `visit` says, or it stops as a sweep does: because
the visit fails, because what the visit leaves does not go into the page, or because the row is one
too many.  The failures `aside` are not considered. -/
structure MakesVisits (body : ℕ → Page × ℕ → ℕ → Prog (List (Block pageSize)) (Failure ExecError)
    (Page × ℕ)) (columns : Schema) (act : RowAction) (K : List Row → Prop)
    (visit : Visit (Failure ExecError) Row) (limits : Limits (Failure ExecError))
    (aside : Failure ExecError → Prop) : Prop where
  goes : ∀ {bs cs k slot b p count s'}, Walked columns act K bs cs k slot b p count →
    ∀ {row}, (p.rows columns)[slot]? = some (some row) →
    (body k (p, count) slot cs).1 = .ok s' → ∀ {c o}, act row = .ok (c, o) →
    visit (rowsBefore columns cs k p slot) row (rowsAfter columns cs k p slot) = .ok (c, o)
  stops : ∀ {bs cs k slot b p count e}, Walked columns act K bs cs k slot b p count →
    count < 2 ^ 31 → ∀ {row}, (p.rows columns)[slot]? = some (some row) →
    (body k (p, count) slot cs).1 = .error e → ¬aside e →
    StopsAt visit limits (rowsBefore columns cs k p slot) row (rowsAfter columns cs k p slot)
      count e
  skips : ∀ {bs cs k slot b p count}, Walked columns act K bs cs k slot b p count →
    (p.rows columns)[slot]? = some none → (body k (p, count) slot cs).1 = .ok (p, count)

/-- The live rows from slot `slot` of page `k` on, which is `p`. -/
def rowsFrom (columns : Schema) (bs : List (Block pageSize)) (k : ℕ) (p : Page) (slot : ℕ) :
    List Row :=
  ((p.rows columns).drop slot).reduceOption ++ liveRows columns (bs.drop (k + 1))

/-! ### The rows around a slot -/

theorem rowsBefore_zero (columns : Schema) (bs : List (Block pageSize)) (k : ℕ) (p : Page) :
    rowsBefore columns bs k p 0 = liveRows columns (bs.take k) := by
  rw [rowsBefore, List.take_zero]
  exact List.append_nil _

theorem rowsFrom_zero (hb : bs[k]? = some b) :
    rowsFrom columns bs k ⟨b, k⟩ 0 = liveRows columns (bs.drop k) := by
  obtain ⟨hk, rfl⟩ := List.getElem?_eq_some_iff.1 hb
  rw [rowsFrom, List.drop_zero, List.drop_eq_getElem_cons hk, ← List.singleton_append,
    liveRows_append]
  exact congrArg (· ++ _) (liveRows_singleton columns (blockPage bs[k])).symm

theorem rowsFrom_end : rowsFrom columns bs k p p.numSlots = liveRows columns (bs.drop (k + 1)) := by
  rw [rowsFrom, List.drop_of_length_le (by rw [Page.length_rows])]
  rfl

/-- Before the end of page `k` are the rows of the pages up to it. -/
theorem rowsBefore_end {n : ℕ} (hk : k < bs.length) (hn : p.numSlots = n) :
    rowsBefore columns bs k p n = liveRows columns ((bs.set k p.data).take (k + 1)) := by
  have hset : (bs.set k p.data)[k]? = some p.data := by
    rw [List.getElem?_set, if_pos rfl, if_pos hk]
  have hall : (p.rows columns).take n = p.rows columns :=
    List.take_of_length_le (by rw [Page.length_rows, hn])
  rw [liveRows_take_succ hset, List.take_set_of_le (le_refl k), rowsBefore, hall]
  rfl

theorem rowsBefore_succ (columns : Schema) (bs : List (Block pageSize)) (k : ℕ) {p : Page}
    {slot : ℕ} {o : Option Row} (h : (p.rows columns)[slot]? = some o) :
    rowsBefore columns bs k p (slot + 1) = rowsBefore columns bs k p slot ++ o.toList := by
  rw [rowsBefore, rowsBefore, List.take_add_one, h, List.reduceOption_append, List.append_assoc]
  cases o <;> rfl

theorem rowsFrom_eq {o : Option Row} (h : (p.rows columns)[slot]? = some o) :
    rowsFrom columns bs k p slot = o.toList ++ rowsAfter columns bs k p slot := by
  obtain ⟨hlt, hget⟩ := List.getElem?_eq_some_iff.1 h
  rw [rowsFrom, rowsAfter, List.drop_eq_getElem_cons hlt, hget]
  cases o <;> rfl

/-- What comes after a slot is what comes from the next one on. -/
theorem rowsAfter_eq : rowsAfter columns bs k p slot = rowsFrom columns bs k p (slot + 1) := rfl

/-! ### Slot after slot -/

section Loop

variable (hread : ∀ k s slot, (body k s slot).ReadOnly) (hact : ActsOnRow body columns act K)
  (hvisit : MakesVisits body columns act K visit limits aside) (h : TablePages bs)
  (hgood : GoodPages columns bs) (hK : K (liveRows columns bs))

include hread hact hvisit h hgood hK

/-- One slot more. -/
theorem Arrives.swept_step (ha : Arrives body bs cs k slot s) (hb : bs[k]? = some b)
    (hswept : Swept visit (rowsBefore columns bs k ⟨b, k⟩ slot) (rowsFrom columns bs k ⟨b, k⟩ slot)
      s.2 (rowsBefore columns cs k s.1 slot)) {s' : Page × ℕ}
    (hbody : (body k s slot cs).1 = .ok s') :
    Swept visit (rowsBefore columns bs k ⟨b, k⟩ (slot + 1))
      (rowsFrom columns bs k ⟨b, k⟩ (slot + 1)) s'.2 (rowsBefore columns cs k s'.1 (slot + 1)) := by
  obtain ⟨p, count⟩ := s
  obtain ⟨p', count'⟩ := s'
  obtain ⟨b', hw⟩ := ha.walked hread hact h hgood hK
  obtain rfl : b' = b := Option.some.inj (hw.page.symm.trans hb)
  obtain ⟨-, hp', -, hcase⟩ := hact cs k p count slot p' count' hw.table hw.goodPages hw.one_le
    hw.lt_length hw.good hw.pageId hw.lt_numSlots hw.keeps hbody
  have hlen : slot < (p.rows columns).length := by
    rw [Page.length_rows]
    exact hw.lt_numSlots
  rcases hcase with ⟨hnone, hrows, rfl⟩ | ⟨row, c, o, hrow, hrowact, hrows, rfl⟩
  · have hnone' := hw.slot_eq.symm.trans hnone
    have hsame : (p'.rows columns)[slot]? = some none := by rw [hrows, hnone]
    have hbefore : rowsBefore columns cs k p' slot = rowsBefore columns cs k p slot := by
      rw [rowsBefore, hrows, rowsBefore]
    rw [rowsBefore_succ _ _ _ hnone', rowsBefore_succ _ _ _ hsame, hbefore, Option.toList_none,
      List.append_nil, List.append_nil, ← rowsAfter_eq]
    rwa [rowsFrom_eq hnone', Option.toList_none, List.nil_append] at hswept
  · have hrow' := hw.slot_eq.symm.trans hrow
    have hset : (p'.rows columns)[slot]? = some o := by
      rw [hrows, List.getElem?_set, if_pos rfl, if_pos hlen]
    have hbefore : rowsBefore columns cs k p' slot = rowsBefore columns cs k p slot := by
      rw [rowsBefore, hrows, List.take_set_of_le (le_refl slot), rowsBefore]
    have hone := hvisit.goes hw hrow hbody hrowact
    rw [hw.after_eq] at hone
    rw [rowsBefore_succ _ _ _ hrow', rowsBefore_succ _ _ _ hset, hbefore, ← rowsAfter_eq]
    rw [rowsFrom_eq hrow'] at hswept
    exact hswept.snoc hone

/-- The slots before one to which the loop comes, given what it has made of the pages before. -/
theorem Passed.swept_slots (hp : Passed body bs k count cs) (hk : k < bs.length)
    (hb : bs[k]? = some b) (hswept : Swept visit (liveRows columns (bs.take k))
      (liveRows columns (bs.drop k)) count (liveRows columns (cs.take k)))
    (hslot : slot ≤ Page.numSlots ⟨b, k⟩)
    (hpart : ((List.range slot).foldlM (body k) (⟨b, k⟩, count) cs).1 = .ok s) :
    Swept visit (rowsBefore columns bs k ⟨b, k⟩ slot) (rowsFrom columns bs k ⟨b, k⟩ slot) s.2
      (rowsBefore columns cs k s.1 slot) := by
  have hread' := fun s slot => hread k s slot
  refine (foldlM_range_rule (J := fun i s =>
    ((List.range i).foldlM (body k) (⟨b, k⟩, count) cs).1 = .ok s ∧
      Swept visit (rowsBefore columns bs k ⟨b, k⟩ i) (rowsFrom columns bs k ⟨b, k⟩ i) s.2
        (rowsBefore columns cs k s.1 i)) hread' ⟨rfl, ?_⟩ ?_ hpart).2
  · rw [rowsBefore_zero, rowsBefore_zero, rowsFrom_zero hb]
    exact hswept
  · rintro i s₁ s₂ hi ⟨hpart, hswept⟩ hbody
    have ha : Arrives body bs cs k i s₁ :=
      ⟨hk, b, count, hb, hp.getElem?_eq.trans hb, hp, by omega, hpart⟩
    exact ⟨foldlM_range_succ hread' hpart hbody,
      ha.swept_step hread hact hvisit h hgood hK hb hswept hbody⟩

/-- The pages that the loop has passed. -/
theorem Passed.swept (hp : Passed body bs k count cs) (hk : k ≤ bs.length) :
    Swept visit (liveRows columns (bs.take k)) (liveRows columns (bs.drop k)) count
      (liveRows columns (cs.take k)) := by
  induction hp with
  | start =>
    have hnone : liveRows columns (bs.take 1) = [] := by
      rw [liveRows_take_succ h.reserved]
      exact congrArg List.reduceOption (Page.rows_init columns 0)
    rw [hnone]
    exact .nil _
  | @page k count count' cs b p' hp hb hloop ih =>
    have hb' : bs[k]? = some b := hp.getElem?_eq.symm.trans hb
    have hkc := (List.getElem?_eq_some_iff.1 hb).1
    have hslots := hp.swept_slots hread hact hvisit h hgood hK (by omega) hb' (ih (by omega))
      (le_refl _) hloop
    obtain ⟨hcs, hI⟩ := hp.pagesDone hread hact h hgood hK
    have hbg : ({ data := b, pageId := k } : Page).Good columns :=
      (hI.good b (List.mem_of_getElem? hb)).with_id k
    have hS := slotLoop_rows hread hact hcs hI.good hp.one_le hkc hbg rfl
      (by rw [rowsWith_read hb]; exact hI.keeps) hloop
    have hnum : p'.numSlots = Page.numSlots ⟨b, k⟩ := by
      have hlen := hS.length_eq
      rwa [Page.length_rows, Page.length_rows] at hlen
    have hall : rowsBefore columns bs k ⟨b, k⟩ (Page.numSlots ⟨b, k⟩) =
        liveRows columns (bs.take (k + 1)) := by
      have htake : (({ data := b, pageId := k } : Page).rows columns).take
          (Page.numSlots ⟨b, k⟩) = ({ data := b, pageId := k } : Page).rows columns :=
        List.take_of_length_le (by rw [Page.length_rows])
      rw [liveRows_take_succ hb', rowsBefore, htake]
      rfl
    rw [hall, rowsFrom_end, rowsBefore_end hkc hnum] at hslots
    exact hslots

end Loop

/-- **A rewriting statement is a sweep over the live rows.** -/
theorem rewritePages_sweeps (hread : ∀ k s slot, (body k s slot).ReadOnly)
    (hkeep : KeepsPages body) (hcounts : CountsInInt body)
    (hmost : limits.most = 2 ^ 31 - 1) (hact : ActsOnRow body columns act K)
    (hvisit : MakesVisits body columns act K visit limits aside) (h : TablePages bs)
    (hgood : GoodPages columns bs) (hK : K (liveRows columns bs))
    (haside : ∀ e, (rewritePages (pageArray limit) body bs).1 = .error e → ¬aside e) :
    Sweeps visit limits (liveRows columns bs) (rewritePages (pageArray limit) body bs).1
      (liveRows columns (rewritePages (pageArray limit) body bs).2) := by
  have hrule : Prog.Spec _ (rewritePages (pageArray limit) body) _ _ :=
    rewritePages_passed hread hkeep h
  have hspec := hrule bs rfl
  rcases hrun : rewritePages (pageArray limit) body bs with ⟨e | n, cs⟩ <;>
    rw [hrun] at hspec haside
  · obtain ⟨k, slot, s, ha, hfail⟩ := (rewritePages_stops_iff hread hkeep h).1 hrun
    obtain ⟨b, count, hb, hbc, hp, hslot, hpart⟩ := ha.comes
    obtain ⟨b', hw⟩ := ha.walked hread hact h hgood hK
    obtain rfl : b' = b := Option.some.inj (hw.page.symm.trans hb)
    have hpages := hp.swept hread hact hvisit h hgood hK ha.lt_length.le
    have hslots := hp.swept_slots hread hact hvisit h hgood hK ha.lt_length hb hpages hslot.le hpart
    obtain ⟨p, n⟩ := s
    have hcount : n < 2 ^ 31 :=
      foldlM_range_rule (J := fun _ s => s.2 < 2 ^ 31) (fun s slot => hread k s slot)
        (hp.count_lt hread hcounts)
        (fun i s s' _ hs hbody => hcounts _ _ s.1 s.2 i s'.1 s'.2 hbody hs) hpart
    rcases hw.good.slot_cases hw.lt_numSlots with ⟨-, hnone⟩ | ⟨-, -, row, -, -, hrow, -⟩
    · -- an empty slot is passed over
      rw [hvisit.skips hw hnone] at hfail
      cases hfail
    · have hrow' := hw.slot_eq.symm.trans hrow
      have hstop := hvisit.stops hw hcount hrow hfail (haside e rfl)
      rw [hw.after_eq] at hstop
      rw [rowsFrom_eq hrow'] at hslots
      -- the rows of the page up to the slot are as they were
      have hundone : liveRows columns (bs.drop k) =
          ((({ data := b', pageId := k } : Page).rows columns).take slot).reduceOption ++
            row :: rowsAfter columns bs k ⟨b', k⟩ slot := by
        obtain ⟨hlt, hget⟩ := List.getElem?_eq_some_iff.1 hrow'
        rw [← rowsFrom_zero hb, rowsFrom, List.drop_zero, rowsAfter]
        conv_lhs => rw [← List.take_append_drop slot
          (({ data := b', pageId := k } : Page).rows columns), List.drop_eq_getElem_cons hlt, hget,
          List.reduceOption_append, List.reduceOption_cons_of_some]
        rw [List.append_assoc, List.cons_append]
      have hrest : cs.drop k = bs.drop k := hp.drop_eq
      have hafter : liveRows columns cs = liveRows columns (cs.take k) ++
          liveRows columns (bs.drop k) := by
        conv_lhs => rw [← List.take_append_drop k cs, liveRows_append, hrest]
      rw [hafter, hundone]
      rw [hundone] at hpages
      have hle : n ≤ limits.most := hmost ▸ Nat.le_sub_one_of_lt hcount
      exact .stopped (liveRows_at_slot hb hrow') hslots hle hstop ⟨_, rfl, hpages⟩
  · obtain ⟨-, hlen, hp⟩ := hspec
    have hall := hp.swept hread hact hvisit h hgood hK (le_refl _)
    rw [List.take_length, List.drop_length, ← hlen, List.take_length] at hall
    refine .done hall ?_
    rw [hmost]
    exact Nat.le_sub_one_of_lt (hp.count_lt hread hcounts)

end MicroSql
