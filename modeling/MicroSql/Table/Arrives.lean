import MicroSql.Lib.Scan
import MicroSql.Table.Rewrite

/-!
# Slot after slot

DELETE and UPDATE come to one slot after the other.  `Arrives` says that they have come to a slot,
and what they have made of the pages and of the slots before it.  The loop fails exactly at a slot
to which it comes, and a loop that returns has come to every slot of the data pages.  On good pages
`Walked` says what this is on the rows: those before the slot have been acted on, the others are as
they were.
-/

namespace MicroSql

open Lib

variable {limit : ℕ} {body : ℕ → Page × ℕ → ℕ → Prog (List (Block pageSize)) (Failure ExecError)
  (Page × ℕ)} {bs cs : List (Block pageSize)} {k slot : ℕ} {s : Page × ℕ}

/-- The loop comes to slot `slot` of page `k`.  It has passed the pages before, which has made the
array `cs` of `bs`, and the slots before, which has made `s` of the page and the count. -/
structure Arrives (body : ℕ → Page × ℕ → ℕ → Prog (List (Block pageSize)) (Failure ExecError)
    (Page × ℕ)) (bs cs : List (Block pageSize)) (k slot : ℕ) (s : Page × ℕ) : Prop where
  lt_length : k < bs.length
  comes : ∃ b count, bs[k]? = some b ∧ cs[k]? = some b ∧ Passed body bs k count cs ∧
    slot < Page.numSlots ⟨b, k⟩ ∧ ((List.range slot).foldlM (body k) (⟨b, k⟩, count) cs).1 = .ok s

/-- A page that has not been passed is as it was. -/
theorem Passed.getElem?_eq {count : ℕ} (h : Passed body bs k count cs) : cs[k]? = bs[k]? := by
  have hrest := congrArg (·[0]?) h.drop_eq
  simpa using hrest

/-- The loop has come to every page that it has passed. -/
theorem Passed.exists_page {m count : ℕ} (h : Passed body bs m count cs) (hk : 1 ≤ k)
    (hkm : k < m) : ∃ ds n b s', Passed body bs k n ds ∧ ds[k]? = some b ∧
      (slotLoop body k ⟨b, k⟩ n ds).1 = .ok s' := by
  induction h with
  | start => omega
  | @page i n n' ds b p' h hb hloop ih =>
    by_cases hki : k = i
    · subst hki
      exact ⟨ds, n, b, _, h, hb, hloop⟩
    · exact ih (by omega)

/-- A body with more checks, none of which fails, comes to the same slots. -/
theorem Arrives.of_guards {body' : ℕ → Page × ℕ → ℕ → Prog (List (Block pageSize))
    (Failure ExecError) (Page × ℕ)} {bad : Failure ExecError}
    (hguards : ∀ k s slot, Prog.Guards bad (body' k s slot) (body k s slot))
    (hread : ∀ k s slot, (body' k s slot).ReadOnly) (hkeep : KeepsPages body')
    (h : TablePages bs) (hbad : (rewritePages (pageArray limit) body' bs).1 ≠ .error bad)
    (ha : Arrives body bs cs k slot s) : Arrives body' bs cs k slot s := by
  obtain ⟨b, count, hb, hbc, hp, hslot, hpart⟩ := ha.comes
  have hp' := hp.of_guards hguards hread hkeep h hbad ha.lt_length.le
  refine ⟨ha.lt_length, b, count, hb, hbc, hp', hslot, ?_⟩
  rcases Prog.Guards.foldlM (fun s slot => hguards k s slot) (List.range slot) (⟨b, k⟩, count) cs
    with heq | hfail
  · rw [heq]
    exact hpart
  · -- a check that fails before the slot fails in the whole loop
    obtain ⟨i, s', hi, hpre, herr⟩ := (foldlM_range_eq_error fun s i => hread k s i).1 hfail
    have hloop : (slotLoop body' k ⟨b, k⟩ count cs).1 = .error bad :=
      (foldlM_range_eq_error fun s i => hread k s i).2 ⟨i, s', by omega, hpre, herr⟩
    refine absurd ?_ hbad
    rw [hp'.rewritePages_error hread hkeep h hbc ha.lt_length hloop]

section Loop

variable (hread : ∀ k s slot, (body k s slot).ReadOnly) (hkeep : KeepsPages body)
  (h : TablePages bs)

include hread hkeep h

/-- The loop fails at a slot to which it comes, and leaves the array as it is then. -/
theorem rewritePages_stops_iff {e : Failure ExecError} :
    rewritePages (pageArray limit) body bs = (.error e, cs) ↔
      ∃ k slot s, Arrives body bs cs k slot s ∧ (body k s slot cs).1 = .error e := by
  constructor
  · intro hrun
    have hrule : Prog.Spec _ (rewritePages (pageArray limit) body) _ _ :=
      rewritePages_passed hread hkeep h
    obtain ⟨-, -, k, count, b, hk, hp, hb, hloop⟩ := hrule.error rfl hrun
    obtain ⟨slot, s, hslot, hpart, hfail⟩ :=
      (foldlM_range_eq_error fun s i => hread k s i).1 hloop
    exact ⟨k, slot, s, ⟨hk, b, count, hp.getElem?_eq.symm.trans hb, hb, hp, hslot, hpart⟩, hfail⟩
  · rintro ⟨k, slot, s, ⟨hk, b, count, -, hb, hp, hslot, hpart⟩, hfail⟩
    have hloop : (slotLoop body k ⟨b, k⟩ count cs).1 = .error e :=
      (foldlM_range_eq_error fun s i => hread k s i).2 ⟨slot, s, hslot, hpart, hfail⟩
    exact hp.rewritePages_error hread hkeep h hb hk hloop

theorem rewritePages_eq_error {e : Failure ExecError} :
    (rewritePages (pageArray limit) body bs).1 = .error e ↔
      ∃ cs k slot s, Arrives body bs cs k slot s ∧ (body k s slot cs).1 = .error e := by
  constructor
  · intro herr
    exact ⟨_, (rewritePages_stops_iff hread hkeep h).1 (Prod.ext herr rfl)⟩
  · rintro ⟨cs, hstop⟩
    rw [(rewritePages_stops_iff hread hkeep h).2 hstop]

/-- A loop that returns has come to every slot of the data pages, and has passed it. -/
theorem rewritePages_arrives {n : ℕ} (hok : (rewritePages (pageArray limit) body bs).1 = .ok n)
    {b : Block pageSize} (hk : 1 ≤ k) (hb : bs[k]? = some b) (hslot : slot < Page.numSlots ⟨b, k⟩) :
    ∃ cs s s', Arrives body bs cs k slot s ∧ (body k s slot cs).1 = .ok s' := by
  have hkn := (List.getElem?_eq_some_iff.1 hb).1
  have hrule : Prog.Spec _ (rewritePages (pageArray limit) body) _ _ :=
    rewritePages_passed hread hkeep h
  obtain ⟨-, -, hall⟩ := hrule.ok rfl (Prod.ext hok rfl)
  obtain ⟨cs, count, b', s', hp, hb', hloop⟩ := hall.exists_page hk hkn
  obtain rfl : b' = b := Option.some.inj (hb'.symm.trans (hp.getElem?_eq.trans hb))
  obtain ⟨s₁, s₂, hpart, hstep⟩ := foldlM_range_passes (fun s i => hread k s i) hloop hslot
  exact ⟨cs, s₁, s₂, ⟨hkn, b', count, hb, hb', hp, hslot, hpart⟩, hstep⟩

end Loop

/-! ### The rows when the loop comes to a slot -/

/-- The live rows before slot `slot` of page `k`, which is `p`. -/
def rowsBefore (columns : Schema) (bs : List (Block pageSize)) (k : ℕ) (p : Page) (slot : ℕ) :
    List Row :=
  liveRows columns (bs.take k) ++ ((p.rows columns).take slot).reduceOption

/-- The live rows after slot `slot` of page `k`, which is `p`. -/
def rowsAfter (columns : Schema) (bs : List (Block pageSize)) (k : ℕ) (p : Page) (slot : ℕ) :
    List Row :=
  ((p.rows columns).drop (slot + 1)).reduceOption ++ liveRows columns (bs.drop (k + 1))

section Rows

variable {columns : Schema} {act : RowAction} {K : List Row → Prop}

/-- The live rows around the row of a slot. -/
theorem liveRows_at_slot (hb : bs[k]? = some b) {row : Row}
    (hrow : ((⟨b, k⟩ : Page).rows columns)[slot]? = some (some row)) :
    liveRows columns bs =
      rowsBefore columns bs k ⟨b, k⟩ slot ++ row :: rowsAfter columns bs k ⟨b, k⟩ slot := by
  have hslot : slot < Page.numSlots ⟨b, k⟩ := by
    rw [← Page.length_rows columns]
    exact (List.getElem?_eq_some_iff.1 hrow).1
  rw [← rowsWith_read hb]
  exact rowsWith_split hslot hrow

/-- Every live row is the row of a slot of a data page. -/
theorem exists_slot_of_liveRows (h : TablePages bs) {row : Row} {before after : List Row}
    (hrows : liveRows columns bs = before ++ row :: after) :
    ∃ (k : ℕ) (b : Block pageSize) (slot : ℕ), 1 ≤ k ∧ bs[k]? = some b ∧
      ((⟨b, k⟩ : Page).rows columns)[slot]? = some (some row) ∧
      before = rowsBefore columns bs k ⟨b, k⟩ slot ∧
      after = rowsAfter columns bs k ⟨b, k⟩ slot := by
  obtain ⟨k, b, u, v, hb, hpage, rfl, rfl⟩ := flatMap_eq_append_cons hrows
  obtain ⟨slot, hslot, rfl, rfl⟩ := reduceOption_eq_append_cons hpage
  refine ⟨k, b, slot, ?_, hb, hslot, rfl, rfl⟩
  -- page 0 has no rows
  by_contra hk
  obtain rfl : k = 0 := by omega
  rw [h.reserved] at hb
  cases hb
  have hempty : (blockPage (Page.init 0).data).rows columns = [] := Page.rows_init columns 0
  rw [hempty] at hslot
  simp at hslot

/-- What the loop has made of the rows when it comes to slot `slot` of page `k`: it has acted on
those before, of which it has counted `count`, and those from the slot on are as they were.  Page
`k` was `b` and is `p`. -/
structure Walked (columns : Schema) (act : RowAction) (K : List Row → Prop)
    (bs cs : List (Block pageSize)) (k slot : ℕ) (b : Block pageSize) (p : Page) (count : ℕ) :
    Prop where
  one_le : 1 ≤ k
  lt_length : k < cs.length
  table : TablePages cs
  goodPages : GoodPages columns cs
  page : bs[k]? = some b
  lt_numSlots : slot < p.numSlots
  pageId : p.pageId = k
  good : p.Good columns
  keeps : K (rowsWith columns cs k p)
  done : Rewrites act (rowsBefore columns bs k ⟨b, k⟩ slot) (rowsBefore columns cs k p slot) count
  slot_eq : (p.rows columns)[slot]? = ((⟨b, k⟩ : Page).rows columns)[slot]?
  after_eq : rowsAfter columns cs k p slot = rowsAfter columns bs k ⟨b, k⟩ slot

theorem Arrives.walked (hread : ∀ k s slot, (body k s slot).ReadOnly)
    (hact : ActsOnRow body columns act K) (h : TablePages bs) (hgood : GoodPages columns bs)
    (hK : K (liveRows columns bs)) (ha : Arrives body bs cs k slot s) :
    ∃ b, Walked columns act K bs cs k slot b s.1 s.2 := by
  obtain ⟨b, count, hb, hbc, hp, hslot, hpart⟩ := ha.comes
  obtain ⟨hcs, hI⟩ := hp.pagesDone hread hact h hgood hK
  have hkn := (List.getElem?_eq_some_iff.1 hbc).1
  have hbg : ({ data := b, pageId := k } : Page).Good columns :=
    (hI.good b (List.mem_of_getElem? hbc)).with_id k
  have hS : SlotsDone columns act K cs k ⟨b, k⟩ count slot s :=
    foldlM_range_rule (fun s slot => hread k s slot)
      ⟨rfl, hbg, by rw [rowsWith_read hbc]; exact hI.keeps, ⟨0, Rewrites.nil act, rfl⟩, rfl, rfl⟩
      (fun i s s' hi hs hb => hs.step hact hcs hI.good hp.one_le hkn (by omega) hb) hpart
  obtain ⟨n, hdone, hcount⟩ := hS.done
  have hlen := hS.length_eq
  rw [Page.length_rows, Page.length_rows] at hlen
  refine ⟨b, hp.one_le, hkn, hcs, hI.good, hb, by omega, hS.pageId, hS.good, hS.keeps,
    hcount ▸ hI.done.append hdone, ?_, ?_⟩
  · have hrest := congrArg (·[0]?) hS.rest
    simpa using hrest
  · have hrest : cs.drop (k + 1) = bs.drop (k + 1) := by
      rw [← List.drop_drop, hI.rest, List.drop_drop]
    have hslots : (s.1.rows columns).drop (slot + 1) =
        ((⟨b, k⟩ : Page).rows columns).drop (slot + 1) := by
      rw [← List.drop_drop, hS.rest, List.drop_drop]
    rw [rowsAfter, rowsAfter, hrest, hslots]

end Rows

end MicroSql
