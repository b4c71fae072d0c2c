import MicroSql.Storage.PageRun

/-!
# The free space of a page

`freeSpace()` is the difference of two 16-bit fields of the header.  An accepted insertion takes
the length of its row and that of a slot entry from it, an accepted update takes the length of a
row that has outgrown its slot, and no other call changes it.  The fields never wrap around, so
that the difference is what these calls have left of a fresh page.
-/

namespace MicroSql

open Lib

namespace PageCall

/-! ### What a call takes -/

/-- The bytes that a call writes at the free pointer. -/
def placed (p : Page) : PageCall → ℕ
  | insertRow row => row.val.length
  | deleteRow _ => 0
  | updateRow i row => if p.slotLength i < row.val.length then row.val.length else 0

/-- The slot whose entry a call writes. -/
def entry (p : Page) : PageCall → ℕ
  | insertRow _ => p.numSlots
  | deleteRow i => i
  | updateRow i _ => i

/-- What an accepted insertion takes of the free space. -/
def insertCost : Page × PageCall → ℕ
  | (_, insertRow row) => row.val.length + slotEntrySize
  | _ => 0

/-- What an accepted update takes of the free space: the length of a row that is longer than the
slot's length at that moment. -/
def updateCost : Page × PageCall → ℕ
  | (p, updateRow i row) => if p.slotLength i < row.val.length then row.val.length else 0
  | _ => 0

/-- The accepted ones of some calls, each with the page on which it was made. -/
def accepted (p : Page) : List PageCall → List (Page × PageCall)
  | [] => []
  | c :: cs =>
    match c.method p with
    | (.ok (), q) => (p, c) :: accepted q cs
    | (.error _, q) => accepted q cs

/-- The bytes that some rows need on a page. -/
def demand (rows : List RowBytes) : ℕ := (rows.map fun row => row.val.length + slotEntrySize).sum

/-- Each call takes what it writes at the free pointer, and a slot entry if it adds one. -/
theorem insertCost_add_updateCost (p : Page) (c : PageCall) :
    insertCost (p, c) + updateCost (p, c) = c.placed p + slotEntrySize * added [c] := by
  cases c with
  | insertRow row => rfl
  | deleteRow i => rfl
  | updateRow i row => exact Nat.zero_add _

/-! ### One call -/

/-- The page `q` is `p` after the call `c`, and every 16-bit field that the call has written holds
the exact number: none has wrapped around. -/
structure Exact (p : Page) (c : PageCall) (q : Page) : Prop where
  wf : q.WF
  numSlots : q.numSlots = p.numSlots + added [c]
  freePtr : (q.freePtr : ℤ) = p.freePtr - c.placed p
  entry : 0 < c.placed p →
    q.slotOffset (c.entry p) = q.freePtr ∧ q.slotLength (c.entry p) = c.placed p

/-- An accepted call writes exact numbers. -/
theorem exact_of_accepted {p q : Page} (hp : p.WF) {c : PageCall}
    (h : c.method p = (.ok (), q)) : Exact p c q := by
  have hspace := hp.freeSpace_eq
  cases c with
  | insertRow row =>
    obtain ⟨h0, hroom, rfl⟩ := Page.insertRow_eq_ok hp (le_refl _) h
    rw [List.take_length]
    have hfree := Page.freePtr_inserted hp row.val
    refine ⟨Page.wf_inserted hp hroom, Page.numSlots_inserted hp row.val, ?_, fun _ => ?_⟩
    · show ((p.inserted row.val).freePtr : ℤ) = p.freePtr - row.val.length
      omega
    · rw [hfree]
      exact ⟨Page.slotOffset_inserted_self hp hroom, Page.slotLength_inserted_self hp hroom⟩
  | deleteRow i =>
    obtain ⟨hi, -, rfl⟩ := Page.deleteRow_eq_ok hp h
    refine ⟨Page.wf_removed hp hi, Page.numSlots_removed, ?_, fun h0 => absurd h0 (lt_irrefl _)⟩
    rw [Page.freePtr_removed]
    exact (sub_zero _).symm
  | updateRow i row =>
    rcases hcall : Page.updateRow i row.val row.val.length p with ⟨e | off, q'⟩
    · rw [method, Prog.bind_error hcall] at h
      cases h
    rw [method, Prog.bind_ok hcall] at h
    obtain rfl : q' = q := congrArg Prod.snd h
    obtain ⟨hlive, h0, ⟨hgrow, hroom, hq⟩ | ⟨hle, hq⟩⟩ := Page.updateRow_cases hp (le_refl _) hcall
    · -- the row has outgrown its slot and is written at the free pointer
      rw [List.take_length] at hq
      subst hq
      have hplaced : (updateRow i row).placed p = row.val.length := if_pos hgrow
      have hfree := Page.freePtr_moved (i := i) hp row.val
      rw [hplaced.symm] at hfree
      refine ⟨Page.wf_moved hp hlive.1 hroom, Page.numSlots_moved hp hlive.1 hroom, ?_,
        fun _ => ?_⟩
      · omega
      · rw [hfree, hplaced]
        exact ⟨Page.slotOffset_moved_self hp hlive.1, Page.slotLength_moved_self hp hlive.1 hroom⟩
    · rw [List.take_length] at hq
      subst hq
      have hplaced : (updateRow i row).placed p = 0 := if_neg (Nat.not_lt.2 hle)
      refine ⟨Page.wf_rewritten hp hlive hle, Page.numSlots_rewritten hp hlive, ?_, fun hpos => ?_⟩
      · rw [hplaced, Page.freePtr_rewritten hp hlive]
        exact (sub_zero _).symm
      · exact absurd hpos (by rw [hplaced]; exact lt_irrefl 0)

/-- An accepted call takes its cost from the free space. -/
theorem Exact.freeSpace_add {p q : Page} {c : PageCall} (hp : p.WF) (h : Exact p c q) :
    q.freeSpace + insertCost (p, c) + updateCost (p, c) = p.freeSpace := by
  have hspace := hp.freeSpace_eq
  have hspace' := h.wf.freeSpace_eq
  have hdir := h.wf.dir_le
  have hfree := h.freePtr
  rw [h.numSlots] at hspace' hdir
  rw [Nat.add_assoc, insertCost_add_updateCost]
  simp only [headerSize, slotEntrySize] at *
  omega

/-- A call is accepted and takes its cost, or it leaves the page as it was. -/
theorem method_cases {p : Page} (hp : p.WF) (c : PageCall) :
    (∃ q, c.method p = (.ok (), q) ∧ Exact p c q) ∨
      ∃ e, c.method p = (.error (.error e), p) := by
  rcases method_spec hp c with ⟨q, hc, -⟩ | ⟨e, hc⟩
  · exact .inl ⟨q, hc, exact_of_accepted hp hc⟩
  · exact .inr ⟨e, hc⟩

/-- A call leaves as much free space as it takes no bytes of. -/
theorem freeSpace_method_le {p : Page} (hp : p.WF) (c : PageCall) :
    (c.method p).2.freeSpace ≤ p.freeSpace ∧
      (insertCost (p, c) + updateCost (p, c) = 0 → (c.method p).2.freeSpace = p.freeSpace) := by
  rcases method_cases hp c with ⟨q, hc, hq⟩ | ⟨e, hc⟩
  · have := hq.freeSpace_add hp
    rw [hc]
    exact ⟨by show q.freeSpace ≤ _; omega, fun h0 => by show q.freeSpace = _; omega⟩
  · rw [hc]
    exact ⟨le_refl _, fun _ => rfl⟩

/-! ### Whole sequences -/

/-- The accepted calls are those that the run has kept. -/
theorem map_snd_accepted (s : Page × List PageCall) (cs : List PageCall) :
    (cs.foldl step s).2 = s.2 ++ (accepted s.1 cs).map Prod.snd := by
  induction cs generalizing s with
  | nil => simp [accepted]
  | cons c cs ih =>
    rw [List.foldl_cons, ih, accepted, step]
    rcases c.method s.1 with ⟨e | u, q⟩
    · rfl
    · simp

/-- The accepted calls have taken their costs from the free space. -/
theorem freeSpace_foldl {s : Page × List PageCall} (hs : s.1.WF) (cs : List PageCall) :
    (cs.foldl step s).1.freeSpace + ((accepted s.1 cs).map insertCost).sum +
      ((accepted s.1 cs).map updateCost).sum = s.1.freeSpace := by
  induction cs generalizing s with
  | nil => rfl
  | cons c cs ih =>
    rcases method_cases hs c with ⟨q, hc, hq⟩ | ⟨e, hc⟩
    · have hstep : step s c = (q, s.2 ++ [c]) := by rw [step, hc]
      have hacc : accepted s.1 (c :: cs) = (s.1, c) :: accepted q cs := by rw [accepted, hc]
      have hrest := ih (s := (q, s.2 ++ [c])) hq.wf
      have hcost := hq.freeSpace_add hs
      rw [List.foldl_cons, hstep, hacc, List.map_cons, List.sum_cons, List.map_cons, List.sum_cons]
      dsimp only at hrest
      omega
    · have hstep : step s c = (s.1, s.2) := by rw [step, hc]
      have hacc : accepted s.1 (c :: cs) = accepted s.1 cs := by rw [accepted, hc]
      rw [List.foldl_cons, hstep, hacc]
      exact ih hs

/-- Insertions of rows that fit are accepted one after the other. -/
theorem foldl_insertRow {s : Page × List PageCall} (hs : s.1.WF) {rows : List RowBytes}
    (hrows : ∀ row ∈ rows, row.val ≠ []) (hfit : demand rows ≤ s.1.freeSpace) :
    ∃ q : Page, (rows.map insertRow).foldl step s = (q, s.2 ++ rows.map insertRow) ∧ q.WF ∧
      q.freeSpace + demand rows = s.1.freeSpace := by
  induction rows generalizing s with
  | nil => exact ⟨s.1, by simp, hs, rfl⟩
  | cons row rows ih =>
    have hsum : demand (row :: rows) = row.val.length + slotEntrySize + demand rows := by
      simp [demand]
    have h0 : row.val.length ≠ 0 := by simpa using hrows row (by simp)
    have hcall : (insertRow row).method s.1 = (.ok (), s.1.inserted row.val) := by
      rw [method, Page.insertRow_apply hs (le_refl _), if_neg h0, if_neg (by omega),
        List.take_length]
    have hq := exact_of_accepted hs hcall
    have hcost := hq.freeSpace_add hs
    simp only [insertCost, updateCost] at hcost
    have hstep : step s (insertRow row) = (s.1.inserted row.val, s.2 ++ [insertRow row]) := by
      rw [step, hcall]
    obtain ⟨q, hrun, hwf, hspace⟩ := ih (s := (s.1.inserted row.val, s.2 ++ [insertRow row]))
      hq.wf (fun row' hr => hrows row' (by simp [hr])) (by dsimp only; omega)
    refine ⟨q, ?_, hwf, ?_⟩
    · rw [List.map_cons, List.foldl_cons, hstep, hrun]
      simp
    · dsimp only at hspace
      omega

end PageCall

theorem Page.freeSpace_init (id : ℕ) : (Page.init id).freeSpace = pageSize - headerSize := by
  rw [(Page.wf_init id).freeSpace_eq, Page.freePtr_init, Page.numSlots_init]
  rfl

/-- **Free space is accounted exactly.**  After any calls on a fresh page the free space is what
the accepted ones have left of it, as the exact difference of the two fields.  A further call
writes exact numbers if it is accepted; whatever it returns, it never adds to the free space, and
leaves it unchanged if it is a deletion or an update whose row is no longer than the slot.
Insertions alone are accepted up to the first that no longer fits, and that one finds the page
full. -/
theorem freeSpace_exact (id : ℕ) (cs : List PageCall) :
    let p := (PageCall.run id cs).1
    let accepted := PageCall.accepted (Page.init id) cs
    accepted.map Prod.snd = (PageCall.run id cs).2 ∧
    (p.freeSpace : ℤ) = (pageSize - headerSize) -
      (accepted.map PageCall.insertCost).sum - (accepted.map PageCall.updateCost).sum ∧
    (p.freeSpace : ℤ) = p.freePtr - (headerSize + p.numSlots * slotEntrySize) ∧
    (∀ c q, c.method p = (.ok (), q) → PageCall.Exact p c q) ∧
    (∀ c : PageCall, (c.method p).2.freeSpace ≤ p.freeSpace) ∧
    (∀ i, ((PageCall.deleteRow i).method p).2.freeSpace = p.freeSpace) ∧
    (∀ i (row : RowBytes), row.val.length ≤ p.slotLength i →
      ((PageCall.updateRow i row).method p).2.freeSpace = p.freeSpace) ∧
    ∀ rows : List RowBytes, (∀ row ∈ rows, row.val ≠ []) →
      PageCall.demand rows ≤ pageSize - headerSize →
      (PageCall.run id (rows.map PageCall.insertRow)).2 = rows.map PageCall.insertRow ∧
      ∀ row : RowBytes, row.val ≠ [] → pageSize - headerSize < PageCall.demand (rows ++ [row]) →
        let full := (PageCall.run id (rows.map PageCall.insertRow)).1
        (PageCall.insertRow row).method full = (.error (.error .pageFull), full) := by
  have hwf : (PageCall.run id cs).1.WF := (PageCall.tracks_run id cs).wf
  have hsum := PageCall.freeSpace_foldl (s := (Page.init id, [])) (Page.wf_init id) cs
  rw [Page.freeSpace_init] at hsum
  refine ⟨?_, ?_, ?_, fun c q => PageCall.exact_of_accepted hwf,
    fun c => (PageCall.freeSpace_method_le hwf c).1,
    fun i => (PageCall.freeSpace_method_le hwf _).2 rfl, fun i row hle => ?_, ?_⟩
  · exact (PageCall.map_snd_accepted (Page.init id, []) cs).symm
  · show ((PageCall.run id cs).1.freeSpace : ℤ) = _
    simp only [pageSize, headerSize] at hsum ⊢
    simp only [PageCall.run]
    omega
  · have hspace := hwf.freeSpace_eq
    have hdir := hwf.dir_le
    simp only [headerSize, slotEntrySize] at hspace hdir ⊢
    omega
  · refine (PageCall.freeSpace_method_le hwf _).2 ?_
    show 0 + (if _ < row.val.length then row.val.length else 0) = 0
    rw [if_neg (Nat.not_lt.2 hle)]
  · intro rows hrows hfit
    obtain ⟨q, hrun, hq, hspace⟩ := PageCall.foldl_insertRow (s := (Page.init id, []))
      (Page.wf_init id) hrows (by rwa [Page.freeSpace_init])
    rw [Page.freeSpace_init] at hspace
    simp only [PageCall.run, hrun]
    refine ⟨List.nil_append _, fun row hrow hmore => ?_⟩
    have hlong : pageSize - headerSize <
        PageCall.demand rows + (row.val.length + slotEntrySize) := by
      simpa [PageCall.demand] using hmore
    rw [PageCall.method, Page.insertRow_apply hq (le_refl _), if_neg (by simpa using hrow),
      if_pos (by omega)]

end MicroSql
