import MicroSql.Storage.PageLayout

/-!
# Sequences of calls on a page

The slotted page refines a list of optional byte strings.  A sequence of calls of
the three methods that change a page, with any arguments, starts on a fresh page;
`PageCall.run` keeps the page and the calls that were accepted so far.  What the
accepted calls did to one slot is its history, and reading the slot returns the
last entry of it.
-/

namespace MicroSql

open Lib

/-- The bytes of a row whose length is a `uint16_t`. -/
abbrev RowBytes : Type := {bytes : List UInt8 // bytes.length < 65536}

/-- A call of a method that changes a page. -/
inductive PageCall
  | insertRow (row : RowBytes)
  | deleteRow (slotIndex : ℕ)
  | updateRow (slotIndex : ℕ) (row : RowBytes)

namespace PageCall

/-- The method that is called. -/
def method : PageCall → Prog Page (Failure PageError) Unit
  | insertRow row => Page.insertRow row.val row.val.length
  | deleteRow i => Page.deleteRow i
  | updateRow i row => do
    let _ ← Page.updateRow i row.val row.val.length
    return ()

/-- One call: the page it leaves, and the accepted calls with this one added unless
it returned an error. -/
def step (s : Page × List PageCall) (c : PageCall) : Page × List PageCall :=
  match c.method s.1 with
  | (.ok (), p) => (p, s.2 ++ [c])
  | (.error _, p) => (p, s.2)

/-- The calls `cs` on a fresh page. -/
def run (id : ℕ) (cs : List PageCall) : Page × List PageCall :=
  cs.foldl step (Page.init id, [])

/-! ### The histories of the slots -/

/-- The number of slots that accepted calls have added. -/
def added (log : List PageCall) : ℕ :=
  (log.filter fun | insertRow _ => true | _ => false).length

/-- What one accepted call does to slot `i` of a page with `n` slots: `some` the
bytes it stores there, or `none` for a deletion. -/
def effect (i n : ℕ) : PageCall → List (Option (List UInt8))
  | insertRow row => if n = i then [some row.val] else []
  | deleteRow j => if j = i then [none] else []
  | updateRow j row => if j = i then [some row.val] else []

/-- What the accepted calls `log` did to slot `i` of a page with `n` slots, in order. -/
def history (i : ℕ) : ℕ → List PageCall → List (Option (List UInt8))
  | _, [] => []
  | n, c :: log => effect i n c ++ history i (n + added [c]) log

theorem added_append (log log' : List PageCall) : added (log ++ log') = added log + added log' := by
  rw [added, List.filter_append, List.length_append, added, added]

theorem history_append (i n : ℕ) (log : List PageCall) (c : PageCall) :
    history i n (log ++ [c]) = history i n log ++ effect i (n + added log) c := by
  induction log generalizing n with
  | nil => simp [history, added]
  | cons d log ih =>
    have hadd : added (d :: log) = added [d] + added log := added_append [d] log
    rw [List.cons_append, history, ih, history, List.append_assoc, hadd, Nat.add_assoc]

/-! ### One call -/

/-- What an accepted call does to the sequence of slots. -/
def apply (slots : List (Option (List UInt8))) : PageCall → List (Option (List UInt8))
  | insertRow row => slots ++ [some row.val]
  | deleteRow i => slots.set i none
  | updateRow i row => slots.set i (some row.val)

/-- The slot that a call names exists. -/
def InBounds (n : ℕ) : PageCall → Prop
  | insertRow _ => True
  | deleteRow i => i < n
  | updateRow i _ => i < n

/-- A call on a well-formed page is accepted and has its effect on the slots, or it
returns an error and leaves the page as it was. -/
theorem method_spec {p : Page} (hp : p.WF) (c : PageCall) :
    (∃ q, c.method p = (.ok (), q) ∧ q.WF ∧ c.InBounds p.numSlots ∧ q.slots = c.apply p.slots) ∨
      ∃ e, c.method p = (.error (.error e), p) := by
  cases c with
  | insertRow row =>
    rcases hcall : Page.insertRow row.val row.val.length p with ⟨e | u, q⟩
    · obtain ⟨⟨pe, rfl⟩, rfl⟩ := Page.insertRow_eq_error hp (le_refl _) hcall
      exact .inr ⟨pe, hcall⟩
    · obtain ⟨h0, hroom, rfl⟩ := Page.insertRow_eq_ok hp (le_refl _) hcall
      rw [List.take_length] at hcall
      exact .inl ⟨_, hcall, Page.wf_inserted hp hroom, trivial, Page.slots_inserted hp hroom h0⟩
  | deleteRow i =>
    rcases hcall : Page.deleteRow i p with ⟨e | u, q⟩
    · obtain ⟨⟨pe, rfl⟩, rfl⟩ := Page.deleteRow_eq_error hp hcall
      exact .inr ⟨pe, hcall⟩
    · obtain ⟨hi, -, rfl⟩ := Page.deleteRow_eq_ok hp hcall
      exact .inl ⟨_, hcall, Page.wf_removed hp hi, hi, Page.slots_removed hp hi⟩
  | updateRow i row =>
    rcases hcall : Page.updateRow i row.val row.val.length p with ⟨e | off, q⟩
    · obtain ⟨⟨pe, rfl⟩, rfl⟩ := Page.updateRow_eq_error hp (le_refl _) hcall
      exact .inr ⟨pe, Prog.bind_error hcall _⟩
    · obtain ⟨hi, -, hq, hslots⟩ := Page.updateRow_eq_ok hp (le_refl _) hcall
      rw [List.take_length] at hslots
      exact .inl ⟨q, Prog.bind_ok hcall _, hq, hi, hslots⟩

/-! ### Whole sequences -/

/-- The page is well formed, and each slot holds the last entry of its history. -/
structure Tracks (p : Page) (log : List PageCall) : Prop where
  wf : p.WF
  numSlots : p.numSlots = added log
  slots : ∀ i, p.slots[i]? = (history i 0 log).getLast?

theorem tracks_init (id : ℕ) : Tracks (Page.init id) [] where
  wf := Page.wf_init id
  numSlots := Page.numSlots_init id
  slots := fun i => by simp [history]

/-- An accepted call changes the slots as its effects on their histories say. -/
theorem getElem?_apply {slots : List (Option (List UInt8))} {c : PageCall}
    (hb : c.InBounds slots.length) (i : ℕ) :
    (apply slots c)[i]? = (effect i slots.length c).getLast?.or slots[i]? := by
  cases c with
  | insertRow row =>
    rw [apply, effect, List.getElem?_append]
    by_cases hi : slots.length = i
    · simp [hi]
    rw [if_neg hi]
    split
    · rfl
    · rw [List.getElem?_eq_none (by simp only [List.length_singleton]; omega),
        List.getElem?_eq_none (by omega)]
      rfl
  | deleteRow j =>
    rw [apply, effect, List.getElem?_set]
    by_cases hi : j = i
    · subst hi
      rw [if_pos rfl, if_pos (show j < slots.length from hb), if_pos rfl]
      rfl
    · rw [if_neg hi, if_neg hi]
      rfl
  | updateRow j row =>
    rw [apply, effect, List.getElem?_set]
    by_cases hi : j = i
    · subst hi
      rw [if_pos rfl, if_pos (show j < slots.length from hb), if_pos rfl]
      rfl
    · rw [if_neg hi, if_neg hi]
      rfl

theorem Tracks.step {p : Page} {log : List PageCall} (h : Tracks p log) (c : PageCall) :
    Tracks (step (p, log) c).1 (step (p, log) c).2 := by
  rcases method_spec h.wf c with ⟨q, hc, hq, hb, hslots⟩ | ⟨e, hc⟩
  · have hlen : p.slots.length = added log := by rw [Page.length_slots, h.numSlots]
    rw [← Page.length_slots] at hb
    simp only [PageCall.step, hc]
    refine ⟨hq, ?_, fun i => ?_⟩
    · rw [← Page.length_slots, hslots, added_append, ← hlen]
      cases c <;> simp [apply, added]
    · rw [hslots, getElem?_apply hb, history_append, List.getLast?_append, h.slots i, hlen,
        Nat.zero_add]
  · simp only [PageCall.step, hc]
    exact h

theorem tracks_run (id : ℕ) (cs : List PageCall) : Tracks (run id cs).1 (run id cs).2 := by
  suffices h : ∀ s : Page × List PageCall, Tracks s.1 s.2 →
      Tracks (cs.foldl step s).1 (cs.foldl step s).2 from h _ (tracks_init id)
  induction cs with
  | nil => exact fun s hs => hs
  | cons c cs ih => exact fun s hs => ih _ (hs.step c)

end PageCall

/-- The answer of `readRow` that a slot with the given history calls for: a pointer
to the bytes and their number. -/
def Page.Answers (p : Page) (i : ℕ) : Option (Option (List UInt8)) → Prop
  | none => p.readRow i = .error (.error .slotOutOfBounds)
  | some none => p.readRow i = .error (.error .slotDeleted)
  | some (some row) => ∃ rest, p.readRow i = .ok (row ++ rest, row.length)

/-- `readRow` reads the slot. -/
theorem Page.readRow_answers {p : Page} (hp : p.WF) (i : ℕ) : p.Answers i p.slots[i]? := by
  rw [getElem?_slots]
  by_cases hi : i < p.numSlots
  · have hge : ¬i ≥ p.numSlots := by omega
    rw [if_pos hi, slot]
    by_cases hd : p.slotDeleted i = true
    · rw [if_pos hd, Answers, readRow, if_neg hge, if_pos hd]
    · have hlive : p.Live i := ⟨hi, slotDeleted_eq_false.1 (by simpa using hd)⟩
      have hlen : p.slotOffset i + p.slotLength i ≤ p.data.val.length := by
        rw [p.data.property]
        exact (hp.region i hlive).2
      rw [if_neg hd]
      refine ⟨p.data.val.drop (p.slotOffset i + p.slotLength i), ?_⟩
      rw [readRow, if_neg hge, if_neg hd, slice, ← List.drop_drop, List.take_append_drop,
        ← slice, length_slice hlen]
  · rw [if_neg hi, Answers, readRow, if_pos (by omega)]

/-- **The slotted page refines a list of optional byte strings.**  After any
sequence of calls on a fresh page the page is well formed, every slot reads as the
last entry of its history, and a further call either is accepted or returns an
error of the page and leaves all bytes as they were. -/
theorem page_refines_slots (id : ℕ) (cs : List PageCall) :
    let p := (PageCall.run id cs).1
    let accepted := (PageCall.run id cs).2
    p.WF ∧ (∀ i, p.Answers i (PageCall.history i 0 accepted).getLast?) ∧
      ∀ c : PageCall, (∃ q, c.method p = (.ok (), q)) ∨
        ∃ e q, c.method p = (.error (.error e), q) ∧ q.data = p.data := by
  have h := PageCall.tracks_run id cs
  refine ⟨h.wf, fun i => ?_, fun c => ?_⟩
  · rw [← h.slots i]
    exact Page.readRow_answers h.wf i
  · rcases PageCall.method_spec h.wf c with ⟨q, hc, -⟩ | ⟨e, hc⟩
    · exact .inl ⟨q, hc⟩
    · exact .inr ⟨e, _, hc, rfl⟩

end MicroSql
