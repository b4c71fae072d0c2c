import Mathlib.Data.List.Range
import MicroSql.Storage.PageArray

/-!
# Sequences of calls on a table file

The methods of a table file in any order, with the file closed and opened again in between.  What
a call returns follows from the calls before it: how many of them were allocations, and which was
the last to write a page.
-/

namespace MicroSql

open Lib

/-- A call of a method of a table file, or closing and reopening it. -/
inductive FileCall
  | allocatePage
  | readPage (pageId : ℕ)
  | writePage (pageId : ℕ) (data : Block pageSize)
  | numPages
  | reopen

/-- What a call returns. -/
inductive FileReply
  | pageId (n : ℕ)
  | page (p : Page)
  | written
  | count (n : ℕ)
  | opened

namespace FileCall

/-- The method that is called, on the file at `path`. -/
def method (path : Str) : FileCall → Prog FileState (Failure TableFileError) FileReply
  | allocatePage => do return .pageId (← TableFile.allocatePage)
  | readPage pageId => do return .page (← TableFile.readPage pageId)
  | writePage pageId data => do
    TableFile.writePage { data := data, pageId := pageId }
    return .written
  | numPages => do return .count (← TableFile.numPages)
  | reopen => do
    TableFile.close
    TableFile.open path
    return .opened

/-- The page that a call reads or writes. -/
def target : FileCall → Option ℕ
  | readPage pageId => some pageId
  | writePage pageId _ => some pageId
  | _ => none

/-! ### Histories -/

/-- The number of pages that some calls have allocated. -/
def allocations (calls : List FileCall) : ℕ :=
  (calls.filter fun | allocatePage => true | _ => false).length

/-- What a call writes to page `i`. -/
def writes (i : ℕ) : FileCall → Option (Block pageSize)
  | writePage pageId data => if pageId = i then some data else none
  | _ => none

/-- The bytes of page `i` after some calls: those of the last write to it, else those of a fresh
page. -/
def contents (calls : List FileCall) (i : ℕ) : Block pageSize :=
  ((calls.filterMap (writes i)).getLast?).getD (Page.init i).data

/-- What a call should return after some calls. -/
def reply (before : List FileCall) : FileCall → FileReply
  | allocatePage => .pageId (allocations before)
  | readPage pageId => .page { data := contents before pageId, pageId := pageId }
  | writePage _ _ => .written
  | numPages => .count (allocations before)
  | reopen => .opened

/-- What each of some calls should return, after others. -/
def replies : List FileCall → List FileCall → List FileReply
  | _, [] => []
  | before, call :: calls => call.reply before :: replies (before ++ [call]) calls

/-- Every call reads or writes a page that was allocated before it. -/
def InBounds (calls : List FileCall) : Prop :=
  ∀ before call after, calls = before ++ call :: after →
    ∀ i ∈ call.target, i < allocations before

theorem allocations_append (calls calls' : List FileCall) :
    allocations (calls ++ calls') = allocations calls + allocations calls' := by
  rw [allocations, List.filter_append, List.length_append, allocations, allocations]

theorem InBounds.of_append {calls calls' : List FileCall} (h : InBounds (calls ++ calls')) :
    InBounds calls := by
  rintro before call after rfl
  exact h before call (after ++ calls') (by simp)

theorem InBounds.nil : InBounds [] := by
  intro before call after h
  cases before <;> cases h

theorem InBounds.concat {calls : List FileCall} (h : InBounds calls) {c : FileCall}
    (hcall : ∀ i ∈ c.target, i < allocations calls) : InBounds (calls ++ [c]) := by
  intro before call' after heq
  rcases List.eq_nil_or_concat' after with rfl | ⟨after, last, rfl⟩
  · obtain ⟨rfl, hsame⟩ := List.append_inj' heq rfl
    cases hsame
    exact hcall
  · refine h before call' after ?_
    rw [← List.cons_append, ← List.append_assoc] at heq
    exact (List.append_inj' heq rfl).1

/-- A call that does not write page `i` leaves it as it was. -/
theorem contents_append_of_none {calls : List FileCall} {call : FileCall} {i : ℕ}
    (h : writes i call = none) : contents (calls ++ [call]) i = contents calls i := by
  simp [contents, h]

theorem contents_append_write (calls : List FileCall) (i : ℕ) (data : Block pageSize) (j : ℕ) :
    contents (calls ++ [writePage i data]) j = if i = j then data else contents calls j := by
  by_cases h : i = j
  · simp [contents, writes, h]
  · simp [contents, writes, h]

/-- A page that has not been allocated has not been written. -/
theorem contents_of_le {calls : List FileCall} (h : InBounds calls) {i : ℕ}
    (hi : allocations calls ≤ i) : contents calls i = (Page.init i).data := by
  have hnone : ∀ call ∈ calls, writes i call = none := by
    intro call hcall
    obtain ⟨before, after, rfl⟩ := List.append_of_mem hcall
    have htarget := h before call after rfl
    rw [allocations_append] at hi
    cases call with
    | writePage pageId data =>
      have hlt := htarget pageId rfl
      rw [writes, if_neg (by omega)]
    | _ => rfl
  rw [contents, List.filterMap_eq_nil_iff.2 hnone]
  rfl

/-- The pages of the file after some calls. -/
def pages (calls : List FileCall) : List (Block pageSize) :=
  (List.range (allocations calls)).map (contents calls)

@[simp] theorem length_pages (calls : List FileCall) :
    (pages calls).length = allocations calls := by simp [pages]

theorem getElem?_pages {calls : List FileCall} {i : ℕ} (h : i < allocations calls) :
    (pages calls)[i]? = some (contents calls i) := by
  rw [pages, List.getElem?_map, List.getElem?_range h]
  rfl

/-- A call that neither allocates nor writes leaves all pages as they were. -/
theorem pages_append_of_none {calls : List FileCall} {call : FileCall}
    (hwrites : ∀ i, writes i call = none) (halloc : allocations [call] = 0) :
    pages (calls ++ [call]) = pages calls := by
  rw [pages, allocations_append, halloc, Nat.add_zero, pages]
  exact List.map_congr_left fun i _ => contents_append_of_none (hwrites i)

theorem pages_append_allocate {calls : List FileCall} (h : InBounds calls) :
    pages (calls ++ [allocatePage]) = pages calls ++ [(Page.init (allocations calls)).data] := by
  have halloc : allocations [allocatePage] = 1 := rfl
  rw [pages, allocations_append, halloc, List.range_succ, List.map_append, List.map_singleton,
    contents_append_of_none rfl, contents_of_le h (le_refl _), pages]
  congr 1
  exact List.map_congr_left fun i _ => contents_append_of_none rfl

theorem pages_append_write (calls : List FileCall) {i : ℕ} (hi : i < allocations calls)
    (data : Block pageSize) :
    pages (calls ++ [writePage i data]) = Block.put (pages calls) i data := by
  have halloc : allocations [writePage i data] = 0 := rfl
  rw [Block.put_of_lt (by rwa [length_pages])]
  refine List.ext_getElem? fun j => ?_
  by_cases hj : j < allocations calls
  · rw [getElem?_pages (by rwa [allocations_append, halloc]), contents_append_write,
      List.getElem?_set, getElem?_pages hj, length_pages, if_pos hi]
    split <;> rfl
  · have hlen : (pages (calls ++ [writePage i data])).length ≤ j := by
      rw [length_pages, allocations_append, halloc]
      omega
    rw [List.getElem?_eq_none hlen, List.getElem?_eq_none (by simpa using hj)]

/-! ### One call -/

section Run

variable {base : FileSystem} {path : Str} {s : FileState}

/-- Closing a file and opening it again finds the same pages. -/
theorem reopen_apply {bs : List (Block pageSize)} (h : BacksClean base path s bs)
    (hread : base.mayRead path = true) (hwrite : base.mayWrite path = true) :
    ∃ s', reopen.method path s = (.ok .opened, s') ∧ BacksClean base path s' bs := by
  obtain ⟨t, fs⟩ := s
  obtain rfl : fs = base.put path (Block.flat bs) := h.fs_eq
  have hfile : (base.put path (Block.flat bs)).files path = some (Block.flat bs) := by
    rw [FileSystem.files_put, if_pos rfl]
  have hread' : (base.put path (Block.flat bs)).mayRead path = true := hread
  have hwrite' : (base.put path (Block.flat bs)).mayWrite path = true := hwrite
  refine ⟨({ filePath := path, file := { path := path, isOpen := true } },
    base.put path (Block.flat bs)), ?_, ⟨⟨rfl, rfl, rfl, rfl⟩, rfl⟩⟩
  rw [method, TableFile.close, Prog.modify_bind_apply, TableFile.open, bind_assoc,
    Prog.modify_bind_apply]
  simp only [hfile, hread', hwrite', Bool.not_false, Option.isSome_some, Bool.and_self, if_true]
  rfl

/-- One call replies what its history says and leaves the pages that it says. -/
theorem method_apply {before : List FileCall} {call : FileCall}
    (hbounds : InBounds (before ++ [call]))
    (hroom : allocations (before ++ [call]) * pageSize ≤ base.limit)
    (hread : base.mayRead path = true) (hwrite : base.mayWrite path = true)
    (h : BacksClean base path s (pages before)) :
    ∃ s', call.method path s = (.ok (call.reply before), s') ∧
      BacksClean base path s' (pages (before ++ [call])) := by
  have htarget := hbounds before call [] rfl
  cases call with
  | allocatePage =>
    have halloc : allocations (before ++ [allocatePage]) = allocations before + 1 :=
      allocations_append _ _
    rw [halloc, Nat.add_mul, Nat.one_mul] at hroom
    have hmany : allocations before < 2 ^ 32 := by
      have := base.limit_le
      simp only [maxFileSize, pageSize] at this hroom
      omega
    have hrun := allocatePage_apply base.limit (pages before)
    rw [length_pages, if_neg (by omega), Nat.mod_eq_of_lt hmany] at hrun
    rw [pages_append_allocate hbounds.of_append]
    rcases sim_allocatePage.elim h.toBacks with ⟨a, s', bs', hc, hd, hq⟩ | ⟨e, s', bs', -, hd, -⟩
    · rw [hrun] at hd
      cases hd
      exact ⟨s', by rw [method, Prog.bind_ok hc]; rfl, hq⟩
    · rw [hrun] at hd
      cases hd
  | readPage i =>
    have hi := htarget i rfl
    have hrun : (pageArray base.limit).readPage i (pages before) =
        (.ok { data := contents before i, pageId := i }, pages before) := by
      simp only [pageArray, Prog.gets_bind_apply, id_eq, getElem?_pages hi, Prog.pure_apply]
    rw [pages_append_of_none (fun _ => rfl) rfl]
    rcases (sim_readPage base.limit i).elim h with ⟨a, s', bs', hc, hd, hq⟩ | ⟨e, s', bs', -, hd, -⟩
    · rw [hrun] at hd
      cases hd
      exact ⟨s', by rw [method, Prog.bind_ok hc]; rfl, hq⟩
    · rw [hrun] at hd
      cases hd
  | writePage i data =>
    have hi := htarget i rfl
    have hfull : ¬max base.limit ((pages before).length * pageSize) <
        i * pageSize + pageSize := by
      have := Nat.mul_le_mul_right pageSize hi
      rw [length_pages]
      rw [Nat.succ_mul] at this
      omega
    have hrun : (pageArray base.limit).writePage { data := data, pageId := i } (pages before) =
        (.ok (), Block.put (pages before) i data) := by
      simp only [pageArray, Prog.gets_bind_apply, id_eq, Prog.failIf_neg hfull,
        Prog.pure_bind_apply, Prog.modify_apply]
    rw [pages_append_write before hi]
    rcases (sim_writePage { data := data, pageId := i }).elim h with
      ⟨a, s', bs', hc, hd, hq⟩ | ⟨e, s', bs', -, hd, -⟩
    · rw [hrun] at hd
      cases hd
      exact ⟨s', by rw [method, Prog.bind_ok hc]; rfl, hq⟩
    · rw [hrun] at hd
      cases hd
  | numPages =>
    rw [pages_append_of_none (fun _ => rfl) rfl]
    refine ⟨s.moveTo ((pages before).length * pageSize) false, ?_, h.toBacks.moveTo _ _, rfl⟩
    rw [method, Prog.bind_ok (numPages_apply h.toBacks), length_pages]
    rfl
  | reopen =>
    rw [pages_append_of_none (fun _ => rfl) rfl]
    exact reopen_apply h hread hwrite

/-- The calls reply what their histories say. -/
theorem mapM_method {before calls : List FileCall} (hbounds : InBounds (before ++ calls))
    (hroom : allocations (before ++ calls) * pageSize ≤ base.limit)
    (hread : base.mayRead path = true) (hwrite : base.mayWrite path = true)
    (h : BacksClean base path s (pages before)) :
    ∃ s', calls.mapM (method path) s = (.ok (replies before calls), s') ∧
      BacksClean base path s' (pages (before ++ calls)) := by
  induction calls generalizing before s with
  | nil => exact ⟨s, rfl, by rwa [List.append_nil]⟩
  | cons call calls ih =>
    have hsplit : before ++ call :: calls = before ++ [call] ++ calls := by simp
    rw [hsplit] at hbounds hroom ⊢
    have hroom' : allocations (before ++ [call]) * pageSize ≤ base.limit := by
      rw [allocations_append, Nat.add_mul] at hroom
      exact (Nat.le_add_right _ _).trans hroom
    obtain ⟨s₁, hrun₁, h₁⟩ := method_apply hbounds.of_append hroom' hread hwrite h
    obtain ⟨s₂, hrun₂, h₂⟩ := ih hbounds hroom h₁
    refine ⟨s₂, ?_, h₂⟩
    rw [List.mapM_cons, Prog.bind_ok hrun₁, Prog.bind_ok hrun₂]
    rfl

end Run

/-- **A table file is an array of pages**: on a file that is open and empty, any calls whose
pages exist when they are made reply what the calls before them say, and in the end the file is
made of the pages that all of them say. -/
theorem run_replies {base : FileSystem} {path : Str} {s : FileState} (calls : List FileCall)
    (hempty : BacksClean base path s []) (hread : base.mayRead path = true)
    (hwrite : base.mayWrite path = true) (hbounds : InBounds calls)
    (hroom : allocations calls * pageSize ≤ base.limit) :
    ∃ s', calls.mapM (method path) s = (.ok (replies [] calls), s') ∧
      s'.2.files path = some (Block.flat (pages calls)) := by
  obtain ⟨s', hrun, h⟩ : ∃ s', calls.mapM (method path) s = (.ok (replies [] calls), s') ∧
      BacksClean base path s' (pages ([] ++ calls)) :=
    mapM_method hbounds hroom hread hwrite hempty
  refine ⟨s', hrun, ?_⟩
  rw [h.fs_eq, FileSystem.files_put, if_pos rfl]
  rfl

/-- A page is written, and read again after the file has been reopened. -/
theorem run_replies_reopened : ∃ s', [allocatePage, writePage 0 (Block.zero pageSize), reopen,
      readPage 0].mapM (method (str "t.ms")) ({ filePath := str "t.ms", file :=
        { path := str "t.ms", isOpen := true } },
        FileSystem.put ⟨fun _ => none, fun _ => true, fun _ => true, maxFileSize, le_refl _⟩
          (str "t.ms") []) =
      (.ok [.pageId 0, .written, .opened, .page { data := Block.zero pageSize, pageId := 0 }], s') ∧
    s'.2.files (str "t.ms") = some (List.replicate pageSize 0 ++ []) := by
  have hone : InBounds [allocatePage, writePage 0 (Block.zero pageSize)] :=
    (InBounds.nil.concat (c := allocatePage) nofun).concat (by simp [target, allocations])
  have htwo := hone.concat (c := reopen) nofun
  have hbounds := htwo.concat (c := readPage 0) (by simp [target, allocations])
  exact run_replies [allocatePage, writePage 0 (Block.zero pageSize), reopen, readPage 0]
    ⟨⟨rfl, rfl, rfl, rfl⟩, rfl⟩ rfl rfl hbounds (by decide)

end FileCall

end MicroSql
