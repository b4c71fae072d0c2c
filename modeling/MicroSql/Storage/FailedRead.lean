import MicroSql.Lib.Components
import MicroSql.Storage.FileRun
import MicroSql.Storage.Torn

/-!
# What a failed read leaves behind

A read behind the end of the file sets the flag of the stream.  `numPages` and `allocatePage`
clear the flag before they seek; `readPage` and `writePage` only test it.  So a failed read goes
unnoticed exactly if the next call is one of the former, or if the flag was set already.
-/

namespace MicroSql

open Lib

namespace FileCall

/-- The calls on the file at `path`, each made whatever those before it have returned. -/
abbrev machine (path : Str) : Machine FileState FileCall (Expected TableFileError FileReply) :=
  method path

/-- A read of a page fails, and the calls after it return what they return without it. -/
def HarmlessRead (path : Str) (s : FileState) (pageId : ℕ) (later : List FileCall) : Prop :=
  (∃ e, (TableFile.readPage pageId s).1 = .error e) ∧
    (machine path).trace (TableFile.readPage pageId s).2 later = (machine path).trace s later

variable {path : Str} {s : FileState}

/-! ### One call -/

/-- A call that names no page clears the stream first: the position and the flag do not matter. -/
theorem method_moveTo (hopen : s.1.file.isOpen = true) {call : FileCall}
    (htarget : call.target = none) (hcall : call ≠ reopen) (pos : ℕ) (failed : Bool) :
    call.method path (s.moveTo pos failed) = call.method path s := by
  have hopen' : (s.moveTo pos failed).1.file.isOpen = true := hopen
  cases call with
  | allocatePage =>
    have hsame : TableFile.allocatePage (s.moveTo pos failed) = TableFile.allocatePage s := by
      rw [TableFile.allocatePage_apply hopen', TableFile.allocatePage_apply hopen]
      rfl
    rw [method, Prog.bind_apply, hsame, Prog.bind_apply]
  | numPages =>
    have hsame : TableFile.numPages (s.moveTo pos failed) = TableFile.numPages s := by
      rw [TableFile.numPages_apply hopen', TableFile.numPages_apply hopen]
      rfl
    rw [method, Prog.bind_apply, hsame, Prog.bind_apply]
  | readPage i => cases htarget
  | writePage i data => cases htarget
  | reopen => exact absurd rfl hcall

/-- A call that names a page fails to seek it exactly if the flag is set. -/
theorem method_fails_to_seek_iff (hopen : s.1.file.isOpen = true) {call : FileCall} {i : ℕ}
    (htarget : call.target = some i) :
    (call.method path s).1 = .error (.error .failedToSeekPage) ↔ s.1.file.failed = true := by
  by_cases hfailed : s.1.file.failed = true
  · refine iff_of_true ?_ hfailed
    cases call with
    | readPage j => rw [method, Prog.bind_error (TableFile.readPage_failed hopen hfailed j)]
    | writePage j data => rw [method, Prog.bind_error (TableFile.writePage_failed hopen hfailed _)]
    | _ => cases htarget
  · have hclean : s.1.file.failed = false := by simpa using hfailed
    refine iff_of_false ?_ hfailed
    cases call with
    | readPage j =>
      have hrun := TableFile.readPage_apply hopen hclean j
      dsimp only at hrun
      split_ifs at hrun with hshort
      · rw [method, Prog.bind_error hrun]
        rintro ⟨⟩
      · rw [method, Prog.bind_ok hrun]
        rintro ⟨⟩
    | writePage j data =>
      have hrun := TableFile.writePage_apply hopen hclean { data := data, pageId := j }
      split_ifs at hrun with hfull
      · rw [method, Prog.bind_error hrun]
        rintro ⟨⟩
      · rw [method, Prog.bind_ok hrun]
        rintro ⟨⟩
    | _ => cases htarget

/-- A read behind the end of the file sets the flag. -/
theorem readPage_beyond (hopen : s.1.file.isOpen = true) (hclean : s.1.file.failed = false)
    {n pageId : ℕ} (hn : (TableFile.numPages s).1 = .ok n) (hid : n ≤ pageId) :
    ∃ pos, TableFile.readPage pageId s =
      (.error (.error .failedToReadPage), s.moveTo pos true) := by
  rw [TableFile.numPages_apply hopen] at hn
  obtain rfl : (s.bytes.length + pageSize - 1) / pageSize = n := Except.ok.inj hn
  have hshort : (slice s.bytes (pageId * pageSize) pageSize).length < pageSize := by
    simp only [slice, List.length_take, List.length_drop, pageSize] at hid ⊢
    omega
  rw [TableFile.readPage_apply hopen hclean, if_pos hshort]
  exact ⟨_, rfl⟩

/-! ### Whole sequences -/

/-- A failed read goes unnoticed if the flag was set before, or if the first call after it does not
need the flag to be clear. -/
theorem harmlessRead_iff (hopen : s.1.file.isOpen = true) {n pageId : ℕ}
    (hn : (TableFile.numPages s).1 = .ok n) (hid : n ≤ pageId) {later : List FileCall}
    (hlater : reopen ∉ later) :
    HarmlessRead path s pageId later ↔
      s.1.file.failed = true ∨ ∀ call ∈ later.head?, call.target = none := by
  rw [HarmlessRead]
  by_cases hfailed : s.1.file.failed = true
  · rw [TableFile.readPage_failed hopen hfailed]
    exact iff_of_true ⟨⟨_, rfl⟩, rfl⟩ (.inl hfailed)
  obtain ⟨pos, hread⟩ := readPage_beyond hopen (by simpa using hfailed) hn hid
  rw [hread]
  cases later with
  | nil => exact iff_of_true ⟨⟨_, rfl⟩, rfl⟩ (.inr nofun)
  | cons call calls =>
    simp only [List.mem_cons, not_or] at hlater
    cases htarget : call.target with
    | none =>
      refine iff_of_true ⟨⟨_, rfl⟩, ?_⟩ (.inr fun c hc => ?_)
      · rw [Machine.trace_cons, machine, method_moveTo hopen htarget (Ne.symm hlater.1)]
        rfl
      · obtain rfl : call = c := Option.some.inj hc
        exact htarget
    | some i =>
      refine iff_of_false ?_ ?_
      · rintro ⟨-, hsame⟩
        rw [Machine.trace_cons, Machine.trace_cons] at hsame
        have hhead := congrArg Prod.snd (List.cons.inj hsame).1
        dsimp only [machine] at hhead
        -- after the read the call fails to seek, so it would fail to seek without the read
        have hseek :=
          (@method_fails_to_seek_iff path (s.moveTo pos true) hopen call i htarget).2 rfl
        rw [hhead, method_fails_to_seek_iff hopen htarget] at hseek
        exact hfailed hseek
      · rintro (h | h)
        · exact hfailed h
        · rw [h call rfl] at htarget
          cases htarget

theorem isOpen_of_numPages {n : ℕ} (hn : (TableFile.numPages s).1 = .ok n) :
    s.1.file.isOpen = true := by
  by_contra hclosed
  have hc : s.1.file.isOpen = false := by simpa using hclosed
  have hcheck : TableFile.checkOpen s = (.error (.error .fileNotOpen), s) := by
    show (Prog.failIf (s.1.file.isOpen = false) _ : Prog FileState _ Unit) s = _
    rw [Prog.failIf_pos hc]
    rfl
  rw [TableFile.numPages, Prog.bind_error hcheck] at hn
  cases hn

/-- **When a failed read does no harm.**  After any calls on a table file, a read of a page that
`numPages` does not count fails; the later calls return what they would return without it if and
only if the stream had failed before it and was not cleared, or the first of them does not read or
write a page. -/
theorem failedRead_harmless_iff {before later : List FileCall} {n pageId : ℕ}
    (hn : (TableFile.numPages ((machine path).run s before)).1 = .ok n) (hid : n ≤ pageId)
    (hlater : reopen ∉ later) :
    HarmlessRead path ((machine path).run s before) pageId later ↔
      ((machine path).run s before).1.file.failed = true ∨
        ∀ call ∈ later.head?, call.target = none :=
  harmlessRead_iff (isOpen_of_numPages hn) hn hid hlater

/-- A file of one page has one page. -/
theorem numPages_onePage (path : Str) (block : Block pageSize) :
    (TableFile.numPages (FileState.opened path block.val)).1 = .ok 1 := by
  rw [TableFile.numPages_apply rfl, FileState.bytes_opened, block.property]
  rfl

/-- Page 0 is read after the pages have been counted again. -/
theorem failedRead_harmless_counted :
    HarmlessRead (str "t.ms") (FileState.opened (str "t.ms") (Page.init 0).data.val) 1
      [numPages, readPage 0] :=
  (@failedRead_harmless_iff _ _ [] _ _ _ (numPages_onePage _ _) (le_refl 1) (by simp)).2
    (.inr fun _ hc => Option.some.inj hc ▸ rfl)

/-- Page 0 is not read right after page 1 of a file of one page. -/
theorem not_failedRead_harmless :
    ¬∀ (path : Str) (s : FileState) (before later : List FileCall) (pageId n : ℕ),
      s.1.file.isOpen = true → (TableFile.numPages ((machine path).run s before)).1 = .ok n →
      n ≤ pageId → reopen ∉ later →
        HarmlessRead path ((machine path).run s before) pageId later := by
  intro h
  have hread := h (str "t.ms") (FileState.opened (str "t.ms") (Page.init 0).data.val) []
    [readPage 0] 1 1 rfl (numPages_onePage _ _) (le_refl 1) (by simp)
  rcases (harmlessRead_iff rfl (numPages_onePage _ _) (le_refl 1) (by simp)).1 hread with hf | hc
  · cases hf
  · cases hc _ rfl

end FileCall

end MicroSql
