import MicroSql.Storage.PageArray

/-!
# A file whose last page is torn

An append that is interrupted leaves a file whose length is not a multiple of the page size.
`numPages` counts the torn page, `readPage` needs whole pages, and `allocatePage` appends the new
page to the raw end of the file.  The three agree about the pages exactly when the length is a
multiple of the page size.
-/

namespace MicroSql

open Lib

/-- A table file that has just been opened, alone in its file system. -/
def FileState.opened (path : Str) (bytes : List UInt8) : FileState :=
  ({ filePath := path, file := { path := path, isOpen := true } },
    FileSystem.put ⟨fun _ => none, fun _ => true, fun _ => true, maxFileSize, le_refl _⟩ path bytes)

@[simp] theorem FileState.bytes_opened (path : Str) (bytes : List UInt8) :
    (FileState.opened path bytes).bytes = bytes := FileSystem.contents_put_self _ _ _

namespace TableFile

/-- Every page that `numPages` counts can be read. -/
def CountsReadable (s : FileState) : Prop :=
  ∀ n s', numPages s = (.ok n, s') → ∀ i < n, ∃ page, (readPage i s').1 = .ok page

/-- A page that has been allocated is read as a fresh page, and the complete pages of the file are
read as before. -/
def AllocatesReadable (s : FileState) : Prop :=
  ∀ k s', allocatePage s = (.ok k, s') →
    (readPage k s').1 = .ok (Page.init k) ∧
    ∀ i, (i + 1) * pageSize ≤ s.bytes.length →
      ∃ page, (readPage i (numPages s).2).1 = .ok page ∧ (readPage i s').1 = .ok page

/-- The numbering of the pages survives an append that was interrupted. -/
def SurvivesTornAppend (s : FileState) : Prop := CountsReadable s ∧ AllocatesReadable s

variable {s : FileState} (hopen : s.1.file.isOpen = true)

include hopen

/-! ### Reading -/

/-- The bytes of a complete page can be read. -/
theorem readPage_complete (hclean : s.1.file.failed = false) {i : ℕ}
    (h : (i + 1) * pageSize ≤ s.bytes.length) :
    (readPage i s).1 = .ok
      { data := Block.ofBytes pageSize (slice s.bytes (i * pageSize) pageSize), pageId := i } := by
  have hlen : (slice s.bytes (i * pageSize) pageSize).length = pageSize :=
    length_slice (by rwa [Nat.succ_mul] at h)
  rw [readPage_apply hopen hclean, if_neg (by omega)]

/-- A page that the file does not contain as a whole cannot. -/
theorem readPage_torn (hclean : s.1.file.failed = false) {i : ℕ}
    (h : s.bytes.length < (i + 1) * pageSize) :
    (readPage i s).1 = .error (.error .failedToReadPage) := by
  have hlen : (slice s.bytes (i * pageSize) pageSize).length < pageSize := by
    simp only [slice, List.length_take, List.length_drop, pageSize] at h ⊢
    omega
  rw [readPage_apply hopen hclean, if_pos hlen]

/-- Of the pages that are counted all can be read unless the last is torn. -/
theorem countsReadable_iff : CountsReadable s ↔ pageSize ∣ s.bytes.length := by
  have hnum := numPages_apply hopen
  constructor
  · intro h
    by_contra hdvd
    -- the last page that is counted is the torn one
    have hlast := Nat.pos_of_ne_zero fun h0 => hdvd (Nat.dvd_of_mod_eq_zero h0)
    obtain ⟨page, hpage⟩ := h _ _ hnum (s.bytes.length / pageSize)
      (by simp only [pageSize] at *; omega)
    have htorn := readPage_torn (s := s.moveTo s.bytes.length false) hopen rfl
      (i := s.bytes.length / pageSize) (by rw [FileState.bytes_moveTo]; simp only [pageSize]; omega)
    rw [htorn] at hpage
    cases hpage
  · rintro ⟨q, hq⟩ n s' hrun i hi
    rw [hnum] at hrun
    cases hrun
    have hle : (i + 1) * pageSize ≤ s.bytes.length := by
      simp only [pageSize] at *
      omega
    exact ⟨_, readPage_complete (s := s.moveTo s.bytes.length false) hopen rfl hle⟩

/-! ### Allocating -/

/-- The file after a page is allocated. -/
theorem allocatePage_eq_ok {k : ℕ} {s' : FileState} (h : allocatePage s = (.ok k, s')) :
    k = (s.bytes.length + pageSize - 1) / pageSize ∧ s'.1.file.isOpen = true ∧
      s'.1.file.failed = false ∧ s'.bytes = s.bytes ++ (Page.init k).data.val := by
  have hlimit := s.2.limit_le
  rw [allocatePage_apply hopen] at h
  by_cases hfull : max s.2.limit s.bytes.length < s.bytes.length + pageSize
  · rw [if_pos hfull] at h
    cases h
  rw [if_neg hfull] at h
  -- the file may grow, so that it has fewer pages than a 32-bit number can count
  have hsmall : (s.bytes.length + pageSize - 1) / pageSize < 2 ^ 32 := by
    simp only [maxFileSize, pageSize] at *
    omega
  cases h
  rw [Nat.mod_eq_of_lt hsmall]
  refine ⟨rfl, ?_, ?_, ?_⟩
  · rw [FileState.isOpen_written, hopen]
  · rw [FileState.failed_written]
  · rw [FileState.bytes_written, overwrite_length]

/-- A page that is allocated behind a torn page cannot be read. -/
theorem readPage_allocated_torn (htorn : ¬pageSize ∣ s.bytes.length) {k : ℕ} {s' : FileState}
    (h : allocatePage s = (.ok k, s')) :
    (readPage k s').1 = .error (.error .failedToReadPage) := by
  obtain ⟨rfl, hopen', hclean, hbytes⟩ := allocatePage_eq_ok hopen h
  have hlast := Nat.pos_of_ne_zero fun h0 => htorn (Nat.dvd_of_mod_eq_zero h0)
  refine readPage_torn hopen' hclean ?_
  rw [hbytes, List.length_append, (Page.init _).data.property]
  simp only [pageSize] at *
  omega

/-- A page that is allocated behind complete pages is a fresh page, and these are as before. -/
theorem allocatesReadable_of_dvd (hdvd : pageSize ∣ s.bytes.length) : AllocatesReadable s := by
  obtain ⟨q, hq⟩ := hdvd
  intro k s' h
  obtain ⟨hk, hopen', hclean, hbytes⟩ := allocatePage_eq_ok hopen h
  have hkq : k * pageSize = s.bytes.length := by
    simp only [pageSize] at *
    omega
  have hsize := (Page.init k).data.property
  refine ⟨?_, fun i hi => ?_⟩
  · have hle : (k + 1) * pageSize ≤ s'.bytes.length := by
      rw [hbytes, List.length_append, hsize, Nat.succ_mul, hkq]
    have hslice : slice s'.bytes (k * pageSize) pageSize = (Page.init k).data.val := by
      rw [hbytes, hkq]
      nth_rewrite 2 [← hsize]
      exact slice_append_length _ _
    rw [readPage_complete hopen' hclean hle, hslice, Block.ofBytes_val]
    rfl
  · have hle : (i + 1) * pageSize ≤ s'.bytes.length := by
      rw [hbytes, List.length_append]
      omega
    have hslice : slice s'.bytes (i * pageSize) pageSize =
        slice s.bytes (i * pageSize) pageSize := by
      rw [Nat.succ_mul] at hi
      rw [hbytes, slice_append_of_le hi]
    refine ⟨_, ?_, readPage_complete hopen' hclean hle⟩
    rw [numPages_apply hopen, hslice]
    exact readPage_complete (s := s.moveTo s.bytes.length false) hopen rfl hi

/-- **The numbering of the pages survives exactly when no page is torn.**  For every open file the
pages that `numPages` counts and those that `allocatePage` returns can be read, and no complete
page changes, if and only if the length of the file is a multiple of the page size. -/
theorem survivesTornAppend_iff : SurvivesTornAppend s ↔ pageSize ∣ s.bytes.length :=
  ⟨fun h => (countsReadable_iff hopen).1 h.1,
    fun h => ⟨(countsReadable_iff hopen).2 h, allocatesReadable_of_dvd hopen h⟩⟩

omit hopen

/-- The numbering of a file of one page. -/
theorem survivesTornAppend_onePage :
    SurvivesTornAppend (FileState.opened (str "t.ms") (Page.init 0).data.val) :=
  (survivesTornAppend_iff rfl).2 (by rw [FileState.bytes_opened, (Page.init 0).data.property])

/-- A file of one byte has a page that cannot be read. -/
theorem not_survivesTornAppend :
    ¬∀ s : FileState, s.1.file.isOpen = true → SurvivesTornAppend s := by
  intro h
  have hdvd := (countsReadable_iff rfl).1 (h (FileState.opened (str "t.ms") [0]) rfl).1
  rw [FileState.bytes_opened] at hdvd
  exact absurd hdvd (by decide)

end TableFile

end MicroSql
