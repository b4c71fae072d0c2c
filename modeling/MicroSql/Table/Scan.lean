import MicroSql.Lib.Scan
import MicroSql.Storage.PageArray
import MicroSql.Table.Rows

/-!
# Scans

What the statements that only read compute from the array of pages: SELECT filters
the rows that it reads from the live slots, and the primary key check looks for a value
among the live rows.
-/

namespace MicroSql

open Lib

/-! ### Reading and writing one page -/

section Pages

variable {limit : ℕ} {bs : List (Block pageSize)}

theorem getNumPages_apply (limit : ℕ) (bs : List (Block pageSize)) :
    getNumPages (pageArray limit) bs = (.ok bs.length, bs) := rfl

theorem readPage_apply (hle : bs.length ≤ 2 ^ 32) {i : ℕ} {b : Block pageSize}
    (h : bs[i]? = some b) : readPage (pageArray limit) i bs = (.ok ⟨b, i⟩, bs) := by
  have hi : i < bs.length := (List.getElem?_eq_some_iff.1 h).1
  have hmod : i % 2 ^ 32 = i := Nat.mod_eq_of_lt (by omega)
  simp only [readPage, pageArray, hmod, Prog.mapError_apply, Prog.gets_bind_apply, id_eq, h,
    Prog.pure_apply, mapError_ok]

/-- Page ids that are too large wrap around, so a page that is read exists or the read
fails; in no case does the array change. -/
theorem readPage_readOnly (limit i : ℕ) : (readPage (pageArray limit) i).ReadOnly := by
  refine Prog.ReadOnly.mapError (Prog.ReadOnly.bind (fun _ => rfl) fun bs => ?_) internal
  split
  · exact Prog.ReadOnly.pure _
  · exact Prog.ReadOnly.fail _

theorem writePage_apply (limit : ℕ) {p : Page} (h : p.pageId < bs.length) :
    writePage (pageArray limit) p bs = (.ok (), bs.set p.pageId p.data) := by
  have hroom : ¬max limit (bs.length * pageSize) < p.pageId * pageSize + pageSize := by
    simp only [pageSize]
    omega
  simp only [writePage, pageArray, Prog.mapError_apply, Prog.gets_bind_apply, id_eq,
    Prog.failIf_neg hroom, Prog.pure_bind_apply, Prog.modify_apply, mapError_ok,
    Block.put_of_lt h]

theorem onPage_apply {σ α : Type} (p : Page) (method : Prog Page (Failure PageError) α) (s : σ) :
    onPage p method s =
      (((method p).1.map fun a => (a, (method p).2)).mapError internal, s) := by
  rw [onPage, Prog.mapError_apply, Prog.runOn_apply]

theorem onPage_eq_error {σ α : Type} {p : Page} {method : Prog Page (Failure PageError) α} {s : σ}
    {e : Failure ExecError} :
    (onPage p method s).1 = .error e ↔ ∃ pe, (method p).1 = .error pe ∧ internal pe = e := by
  rw [onPage_apply, mapError_eq_error]
  simp only [map_eq_error]

theorem onPage_readOnly {σ α : Type} (p : Page) (method : Prog Page (Failure PageError) α) :
    (onPage p method : Prog σ _ _).ReadOnly :=
  Prog.ReadOnly.mapError (Prog.ReadOnly.runOn method p) internal

end Pages

/-! ### SELECT -/

/-- Filter rows as they are read: the first failure, of a read or of the condition,
ends the scan. -/
def selectFrom (p : Row → Expected ExecError Bool) :
    List (Expected ExecError Row) → Expected ExecError (List Row)
  | [] => .ok []
  | read :: reads => do
    let row ← read
    let isMatch ← p row
    let rest ← selectFrom p reads
    return if isMatch then row :: rest else rest

/-- The reads of the live slots of a page, in order. -/
def slotReads (schema : Schema) (p : Page) : List (Expected ExecError Row) :=
  ((List.range p.numSlots).filter fun slot => !p.slotDeleted slot).map fun slot =>
    readSlotRow p slot schema

/-- The reads of all live slots of the data pages, in page and slot order. -/
def storedRows (schema : Schema) (bs : List (Block pageSize)) : List (Expected ExecError Row) :=
  (bs.drop 1).flatMap fun b => slotReads schema (blockPage b)

theorem length_of_mem_storedRows {schema : Schema} {bs : List (Block pageSize)} {row : Row}
    (h : .ok row ∈ storedRows schema bs) : row.length = schema.length := by
  obtain ⟨b, -, h⟩ := List.mem_flatMap.1 h
  obtain ⟨slot, -, h⟩ := List.mem_map.1 h
  obtain ⟨⟨rowData, n⟩, -, h⟩ := bind_eq_ok.1 h
  exact length_decodeFields (mapError_eq_ok.1 h)

/-- A step of a scan that appends the rows it selects. -/
def selectStep (p : Row → Expected ExecError Bool) (rows : List Row)
    (read : Expected ExecError Row) : Expected ExecError (List Row) := do
  let row ← read
  let isMatch ← p row
  return if isMatch then rows ++ [row] else rows

theorem foldlM_selectStep (p : Row → Expected ExecError Bool)
    (reads : List (Expected ExecError Row)) (rows : List Row) :
    reads.foldlM (selectStep p) rows = (rows ++ ·) <$> selectFrom p reads := by
  induction reads generalizing rows with
  | nil =>
    change Except.ok rows = Except.ok (rows ++ [])
    rw [List.append_nil]
  | cons read reads ih =>
    rw [List.foldlM_cons, selectFrom, selectStep]
    rcases read with e | row
    · rfl
    simp only [ok_bind]
    rcases p row with e | isMatch
    · rfl
    simp only [ok_bind, pure_eq_ok, ih]
    rcases selectFrom p reads with e | rest
    · rfl
    cases isMatch
    · rfl
    · change Except.ok (rows ++ [row] ++ rest) = Except.ok (rows ++ row :: rest)
      rw [List.append_assoc, List.singleton_append]

/-- Every row can be read, and the condition has a value on it. -/
def Decided (p : Row → Expected ExecError Bool) (reads : List (Expected ExecError Row)) : Prop :=
  ∀ read ∈ reads, ∃ row m, read = .ok row ∧ p row = .ok m

/-- The scan ends well if every row is decided, and it selects those where the condition is
true. -/
theorem selectFrom_eq_ok {p : Row → Expected ExecError Bool}
    {reads : List (Expected ExecError Row)} {out : List Row} :
    selectFrom p reads = .ok out ↔ Decided p reads ∧
      out = (oks reads).filter fun row => decide (p row = .ok true) := by
  induction reads generalizing out with
  | nil => simp [selectFrom, Decided, eq_comm]
  | cons read reads ih =>
    have hcons : Decided p (read :: reads) ↔
        (∃ row m, read = .ok row ∧ p row = .ok m) ∧ Decided p reads := List.forall_mem_cons
    rw [selectFrom, bind_eq_ok, hcons]
    constructor
    · rintro ⟨row, rfl, h⟩
      obtain ⟨m, hm, h⟩ := bind_eq_ok.1 h
      obtain ⟨rest, hrest, h⟩ := bind_eq_ok.1 h
      obtain ⟨hall, rfl⟩ := ih.1 hrest
      refine ⟨⟨⟨row, m, rfl, hm⟩, hall⟩, ?_⟩
      rw [← Except.ok.inj h, oks_ok, List.filter_cons, hm]
      cases m <;> rfl
    · rintro ⟨⟨⟨row, m, rfl, hm⟩, hall⟩, rfl⟩
      refine ⟨row, rfl, ?_⟩
      rw [hm, ok_bind, ih.2 ⟨hall, rfl⟩, ok_bind, oks_ok, List.filter_cons, hm]
      cases m <;> rfl

/-- The slot loop of SELECT. -/
theorem foldlM_selectSlot (pr : ParseResult) (columns : Schema) (resultColumns : List Str)
    (p : Page) (rows : List Row) :
    (List.range p.numSlots).foldlM (selectSlot pr columns resultColumns p) rows =
      (slotReads columns p).foldlM (selectStep (whereMatches pr · resultColumns)) rows := by
  rw [slotReads, List.foldlM_map, List.foldlM_filter]
  congr 1
  funext rows slot
  unfold selectSlot
  cases p.slotDeleted slot <;> rfl

/-- The page loop of SELECT. -/
theorem foldlM_selectPages {limit : ℕ} {bs : List (Block pageSize)} (h : TablePages bs)
    (pr : ParseResult) (columns : Schema) (resultColumns : List Str) (rows : List Row) :
    (dataPages bs.length).foldlM (selectPage (pageArray limit) pr columns resultColumns) rows bs =
      ((storedRows columns bs).foldlM (selectStep (whereMatches pr · resultColumns)) rows,
        bs) := by
  have hpos := h.length_pos
  rw [dataPages, foldlM_range' bs (g := fun rows b => (slotReads columns (blockPage b)).foldlM
    (selectStep (whereMatches pr · resultColumns)) rows) ?_ (by omega), storedRows]
  · congr 1
    generalize bs.drop 1 = cs
    induction cs generalizing rows with
    | nil => rfl
    | cons c cs ih =>
      rw [List.foldlM_cons, List.flatMap_cons, List.foldlM_append]
      congr 1
      funext rows
      exact ih rows
  · intro i b rows hb
    rw [selectPage, Prog.bind_ok (readPage_apply h.length_le hb), foldlM_selectSlot]
    rfl

/-- **SELECT filters what it reads.**  On an array of pages it returns the selected
columns and the rows that pass the condition, evaluated under these columns, and
changes nothing. -/
theorem selectRows_apply {limit : ℕ} {bs : List (Block pageSize)} (h : TablePages bs)
    (pr : ParseResult) (columns : Schema) :
    selectRows (pageArray limit) pr columns bs =
      (do
        let resultColumns ← selectedColumns pr (columns.map (·.name))
        let rows ← selectFrom (whereMatches pr · resultColumns) (storedRows columns bs)
        return (resultColumns, rows), bs) := by
  rw [selectRows]
  cases hcols : selectedColumns pr (columns.map (·.name)) with
  | error e => rw [Prog.lift_error_bind_apply, error_bind]
  | ok resultColumns =>
    rw [Prog.lift_ok_bind_apply, Prog.bind_ok (getNumPages_apply limit bs), ok_bind,
      Prog.bind_apply, foldlM_selectPages h, foldlM_selectStep]
    rcases selectFrom (whereMatches pr · resultColumns) (storedRows columns bs) with e | rows
    · rfl
    · rfl

/-- The reads of a page that holds rows of the schema. -/
theorem Page.Good.slotReads_eq {schema : Schema} {p : Page} (hp : p.Good schema) :
    slotReads schema p = (p.rows schema).reduceOption.map .ok := by
  suffices h : ∀ m ≤ p.numSlots,
      ((List.range m).filter fun slot => !p.slotDeleted slot).map
        (fun slot => readSlotRow p slot schema) =
      ((p.rows schema).take m).reduceOption.map .ok by
    have hall := h p.numSlots le_rfl
    rwa [List.take_of_length_le (by rw [Page.length_rows])] at hall
  intro m
  induction m with
  | zero => intro _; rfl
  | succ m ih =>
    intro hm
    have hlen : m < (p.rows schema).length := by rw [Page.length_rows]; exact hm
    rw [List.range_succ, List.filter_append, List.map_append, ih (by omega), List.take_add_one,
      List.reduceOption_append, List.map_append]
    congr 1
    rcases hp.slot_cases (show m < p.numSlots from hm) with
      ⟨hd, hrow⟩ | ⟨hd, _, row, -, -, hrow, hread⟩
    · rw [hrow]
      simp [hd]
    · rw [hrow]
      simp [hd, hread]

theorem storedRows_eq {schema : Schema} {bs : List (Block pageSize)} (h : TablePages bs)
    (hgood : GoodPages schema bs) : storedRows schema bs = (liveRows schema bs).map .ok := by
  obtain ⟨b, tl, rfl⟩ := List.exists_cons_of_length_pos h.length_pos
  have hb : b = (Page.init 0).data := by simpa using h.reserved
  have hhead : liveRows schema (b :: tl) = liveRows schema tl := by
    rw [← List.singleton_append, liveRows_append, hb, liveRows_singleton, Page.rows_init]
    rfl
  have htl : ∀ c ∈ tl, (blockPage c).Good schema := fun c hc => hgood c (List.mem_cons_of_mem b hc)
  rw [hhead, storedRows, List.drop_one, List.tail_cons, liveRows, List.map_flatMap]
  clear hgood h hhead hb
  induction tl with
  | nil => rfl
  | cons c tl ih =>
    rw [List.flatMap_cons, List.flatMap_cons, (htl c List.mem_cons_self).slotReads_eq,
      ih fun d hd => htl d (List.mem_cons_of_mem c hd)]

/-! ### Primary keys -/

/-- The primary key check only reads. -/
theorem primaryKeyExists_readOnly (limit : ℕ) (columns : Schema) (pkIndex : ℕ) (value : Value)
    (currentPage : Option Page) (currentPageIndex : ℕ) (skipSlot : ℤ) :
    (primaryKeyExists (pageArray limit) columns pkIndex value currentPage currentPageIndex
      skipSlot).ReadOnly := by
  have hread : ∀ i, (do return (← readPage (pageArray limit) i, false) :
      Prog (List (Block pageSize)) (Failure ExecError) (Page × Bool)).ReadOnly := fun i =>
    Prog.ReadOnly.bind (readPage_readOnly limit i) fun _ => Prog.ReadOnly.pure _
  refine Prog.ReadOnly.bind (fun _ => rfl) fun numPages => Prog.ReadOnly.anyM (fun i => ?_) _
  refine Prog.ReadOnly.bind ?_ fun page => Prog.ReadOnly.anyM (fun slot => ?_) _
  · cases currentPage with
    | none => exact hread i
    | some page => exact Prog.ReadOnly.ite (Prog.ReadOnly.pure _) (hread i)
  · exact Prog.ReadOnly.ite (Prog.ReadOnly.pure _)
      (Prog.ReadOnly.ite (Prog.ReadOnly.pure _) (Prog.ReadOnly.lift _))

/-- A row has `value` in column `pkIndex`, as `operator==` sees it. -/
def holdsKey (pkIndex : ℕ) (value : Value) (row : Row) : Bool :=
  match row[pkIndex]? with
  | some v => v.eq value
  | none => false

theorem any_holdsKey_eq_false {rows : List Row} {pkIndex : ℕ} {value : Value} :
    rows.any (holdsKey pkIndex value) = false ↔
      ∀ row ∈ rows, ∀ v, row[pkIndex]? = some v → v.eq value = false := by
  rw [List.any_eq_false]
  refine forall₂_congr fun row _ => ?_
  unfold holdsKey
  cases row[pkIndex]? with
  | none => simp
  | some v => simp

theorem slotHoldsKey_eq {columns : Schema} {pkIndex slot : ℕ} {value : Value} {p : Page}
    {row : Row} (hread : readSlotRow p slot columns = .ok row) (hpk : pkIndex < row.length) :
    slotHoldsKey columns pkIndex value p slot = .ok (holdsKey pkIndex value row) := by
  rw [slotHoldsKey, hread, ok_bind, Row.at, List.getElem?_eq_getElem hpk, holdsKey,
    List.getElem?_eq_getElem hpk]
  rfl

/-- A search among rows by their slots. -/
theorem any_range_reduceOption (rows : List (Option Row)) (q : Row → Bool) :
    ((List.range rows.length).any fun i => (rows[i]?.getD none).any q) =
      rows.reduceOption.any q := by
  have hmap : (List.range rows.length).map (fun i => rows[i]?.getD none) = rows := by
    apply List.ext_getElem
    · simp
    · intro i h1 h2
      simp [h2]
  have hany : ∀ l : List (Option Row), l.reduceOption.any q = l.any fun o => o.any q := by
    intro l
    induction l with
    | nil => rfl
    | cons o l ih =>
      cases o with
      | none => rw [List.reduceOption_cons_of_none, ih, List.any_cons]; rfl
      | some row => rw [List.reduceOption_cons_of_some, List.any_cons, ih, List.any_cons]; rfl
  conv_rhs => rw [hany, ← hmap, List.any_map]
  rfl

/-- A search among the rows of the data pages; page 0 has none. -/
theorem any_dataPages {rss : List (List Row)} (h0 : rss[0]? = some []) (q : Row → Bool) :
    ((dataPages rss.length).any fun i => (rss[i]?.getD []).any q) = rss.flatten.any q := by
  obtain ⟨rs, tl, rfl⟩ : ∃ rs tl, rss = rs :: tl := by
    cases rss with
    | nil => simp at h0
    | cons rs tl => exact ⟨rs, tl, rfl⟩
  have hrs : rs = [] := by simpa using h0
  subst hrs
  have hflat := flatMap_range'_getElem? ([] :: tl) (k := 1) (m := tl.length)
    (by rw [List.length_cons]; omega)
  have hpages : dataPages ([] :: tl).length = List.range' 1 tl.length := rfl
  rw [hpages, ← List.any_flatMap, hflat]
  rfl

/-- The live rows of each page. -/
def pageRows (schema : Schema) (bs : List (Block pageSize)) : List (List Row) :=
  bs.map fun b => ((blockPage b).rows schema).reduceOption

theorem flatten_pageRows (schema : Schema) (bs : List (Block pageSize)) :
    (pageRows schema bs).flatten = liveRows schema bs := List.flatMap_def.symm

theorem pageRows_zero {schema : Schema} {bs : List (Block pageSize)} (h : TablePages bs) :
    (pageRows schema bs)[0]? = some [] := by
  rw [pageRows, List.getElem?_map, h.reserved, Option.map_some]
  change some ((Page.init 0).rows schema).reduceOption = _
  rw [Page.rows_init]
  rfl

section Keys

variable {limit : ℕ} {columns : Schema} {bs : List (Block pageSize)} {pkIndex : ℕ}
  {value : Value}

/-- The test of the primary key check at one slot. -/
def testSlot (columns : Schema) (pkIndex : ℕ) (value : Value) (page : Page) (isCurrent : Bool)
    (skipSlot : ℤ) (slot : ℕ) : Prog (List (Block pageSize)) (Failure ExecError) Bool :=
  if page.slotDeleted slot then pure false
  else if isCurrent ∧ skipSlot ≥ 0 ∧ (slot : ℤ) = skipSlot then pure false
  else .lift (slotHoldsKey columns pkIndex value page slot)

variable (hpk : pkIndex < columns.length)

include hpk

/-- The slots of a page, none of them skipped. -/
theorem anyM_testSlot {p : Page} (hp : p.Good columns) {skipSlot : ℤ} {isCurrent : Bool}
    (hskip : ¬(isCurrent = true ∧ skipSlot ≥ 0)) :
    (List.range p.numSlots).anyM (testSlot columns pkIndex value p isCurrent skipSlot) bs =
      (.ok ((p.rows columns).reduceOption.any (holdsKey pkIndex value)), bs) := by
  rw [anyM_apply (q := fun i => ((p.rows columns)[i]?.getD none).any (holdsKey pkIndex value)),
    ← any_range_reduceOption, Page.length_rows]
  intro i hi
  have hi := List.mem_range.1 hi
  rcases hp.slot_cases hi with ⟨hd, hrow⟩ | ⟨hd, _, row, -, henc, hrow, hread⟩
  · rw [testSlot, if_pos hd, hrow]
    rfl
  · have hlen : pkIndex < row.length := henc.length_eq ▸ hpk
    have hns : ¬(isCurrent = true ∧ skipSlot ≥ 0 ∧ (i : ℤ) = skipSlot) :=
      fun h => hskip ⟨h.1, h.2.1⟩
    rw [testSlot, hd, if_neg Bool.false_ne_true, if_neg hns, slotHoldsKey_eq hread hlen, hrow]
    rfl

/-- The slots of the page in memory, one of them skipped. -/
theorem anyM_testSlot_skip {p : Page} (hp : p.Good columns) {slot : ℕ} (hslot : slot < p.numSlots) :
    (List.range p.numSlots).anyM (testSlot columns pkIndex value p true slot) bs =
      (.ok (((p.rows columns).set slot none).reduceOption.any (holdsKey pkIndex value)), bs) := by
  rw [anyM_apply (q := fun i =>
      (((p.rows columns).set slot none)[i]?.getD none).any (holdsKey pkIndex value)),
    ← any_range_reduceOption, List.length_set, Page.length_rows]
  intro i hi
  have hi := List.mem_range.1 hi
  have hlen : slot < (p.rows columns).length := by rw [Page.length_rows]; exact hslot
  rw [List.getElem?_set]
  by_cases his : slot = i
  · subst his
    rw [if_pos rfl, if_pos hlen, testSlot]
    by_cases hd : p.slotDeleted slot = true
    · rw [if_pos hd]
      rfl
    · rw [if_neg hd, if_pos ⟨rfl, by omega, rfl⟩]
      rfl
  · rw [if_neg his]
    rcases hp.slot_cases hi with ⟨hd, hrow⟩ | ⟨hd, _, row, -, henc, hrow, hread⟩
    · rw [testSlot, if_pos hd, hrow]
      rfl
    · have hlen : pkIndex < row.length := henc.length_eq ▸ hpk
      have hns : ¬(true = true ∧ (slot : ℤ) ≥ 0 ∧ (i : ℤ) = slot) := by omega
      rw [testSlot, hd, if_neg Bool.false_ne_true, if_neg hns, slotHoldsKey_eq hread hlen, hrow]
      rfl

/-- The check of INSERT looks at all live rows. -/
theorem primaryKeyExists_none (h : TablePages bs) (hgood : GoodPages columns bs) :
    primaryKeyExists (pageArray limit) columns pkIndex value none 0 (-1) bs =
      (.ok ((liveRows columns bs).any (holdsKey pkIndex value)), bs) := by
  have hlen : (pageRows columns bs).length = bs.length := List.length_map _
  rw [primaryKeyExists, Prog.bind_ok (getNumPages_apply limit bs), ← flatten_pageRows,
    ← any_dataPages (pageRows_zero h), hlen]
  refine anyM_apply _ fun i hi => ?_
  obtain ⟨h1, h2⟩ := List.mem_range'_1.1 hi
  have hpos := h.length_pos
  have hb : bs[i]? = some bs[i] := List.getElem?_eq_getElem (by omega)
  have hgoodi : ({ data := bs[i], pageId := i } : Page).Good columns :=
    (hgood bs[i] (List.getElem_mem _)).with_id i
  have hkey : keyPage (pageArray limit) none 0 i bs =
      (.ok ({ data := bs[i], pageId := i }, false), bs) :=
    Prog.bind_ok (readPage_apply h.length_le hb) _
  rw [Prog.bind_ok hkey, pageRows, List.getElem?_map, hb]
  exact anyM_testSlot hpk hgoodi (fun hc => Bool.false_ne_true hc.1)

/-- The check of UPDATE looks at the page in memory instead of the stored one, and at
all live rows but the one that is updated. -/
theorem primaryKeyExists_some (h : TablePages bs) (hgood : GoodPages columns bs) {k slot : ℕ}
    (hk : 1 ≤ k) (hkn : k < bs.length) {p : Page} (hp : p.Good columns)
    (hslot : slot < p.numSlots) :
    primaryKeyExists (pageArray limit) columns pkIndex value (some p) k slot bs =
      (.ok ((liveRows columns (bs.take k) ++ ((p.rows columns).set slot none).reduceOption ++
        liveRows columns (bs.drop (k + 1))).any (holdsKey pkIndex value)), bs) := by
  -- the rows of each page that the check looks at
  let rss := (pageRows columns bs).set k ((p.rows columns).set slot none).reduceOption
  have hlen : rss.length = bs.length := by simp [rss, pageRows]
  have hzero : rss[0]? = some [] := by
    rw [List.getElem?_set_ne (by omega)]
    exact pageRows_zero h
  have hflat : rss.flatten = liveRows columns (bs.take k) ++
      ((p.rows columns).set slot none).reduceOption ++ liveRows columns (bs.drop (k + 1)) := by
    have hkl : k < (pageRows columns bs).length := by simpa [pageRows] using hkn
    have hset := List.set_eq_take_append_cons_drop (l := pageRows columns bs) (i := k)
      (a := ((p.rows columns).set slot none).reduceOption)
    rw [if_pos hkl] at hset
    rw [show rss = _ from hset, List.flatten_append, List.flatten_cons, ← flatten_pageRows,
      ← flatten_pageRows, pageRows, pageRows, pageRows, List.map_take, List.map_drop,
      List.append_assoc]
  rw [primaryKeyExists, Prog.bind_ok (getNumPages_apply limit bs), ← hflat,
    ← any_dataPages hzero, hlen]
  refine anyM_apply _ fun i hi => ?_
  obtain ⟨h1, h2⟩ := List.mem_range'_1.1 hi
  have hb : bs[i]? = some bs[i] := List.getElem?_eq_getElem (by omega)
  rw [List.getElem?_set]
  by_cases hik : i = k
  · have hkey : keyPage (pageArray limit) (some p) k i bs = (.ok (p, true), bs) := by
      rw [keyPage, if_pos hik]
      rfl
    rw [Prog.bind_ok hkey, if_pos hik.symm, if_pos (by simpa [pageRows] using hkn)]
    exact anyM_testSlot_skip hpk hp hslot
  · have hgoodi : ({ data := bs[i], pageId := i } : Page).Good columns :=
      (hgood bs[i] (List.getElem_mem _)).with_id i
    have hkey : keyPage (pageArray limit) (some p) k i bs =
        (.ok ({ data := bs[i], pageId := i }, false), bs) := by
      rw [keyPage, if_neg hik]
      exact Prog.bind_ok (readPage_apply h.length_le hb) _
    rw [Prog.bind_ok hkey, if_neg (Ne.symm hik), pageRows, List.getElem?_map, hb]
    exact anyM_testSlot hpk hgoodi (fun hc => Bool.false_ne_true hc.1)

end Keys

end MicroSql
