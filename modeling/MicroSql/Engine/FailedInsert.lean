import MicroSql.Engine.Insert
import MicroSql.Table.Rejects

/-!
# INSERT that fails

Five of the six places where INSERT can fail come before it writes anything.  The sixth comes after:
the page that is allocated for the row is in the file when the row turns out not to go into it.
That happens to rows of more than 4076 bytes, which no page can hold, and to rows of no bytes.
-/

namespace MicroSql

open Lib

/-- INSERT allocates a page that cannot take the row: the row passes all checks, and the length of
its encoding, narrowed to 16 bits, is over 4076, or it is zero when no data page has room for
another slot. -/
structure InVain (limit : ℕ) (pr : ParseResult) (columns : Schema) (bs : List (Block pageSize))
    (row : Row) (bytes : List UInt8) : Prop where
  built : rowFromInsertValues pr columns = .ok row
  length_eq : row.length = columns.length
  newKey : ∀ pk v, primaryKeyIndex columns = some pk → row[pk]? = some v →
    (primaryKeyExists (pageArray limit) columns pk v none 0 (-1) bs).1 = .ok false
  encoded : serializeRow row columns = .ok bytes
  size : 4076 < bytes.length % 65536 ∨ bytes.length % 65536 = 0 ∧
    ∀ j b, 1 ≤ j → bs[j]? = some b → (blockPage b).freeSpace < slotEntrySize

section Pages

variable {limit : ℕ} {pr : ParseResult} {columns : Schema} {bs : List (Block pageSize)}

/-- A page has no room for a row that a new page cannot hold. -/
theorem not_hasRoom {b : Block pageSize} {size : ℕ} (hwf : (blockPage b).WF) (h : 4076 < size) :
    ¬HasRoom b size := by
  have hspace := hwf.freeSpace_eq
  have hptr := hwf.freePtr_le
  rw [HasRoom]
  simp only [headerSize, slotEntrySize, pageSize] at hspace hptr ⊢
  omega

/-- INSERT leaves a new page behind. -/
theorem InVain.run (h : TablePages bs) (hlimit : limit ≤ maxFileSize)
    (hspace : bs.length * pageSize + pageSize ≤ limit) {row : Row} {bytes : List UInt8}
    (hvain : InVain limit pr columns bs row bytes) :
    insertRow (pageArray limit) serializeRow pr columns bs =
      (.error (.error .internalError), bs ++ [(Page.init bs.length).data]) := by
  have hcount : ¬(pr.statement.insertColumnNames = [] ∧ row.length ≠ columns.length) :=
    fun hc => hc.2 hvain.length_eq
  have hkey := (checkNewKey_passes hvain.length_eq).2 hvain.newKey
  rw [insertRow, hvain.built, Prog.lift_ok_bind_apply, Prog.failIf_neg hcount,
    Prog.pure_bind_apply, Prog.bind_ok hkey, hvain.encoded, mapError_ok, Prog.lift_ok_bind_apply]
  have hfull : ∀ j b, 1 ≤ j → bs[j]? = some b → ¬HasRoom b (bytes.length % 65536) := by
    intro j b hj hb
    rcases hvain.size with hsize | ⟨hsize, hnone⟩
    · exact not_hasRoom (h.wf b (List.mem_of_getElem? hb)) hsize
    · rw [HasRoom, hsize, Nat.zero_add]
      exact Nat.not_le.2 (hnone j b hj hb)
  rcases storeBytes_apply h hlimit (rfl : bytes.length % 65536 = _) with
    ⟨k, b, hk, hb, hroom, -⟩ | ⟨-, hrun⟩
  · exact absurd hroom (hfull k b hk hb)
  · have hfit : bytes.length % 65536 = 0 ∨
        ¬HasRoom (Page.init bs.length).data (bytes.length % 65536) := by
      rw [hasRoom_init]
      rcases hvain.size with hsize | ⟨hsize, -⟩ <;> omega
    rw [hrun, if_neg (by omega), if_pos hfit]

/-- Otherwise INSERT leaves nothing behind when it fails. -/
theorem insertRow_unchanged (h : TablePages bs) (hlimit : limit ≤ maxFileSize)
    (hspace : bs.length * pageSize + pageSize ≤ limit)
    (hno : ¬∃ row bytes, InVain limit pr columns bs row bytes) {e : Failure ExecError}
    {cs : List (Block pageSize)}
    (hrun : insertRow (pageArray limit) serializeRow pr columns bs = (.error e, cs)) : cs = bs := by
  rcases insertRow_cases limit serializeRow pr columns bs with ⟨e', herr⟩ |
    ⟨row, bytes, hrow, hcount, hkey, hbytes, hstore⟩
  · rw [herr] at hrun
    cases hrun
    rfl
  rw [hstore] at hrun
  rcases storeBytes_apply h hlimit (rfl : bytes.length % 65536 = _) with
    ⟨k, b, hk, hb, hroom, hend⟩ | ⟨hfull, hend⟩
  · rw [hend] at hrun
    by_cases h0 : bytes.length % 65536 = 0
    · rw [if_pos h0] at hrun
      cases hrun
      rfl
    · rw [if_neg h0] at hrun
      cases hrun
  · -- no page has room, so the file grows: what fails after that is in vain
    rw [hend, if_neg (by omega)] at hrun
    by_cases hfit : bytes.length % 65536 = 0 ∨
        ¬HasRoom (Page.init bs.length).data (bytes.length % 65536)
    · have hlen : row.length = columns.length := by
        by_cases hnames : pr.statement.insertColumnNames = []
        · exact hcount hnames
        · exact length_rowFromInsertValues hrow hnames
      refine absurd ⟨row, bytes, hrow, hlen, (checkNewKey_passes hlen).1 hkey, hbytes, ?_⟩ hno
      · rw [hasRoom_init] at hfit
        by_cases h0 : bytes.length % 65536 = 0
        · refine .inr ⟨h0, fun j b hj hb => ?_⟩
          have hroom := hfull j b hj hb
          rw [HasRoom, h0, Nat.zero_add] at hroom
          exact Nat.not_le.1 hroom
        · exact .inl (by omega)
    · rw [if_neg hfit] at hrun
      cases hrun

end Pages

section File

variable {C : ParseResult → Engine → Prop} {w : Engine} {t : TableSchema} {pr : ParseResult}

/-- The file of a table after a statement has turned its pages into `bs`. -/
theorem contents_eq_iff (h : Reachable C w)
    (hfind : w.catalog.findTable pr.statement.tableName = some t) {bs : List (Block pageSize)}
    {w' : Engine} (hc : w.Changes pr.statement.tableName t.filePath bs w') :
    w'.fs.contents t.filePath = w.fs.contents t.filePath ↔ bs = w.pages t := by
  have hold : w.fs.contents t.filePath = Block.flat (w.pages t) := by
    rw [FileSystem.contents, (h.wf.stores hfind).1.file, Option.getD_some]
  rw [hc.fs_eq, FileSystem.contents_put_self, hold]
  constructor
  · intro heq
    have hcut := congrArg (Block.cut pageSize) heq
    rwa [Block.cut_flat (by decide), Block.cut_flat (by decide)] at hcut
  · rintro rfl
    rfl

/-- An INSERT that fails, while the file may grow, leaves the file of its table as it was, unless a
page has been allocated in vain. -/
theorem failedInsert_unchanged_iff (h : Reachable C w)
    (hfind : w.catalog.findTable pr.statement.tableName = some t)
    (hspace : (w.fs.contents t.filePath).length + pageSize ≤ w.fs.limit) :
    (∀ e, (execInsert pr w).1 = .error (.error e) →
      (execInsert pr w).2.fs.contents t.filePath = w.fs.contents t.filePath) ↔
    ¬∃ row bytes, InVain w.fs.limit pr t.columns (w.pages t) row bytes := by
  obtain ⟨-, hp, -⟩ := h.wf.stores hfind
  rw [h.wf.length_contents hfind] at hspace
  obtain ⟨hr, hc⟩ := (h.wf.runs_insert serializeRow pr).ran_of_find hfind
  constructor
  · rintro hsame ⟨row, bytes, hvain⟩
    have hrun := hvain.run hp w.fs.limit_le hspace
    rw [hrun] at hr hc
    have heq := (contents_eq_iff h hfind hc).1 (hsame .internalError hr)
    simpa using congrArg List.length heq
  · intro hno e he
    refine (contents_eq_iff h hfind hc).2 ?_
    exact insertRow_unchanged hp w.fs.limit_le hspace hno (Prod.ext (hr.symm.trans he) rfl)

end File

/-! ### A row that is too large -/

/-- A table with a column of type `TEXT(5000)`. -/
def tallTable : TableSchema where
  tableName := str "x"
  columns := [{ name := str "a", type := .text, textLength := 5000 }]
  filePath := str "x.ms"

/-- A text that fits into its column, but not into a page. -/
def tallText : Str := List.replicate 4080 97

/-- `INSERT INTO x VALUES ('aaa...')` -/
def tallInsert : ParseResult := insertInto (str "x") [.literalText tallText]

theorem length_tallText : tallText.length = 4080 := List.length_replicate

theorem tallInsert_inVain : ∃ bytes, InVain maxFileSize tallInsert tallTable.columns
    [(Page.init 0).data] [.text tallText] bytes := by
  have hlimit : ColumnDefinition.textLimit
      { name := str "a", type := .text, textLength := 5000 } = 5000 := by decide
  have hsuits : Row.Suits [.text tallText] tallTable.columns := by
    refine .cons ?_ .nil
    simp only [Value.Suits, hlimit, length_tallText]
    decide
  have hsize : encodedSize [.text tallText] tallTable.columns = .ok 4083 := by
    refine encodedSize_cons.2 ⟨4083, 0, ?_, rfl, rfl⟩
    simp only [fieldSize, hlimit, length_tallText]
    rfl
  obtain ⟨bytes, hbytes⟩ := hsuits.serializeRow
  have hlen := length_serializeRow hbytes hsize
  -- the table has no primary key
  exact ⟨bytes, rfl, rfl, fun _ _ hpk => (by cases hpk), hbytes, .inl (by rw [hlen]; decide)⟩

theorem failedInsert_unchanged_iff_sample :
    (∀ e, (execInsert (sampleInsert 1 10) sampleOne).1 = .error (.error e) →
      (execInsert (sampleInsert 1 10) sampleOne).2.fs.contents sampleTable.filePath =
        sampleOne.fs.contents sampleTable.filePath) ↔
    ¬∃ row bytes, InVain sampleOne.fs.limit (sampleInsert 1 10) sampleTable.columns
      (sampleOne.pages sampleTable) row bytes :=
  failedInsert_unchanged_iff sampleOne_oneRow.reachable sampleOne_oneRow.find sampleOne_space

/-- An INSERT of a text of 4080 bytes fails, and the file has grown by a page. -/
theorem failedInsert_grows : ¬∀ w pr t, Reachable anyStatement w → pr.statement.kind = .insert →
    w.catalog.findTable pr.statement.tableName = some t →
    (w.fs.contents t.filePath).length + pageSize ≤ w.fs.limit →
    ∀ e, (execInsert pr w).1 = .error (.error e) →
      (execInsert pr w).2.fs.contents t.filePath = w.fs.contents t.filePath := by
  intro hall
  have hpath : tallTable.filePath = tablePath tallTable.tableName := by decide
  have hreach := newEngine_reachable hpath
  have hfind : (newEngine tallTable).catalog.findTable tallInsert.statement.tableName =
      some tallTable := newEngine_find hpath
  have hpages := newEngine_pages hpath
  have hlimit := newEngine_limit hpath
  obtain ⟨bytes, hvain⟩ := tallInsert_inVain
  obtain ⟨hr, hc⟩ := (hreach.wf.runs_insert serializeRow tallInsert).ran_of_find hfind
  rw [hlimit, hpages, hvain.run Engine.tablePages_fresh le_rfl two_pages_le] at hr hc
  have hsame := hall (newEngine tallTable) tallInsert tallTable (hreach.mono fun _ _ _ => trivial)
    rfl hfind (by rw [hreach.wf.length_contents hfind, hpages, hlimit]; exact two_pages_le)
    .internalError hr
  rw [execInsert, contents_eq_iff hreach hfind hc, hpages] at hsame
  simp at hsame

end MicroSql
