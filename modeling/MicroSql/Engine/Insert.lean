import MicroSql.Engine.Select

/-!
# INSERT

An INSERT whose row can be stored succeeds and adds the row to the table; the other rows
keep their values and their order.
-/

namespace MicroSql

open Lib

namespace Engine

variable {w : Engine} {t : TableSchema} {pr : ParseResult} {row : Row} {bytes : List UInt8}

/-- What an engine looks like after an INSERT that has stored `row` as `bytes`. -/
structure Inserted (w : Engine) (t : TableSchema) (row : Row) (bytes : List UInt8)
    (w' : Engine) : Prop where
  inv : Inv GoodTable w'
  catalog_eq : w'.catalog = w.catalog
  limit_eq : w'.fs.limit = w.fs.limit
  rows : ∃ before after, w.rows t = before ++ after ∧ w'.rows t = before ++ row :: after
  stored : Stored w.fs.limit (w.pages t) bytes (.ok (), w'.pages t)

theorem Changes.pages_eq {w w' : Engine} {name : Str} {bs : List (Block pageSize)}
    (h : Changes w name t.filePath bs w') : w'.pages t = bs := by
  rw [pages, h.fs_eq, FileSystem.contents_put_self, Block.cut_flat (by decide)]

/-- The file of a table consists of its pages. -/
theorem Inv.length_contents {T : TableSchema → List (Block pageSize) → Prop} (h : Inv T w)
    {name : Str} (hfind : w.catalog.findTable name = some t) :
    (w.fs.contents t.filePath).length = (w.pages t).length * pageSize := by
  have hfile := (h.stores hfind).1.file
  rw [FileSystem.contents, hfile, Option.getD_some, Block.length_flat]

/-- A row that can be encoded in 1 to 4076 bytes and does not repeat a primary key is
stored. -/
theorem Inv.insert (h : Inv GoodTable w)
    (hfind : w.catalog.findTable pr.statement.tableName = some t)
    {serialize : Row → Schema → Expected RowError (List UInt8)}
    (hrow : rowFromInsertValues pr t.columns = .ok row)
    (hbytes : serialize row t.columns = .ok bytes) (henc : Encodes t.columns bytes row)
    (h0 : 1 ≤ bytes.length) (hmax : bytes.length ≤ 4076)
    (hkey : ∀ pk v, primaryKeyIndex t.columns = some pk → row[pk]? = some v →
      (w.rows t).any (holdsKey pk v) = false)
    (hspace : (w.pages t).length * pageSize + pageSize ≤ w.fs.limit) :
    (execInsertWith serialize pr w).1 = .ok () ∧
      Inserted w t row bytes (execInsertWith serialize pr w).2 := by
  obtain ⟨hs, hp, hgood⟩ := h.stores hfind
  obtain ⟨cs, hrun, hstored⟩ := insertRow_succeeds hp w.fs.limit_le hgood.pages hrow henc.length_eq
    hbytes h0 hmax hkey hspace
  obtain ⟨hgood', before, after, hold, hnew⟩ := hstored.rows henc hgood.pages
  have hpages := hstored.tablePages hp w.fs.limit_le
  obtain ⟨hr, hc⟩ := (h.runs_insert serialize pr).ran_of_find hfind
  rw [hrun] at hr hc
  refine ⟨hr, ⟨h.changes hs hc hpages ⟨hgood', ?_⟩, hc.catalog_eq, ?_,
    ⟨before, after, hold, ?_⟩, ?_⟩⟩
  · rw [hnew]
    have hcheck :
        checkNewKey (pageArray w.fs.limit) t.columns row (w.pages t) = (.ok (), w.pages t) :=
      (checkNewKey_eq_ok hp hgood.pages henc.length_eq).2 hkey
    exact keysDistinct_insert hp hgood.pages henc hcheck hold hgood.keys
  · rw [hc.fs_eq, FileSystem.limit_put]
  · rw [rows, hc.pages_eq]
    exact hnew
  · rw [hc.pages_eq]
    exact hstored

end Engine

theorem executeWith_insert {serialize : Row → Schema → Expected RowError (List UInt8)}
    {pr : ParseResult} {w : Engine} (hkind : pr.statement.kind = .insert)
    (h : (execInsertWith serialize pr w).1 = .ok ()) :
    executeWith serialize pr w =
      (.ok { message := str "1 row inserted" }, (execInsertWith serialize pr w).2) := by
  have hrun : execInsertWith serialize pr w = (.ok (), (execInsertWith serialize pr w).2) :=
    Prod.ext h rfl
  rw [executeWith, hkind, orError]
  dsimp only
  rw [Prog.bind_ok hrun]
  rfl

/-- Executing an INSERT whose row can be stored. -/
theorem Reachable.insert {w : Engine} (h : Reachable EncodesWithin w) {pr : ParseResult}
    {t : TableSchema} (hkind : pr.statement.kind = .insert)
    (hfind : w.catalog.findTable pr.statement.tableName = some t) {row : Row}
    {bytes : List UInt8} (hrow : rowFromInsertValues pr t.columns = .ok row)
    (hbytes : serializeRow row t.columns = .ok bytes) (h0 : 1 ≤ bytes.length)
    (hmax : bytes.length ≤ 4076)
    (hkey : ∀ pk v, primaryKeyIndex t.columns = some pk → row[pk]? = some v →
      (w.rows t).any (holdsKey pk v) = false)
    (hspace : (w.pages t).length * pageSize + pageSize ≤ w.fs.limit) :
    EncodesWithin pr w ∧ Engine.Inserted w t row bytes (w.after pr) := by
  have henc : Encodes t.columns bytes row := ⟨hbytes, by omega⟩
  have hins : ∀ serialize : Row → Schema → Expected RowError (List UInt8),
      serialize row t.columns = .ok bytes →
      (execInsertWith serialize pr w).1 = .ok () ∧
        Engine.Inserted w t row bytes (execInsertWith serialize pr w).2 :=
    fun serialize hser => h.good.insert hfind hrow hser henc h0 hmax hkey hspace
  constructor
  · have hwithin : serializeWithin row t.columns = .ok bytes := by
      rw [serializeWithin, hbytes, ok_bind, if_pos henc.length_lt]
      rfl
    rw [EncodesWithin, executeWith_insert hkind (hins _ hwithin).1]
    intro hc
    cases hc
  · rw [Engine.after, MicroSql.execute, executeWith_insert hkind (hins _ hbytes).1]
    exact (hins _ hbytes).2

/-- What a successful INSERT does to the rows. -/
theorem insert_rows {w : Engine} (h : Reachable EncodesWithin w) {pr : ParseResult}
    (hkind : pr.statement.kind = .insert) {t : TableSchema}
    (hfind : w.catalog.findTable pr.statement.tableName = some t) (hwithin : EncodesWithin pr w)
    (hok : (execInsert pr w).1 = .ok ()) :
    (execInsert pr w).2.catalog = w.catalog ∧
      ∃ row before after, rowFromInsertValues pr t.columns = .ok row ∧
        w.rows t = before ++ after ∧ (execInsert pr w).2.rows t = before ++ row :: after := by
  have hinv := h.good
  obtain ⟨-, hp, hgood⟩ := hinv.stores hfind
  obtain ⟨hr, hc⟩ := (hinv.runs_insert serializeWithin pr).ran_of_find hfind
  rw [← hwithin.execInsert_eq hkind] at hr hc
  have hrule : Prog.Spec _ (insertRow (pageArray w.fs.limit) serializeWithin pr t.columns) _ _ :=
    insertRow_rows fitsSlots_serializeWithin hp w.fs.limit_le hgood.pages
  obtain ⟨-, -, row, bytes, before, after, hrow, -, -, hold, hnew⟩ :=
    hrule.ok rfl (Prod.ext (hr.symm.trans hok) rfl)
  refine ⟨hc.catalog_eq, row, before, after, hrow, hold, ?_⟩
  rw [Engine.rows, hc.pages_eq]
  exact hnew

/-! ### What INSERT promises -/

/-- **INSERT adds exactly the given row.**  If the row suits the table, takes 1 to 4076 bytes
and does not repeat a primary key, and the file may grow by a page, then the statement
succeeds, `SELECT *` returns the row in addition to the old ones, whose order is kept, and a
page is allocated only if no data page has room. -/
theorem insert_adds_row {w : Engine} (h : Reachable EncodesWithin w) {pr : ParseResult}
    {t : TableSchema} (hfind : w.catalog.findTable pr.statement.tableName = some t) {row : Row}
    (hrow : rowFromInsertValues pr t.columns = .ok row) (hsuits : row.Suits t.columns)
    (hsize : ∀ bytes, serializeRow row t.columns = .ok bytes →
      1 ≤ bytes.length ∧ bytes.length ≤ 4076)
    (hkey : ∀ pk v, primaryKeyIndex t.columns = some pk → row[pk]? = some v →
      ∀ r ∈ w.rows t, ∀ v', r[pk]? = some v' → v'.eq v = false)
    (hspace : (w.fs.contents t.filePath).length + pageSize ≤ w.fs.limit) :
    (execInsert pr w).1 = .ok () ∧
      (∃ before after,
        (execSelect (selectStar pr.statement.tableName) w).1 =
          .ok { columns := t.columnNames, rows := before ++ after } ∧
        (execSelect (selectStar pr.statement.tableName) (execInsert pr w).2).1 =
          .ok { columns := t.columnNames, rows := before ++ row :: after }) ∧
      (((execInsert pr w).2.fs.contents t.filePath).length = (w.fs.contents t.filePath).length ∨
        ∀ bytes, serializeRow row t.columns = .ok bytes →
          ∀ k b, 1 ≤ k → (w.pages t)[k]? = some b → ¬HasRoom b bytes.length) := by
  have hinv := h.good
  obtain ⟨bytes, hbytes⟩ := hsuits.serializeRow
  obtain ⟨h0, hmax⟩ := hsize bytes hbytes
  rw [hinv.length_contents hfind] at hspace ⊢
  obtain ⟨hok, hins⟩ : (execInsert pr w).1 = .ok () ∧
      Engine.Inserted w t row bytes (execInsert pr w).2 :=
    hinv.insert hfind hrow hbytes ⟨hbytes, by omega⟩ h0 hmax
      (fun pk v hpk hv => any_holdsKey_eq_false.2 (hkey pk v hpk hv)) hspace
  obtain ⟨before, after, hold, hnew⟩ := hins.rows
  have hfind' : (execInsert pr w).2.catalog.findTable pr.statement.tableName = some t :=
    (congrArg (Catalog.findTable · _) hins.catalog_eq).trans hfind
  refine ⟨hok, ⟨before, after, ?_, ?_⟩, ?_⟩
  · rw [hinv.selectStar hfind, hold]
  · rw [hins.inv.selectStar hfind', hnew]
  · rw [hins.inv.length_contents hfind']
    rcases hins.stored.length_eq with hsame | hfull
    · exact .inl (congrArg (· * pageSize) hsame)
    · refine .inr fun bytes' hbytes' => ?_
      obtain rfl : bytes = bytes' := Except.ok.inj (hbytes.symm.trans hbytes')
      exact hfull

/-! ### A sample -/

/-- An empty directory, in which files may be made and may grow. -/
def emptyDirectory : FileSystem where
  files := fun _ => none
  mayRead := fun _ => true
  mayWrite := fun _ => true
  limit := maxFileSize
  limit_le := le_refl _

/-- `CREATE TABLE name (columns)` -/
def createTable (name : Str) (columns : List ColumnDefinition) : ParseResult where
  expressions := []
  statement := { kind := .createTable, tableName := name, columnDefinitions := columns }

/-- `INSERT INTO name VALUES (values)` -/
def insertInto (name : Str) (values : List Expression) : ParseResult where
  expressions := values
  statement := { kind := .insert, tableName := name,
                 insertValues := (List.range values.length).map Int.ofNat }

/-- An engine with one table, which is empty. -/
def newEngine (t : TableSchema) : Engine :=
  Engine.after { fs := emptyDirectory } (createTable t.tableName t.columns)

theorem two_pages_le : [(Page.init 0).data].length * pageSize + pageSize ≤ maxFileSize := by
  decide

section NewEngine

open Engine

variable {t : TableSchema} (hpath : t.filePath = tablePath t.tableName)

include hpath

theorem newEngine_eq : ∃ f, executeWith serializeWithin (createTable t.tableName t.columns)
      { fs := emptyDirectory } =
    (.ok { message := str "Table created" },
      Engine.created { fs := emptyDirectory } t f) := by
  have hcases := execCreateTable_cases (createTable t.tableName t.columns) { fs := emptyDirectory }
  have hnew : newTable (createTable t.tableName t.columns) = t := by
    rw [newTable, createTable]
    dsimp only
    rw [← hpath]
  rw [hnew] at hcases
  generalize hr : execCreateTable (createTable t.tableName t.columns) { fs := emptyDirectory } = r
    at hcases
  cases hcases with
  | notCreated hw => cases hw
  | notOpened hw hopen =>
    rcases hopen with hread | hl
    · cases hread
    · exact absurd hl (by decide)
  | duplicate hw hfind => exact absurd rfl hfind
  | @created hw hread hl hfind f hf =>
    refine ⟨f, ?_⟩
    have hkind : (createTable t.tableName t.columns).statement.kind = .createTable := rfl
    rw [executeWith, hkind, orError]
    dsimp only
    rw [Prog.bind_ok hr]
    rfl

theorem newEngine_within :
    EncodesWithin (createTable t.tableName t.columns) { fs := emptyDirectory } := by
  obtain ⟨f, heq⟩ := newEngine_eq hpath
  rw [EncodesWithin, heq]
  intro hc
  cases hc

theorem newEngine_reachable : Reachable EncodesWithin (newEngine t) :=
  .execute (.start emptyDirectory) _ (newEngine_within hpath)

theorem newEngine_created : ∃ f, newEngine t = Engine.created { fs := emptyDirectory } t f := by
  obtain ⟨f, heq⟩ := newEngine_eq hpath
  exact ⟨f, congrArg Prod.snd heq⟩

theorem newEngine_find : (newEngine t).catalog.findTable t.tableName = some t := by
  obtain ⟨f, heq⟩ := newEngine_created hpath
  rw [heq]
  exact (Catalog.findTable_append rfl _).trans (if_pos rfl)

theorem newEngine_limit : (newEngine t).fs.limit = maxFileSize := by
  obtain ⟨f, heq⟩ := newEngine_created hpath
  rw [heq]
  exact Catalog.save_limit _ _

theorem newEngine_pages : (newEngine t).pages t = [(Page.init 0).data] := by
  obtain ⟨f, heq⟩ := newEngine_created hpath
  have hcat : t.filePath ≠ Catalog.path := hpath ▸ tablePath_ne_catalog _
  have hfile : (newEngine t).fs.files t.filePath = some (Page.init 0).data.val := by
    rw [heq, created, Catalog.save_files_of_ne _ _ hcat]
    exact (FileSystem.files_put _ _ _ _).trans (if_pos rfl)
  rw [pages, FileSystem.contents, hfile, Option.getD_some, ← flat_fresh,
    Block.cut_flat (by decide)]

theorem newEngine_rows : (newEngine t).rows t = [] := by
  rw [rows, newEngine_pages hpath, liveRows_fresh]

/-- The first INSERT. -/
theorem newEngine_insert {pr : ParseResult} (hkind : pr.statement.kind = .insert)
    (hname : pr.statement.tableName = t.tableName) {row : Row} {bytes : List UInt8}
    (hrow : rowFromInsertValues pr t.columns = .ok row)
    (hbytes : serializeRow row t.columns = .ok bytes) (h0 : 1 ≤ bytes.length)
    (hmax : bytes.length ≤ 4076) : EncodesWithin pr (newEngine t) ∧
      Inserted (newEngine t) t row bytes ((newEngine t).after pr) := by
  have hfind : (newEngine t).catalog.findTable pr.statement.tableName = some t := by
    rw [hname, newEngine_find hpath]
  refine (newEngine_reachable hpath).insert hkind hfind hrow hbytes h0 hmax ?_ ?_
  · intro _ _ _ _
    rw [newEngine_rows hpath]
    rfl
  · rw [newEngine_pages hpath, newEngine_limit hpath]
    exact two_pages_le

end NewEngine

/-- The only row of a table. -/
structure OneRow (w : Engine) (t : TableSchema) (row : Row) (bytes : List UInt8) : Prop where
  reachable : Reachable EncodesWithin w
  find : w.catalog.findTable t.tableName = some t
  limit_eq : w.fs.limit = maxFileSize
  pages_eq : w.pages t = [(Page.init 0).data, insertedInto (Page.init 1).data bytes]
  rows_eq : w.rows t = [row]

/-- The first row of a new table. -/
theorem oneRow {t : TableSchema} (hpath : t.filePath = tablePath t.tableName) {pr : ParseResult}
    (hkind : pr.statement.kind = .insert) (hname : pr.statement.tableName = t.tableName)
    {row : Row} {bytes : List UInt8} (hrow : rowFromInsertValues pr t.columns = .ok row)
    (hbytes : serializeRow row t.columns = .ok bytes) (h0 : 1 ≤ bytes.length)
    (hmax : bytes.length ≤ 4076) : OneRow ((newEngine t).after pr) t row bytes := by
  obtain ⟨hwithin, hins⟩ := newEngine_insert hpath hkind hname hrow hbytes h0 hmax
  obtain ⟨before, after, hold, hnew⟩ := hins.rows
  have hstored := hins.stored
  rw [newEngine_pages hpath] at hstored
  rw [newEngine_rows hpath] at hold
  obtain ⟨rfl, rfl⟩ := List.append_eq_nil_iff.1 hold.symm
  refine ⟨.execute (newEngine_reachable hpath) pr hwithin, ?_, ?_, ?_, hnew⟩
  · rw [hins.catalog_eq, newEngine_find hpath]
  · rw [hins.limit_eq, newEngine_limit hpath]
  · refine hstored.eq_append fun k b hk hb => ?_
    rw [List.getElem?_eq_none (by simpa using hk)] at hb
    cases hb

/-! ### A sample table -/

/-- A table with a primary key and another column. -/
def sampleTable : TableSchema where
  tableName := str "t"
  columns := [
    { name := str "a", type := .integer, textLength := 255, notNull := true, primaryKey := true },
    { name := str "b", type := .integer, textLength := 255 }]
  filePath := str "t.ms"

/-- `INSERT INTO t VALUES (a, b)` -/
def sampleInsert (a b : Int64) : ParseResult :=
  insertInto (str "t") [.literalInt a, .literalInt b]

/-- The sample table with the row `(1, 10)`. -/
def sampleOne : Engine := (newEngine sampleTable).after (sampleInsert 1 10)

/-- The encoding of the row `(1, 10)`. -/
def sampleBytes : List UInt8 := [0, 1, 0, 0, 0, 0, 0, 0, 0, 0, 10, 0, 0, 0, 0, 0, 0, 0]

theorem sampleBytes_eq : serializeRow [.int 1, .int 10] sampleTable.columns = .ok sampleBytes := by
  decide

theorem sampleOne_oneRow : OneRow sampleOne sampleTable [.int 1, .int 10] sampleBytes :=
  oneRow (by decide) rfl rfl rfl sampleBytes_eq (by decide) (by decide)

theorem sampleOne_space :
    (sampleOne.fs.contents sampleTable.filePath).length + pageSize ≤ sampleOne.fs.limit := by
  have hone := sampleOne_oneRow
  rw [hone.reachable.good.length_contents hone.find, hone.pages_eq, hone.limit_eq]
  decide

/-- The key 2 is new in the sample table. -/
theorem sampleOne_key (pk : ℕ) (v : Value) (hpk : primaryKeyIndex sampleTable.columns = some pk)
    (hv : [Value.int 2, Value.int 20][pk]? = some v) :
    ∀ r ∈ sampleOne.rows sampleTable, ∀ v', r[pk]? = some v' → v'.eq v = false := by
  intro r hr v' hv'
  rw [sampleOne_oneRow.rows_eq, List.mem_singleton] at hr
  subst hr
  obtain rfl : 0 = pk := Option.some.inj hpk
  cases hv
  cases hv'
  rfl

/-- The sample table with the rows `(1, 10)` and `(2, 20)`. -/
def sampleTwo : Engine := sampleOne.after (sampleInsert 2 20)

/-- The encoding of the row `(2, 20)`. -/
def sampleBytes2 : List UInt8 := [0, 2, 0, 0, 0, 0, 0, 0, 0, 0, 20, 0, 0, 0, 0, 0, 0, 0]

theorem sampleBytes2_eq :
    serializeRow [.int 2, .int 20] sampleTable.columns = .ok sampleBytes2 := by
  decide

theorem sampleTwo_inserted : EncodesWithin (sampleInsert 2 20) sampleOne ∧
    Engine.Inserted sampleOne sampleTable [.int 2, .int 20] sampleBytes2 sampleTwo := by
  have hfind : sampleOne.catalog.findTable (sampleInsert 2 20).statement.tableName =
      some sampleTable := sampleOne_oneRow.find
  have hrow : rowFromInsertValues (sampleInsert 2 20) sampleTable.columns =
      .ok [.int 2, .int 20] := rfl
  have hspace := sampleOne_space
  rw [sampleOne_oneRow.reachable.good.length_contents sampleOne_oneRow.find] at hspace
  exact sampleOne_oneRow.reachable.insert rfl hfind hrow sampleBytes2_eq (by decide) (by decide)
    (fun pk v hpk hv => any_holdsKey_eq_false.2 (sampleOne_key pk v hpk hv)) hspace

theorem sampleTwo_reachable : Reachable EncodesWithin sampleTwo :=
  .execute sampleOne_oneRow.reachable _ sampleTwo_inserted.1

theorem sampleTwo_find : sampleTwo.catalog.findTable (str "t") = some sampleTable := by
  rw [sampleTwo_inserted.2.catalog_eq]
  exact sampleOne_oneRow.find

theorem getElem?_pair {α : Type} {x y z : α} {k : ℕ} (hk : 1 ≤ k) (h : [x, y][k]? = some z) :
    k = 1 ∧ z = y := by
  match k, hk with
  | 1, _ => exact ⟨rfl, (Option.some.inj h).symm⟩
  | k + 2, _ => cases h

/-- The second row goes into the page of the first. -/
theorem sampleTwo_pages : sampleTwo.pages sampleTable = [(Page.init 0).data,
    insertedInto (insertedInto (Page.init 1).data sampleBytes) sampleBytes2] := by
  have hstored := sampleTwo_inserted.2.stored
  rw [sampleOne_oneRow.pages_eq] at hstored
  have hroom : HasRoom (insertedInto (Page.init 1).data sampleBytes) sampleBytes2.length := by
    decide +kernel
  generalize hpages : sampleTwo.pages sampleTable = cs at hstored
  cases hstored with
  | fits k b hk hb _ _ =>
    obtain ⟨rfl, rfl⟩ := getElem?_pair hk hb
    rfl
  | new hfull _ _ _ => exact absurd hroom (hfull 1 _ (le_refl 1) rfl)

theorem sampleTwo_rows :
    sampleTwo.rows sampleTable = [[.int 1, .int 10], [.int 2, .int 20]] := by
  rw [Engine.rows, sampleTwo_pages]
  decide +kernel

/-- A second row with another key. -/
theorem insert_adds_row_sample : (execInsert (sampleInsert 2 20) sampleOne).1 = .ok () := by
  have hfind : sampleOne.catalog.findTable (sampleInsert 2 20).statement.tableName =
      some sampleTable := sampleOne_oneRow.find
  have hrow : rowFromInsertValues (sampleInsert 2 20) sampleTable.columns =
      .ok [.int 2, .int 20] := rfl
  have hsize : ∀ bytes, serializeRow [.int 2, .int 20] sampleTable.columns = .ok bytes →
      1 ≤ bytes.length ∧ bytes.length ≤ 4076 := by
    intro bytes hbytes
    have hlen : bytes.length = 18 := length_serializeRow hbytes rfl
    rw [hlen]
    decide
  exact (insert_adds_row sampleOne_oneRow.reachable hfind hrow (.cons rfl (.cons rfl .nil)) hsize
    sampleOne_key sampleOne_space).1

end MicroSql
