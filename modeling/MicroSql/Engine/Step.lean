import MicroSql.Engine.Tables

/-!
# One statement

`CreateTable` and `execDropTable_apply` say how CREATE TABLE and DROP TABLE end.  With what
the other statements do to the pages of their table this gives the step of the invariant:
`Inv.executeWith`.
-/

namespace MicroSql

open Lib

namespace Engine

/-- `w` with the contents of one file replaced. -/
def putFile (w : Engine) (path : Str) (bytes : List UInt8) : Engine :=
  { w with fs := w.fs.put path bytes }

/-- The table that a CREATE TABLE statement describes. -/
def newTable (pr : ParseResult) : TableSchema where
  tableName := pr.statement.tableName
  columns := pr.statement.columnDefinitions
  filePath := tablePath pr.statement.tableName

/-- A handle that has the file at `path` open. -/
structure HandleOf (path : Str) (t : TableFile) : Prop where
  filePath_eq : t.filePath = path
  isOpen : t.file.isOpen = true
  path_eq : t.file.path = path

/-! ### CREATE TABLE -/

/-- The engine with a new table, which has the handle `t`. -/
def created (w : Engine) (schema : TableSchema) (t : TableFile) : Engine :=
  let c : Catalog := ⟨w.catalog.tables ++ [schema]⟩
  { catalog := c, openFiles := Function.update w.openFiles schema.tableName (some t),
    fs := c.save (w.fs.put schema.filePath (Page.init 0).data.val) }

/-- How CREATE TABLE ends.  The file is truncated before anything else is checked. -/
inductive CreateTable (w : Engine) (schema : TableSchema) :
    Except (Failure ExecError) Unit × Engine → Prop
  | notCreated (hw : w.fs.mayWrite schema.filePath = false) :
      CreateTable w schema (.error (.error .internalError), w)
  | notOpened (hw : w.fs.mayWrite schema.filePath = true)
      (hr : w.fs.mayRead schema.filePath = false ∨ w.fs.limit < pageSize) :
      CreateTable w schema (.error (.error .internalError), w.putFile schema.filePath [])
  | duplicate (hw : w.fs.mayWrite schema.filePath = true)
      (hfind : w.catalog.findTable schema.tableName ≠ none) :
      CreateTable w schema (.error (.error .duplicateTable),
        w.putFile schema.filePath (Page.init 0).data.val)
  | created (hw : w.fs.mayWrite schema.filePath = true)
      (hr : w.fs.mayRead schema.filePath = true) (hl : pageSize ≤ w.fs.limit)
      (hfind : w.catalog.findTable schema.tableName = none) {t : TableFile}
      (ht : HandleOf schema.filePath t) :
      CreateTable w schema (.ok (), w.created schema t)

theorem onFile_create_apply (w : Engine) (path : Str) :
    onFile { filePath := path } TableFile.create w =
      if w.fs.mayWrite path = false then (.error (.error .failedToCreateFile), w)
      else (.ok ((), { filePath := path }), w.putFile path []) := by
  by_cases hw : w.fs.mayWrite path = false
  · simp only [onFile, TableFile.create, Prog.gets_bind_apply, id_eq, Prog.failIf_pos hw,
      Prog.fail_bind_apply, if_pos hw]
  · simp only [onFile, TableFile.create, Prog.gets_bind_apply, id_eq, Prog.failIf_neg hw,
      Prog.pure_bind_apply, Prog.modify_apply, if_neg hw, putFile]

/-- Opening an empty file that has just been made. -/
theorem onFile_open_new (w : Engine) (path : Str) (hw : w.fs.mayWrite path = true) :
    onFile { filePath := path } (TableFile.open path) (w.putFile path []) =
      if w.fs.mayRead path = false then (.error (.error .failedToOpenFile), w.putFile path [])
      else (.ok ((), opened path), w.putFile path []) := by
  have hfile : (w.putFile path []).fs.files path = some [] := by
    simp [putFile]
  by_cases hr : w.fs.mayRead path = false
  · rw [if_pos hr]
    have hr' : (w.putFile path []).fs.mayRead path = false := hr
    simp only [onFile, TableFile.open, TableFile.check, Prog.modify_bind_apply, hfile, hr',
      Prog.gets_bind_apply, Bool.and_false, Bool.false_and, Prog.failIf_apply, if_false,
      if_true, Bool.false_eq_true]
  · rw [if_neg hr]
    have hr' : w.fs.mayRead path = true := by simpa using hr
    exact onFile_open_apply hfile hr' hw path

/-- Allocating the reserved page of a new file. -/
theorem onFile_allocatePage_new (w : Engine) (path : Str) :
    (w.fs.limit < pageSize ∧ onFile (opened path) TableFile.allocatePage (w.putFile path []) =
      (.error (.error .failedToWritePage), w.putFile path [])) ∨
    (pageSize ≤ w.fs.limit ∧ ∃ t, HandleOf path t ∧
      onFile (opened path) TableFile.allocatePage (w.putFile path []) =
        (.ok (0, t), w.putFile path (Page.init 0).data.val)) := by
  have hbacks : Backs w.fs path (opened path, w.fs.put path []) [] := ⟨rfl, rfl, rfl, rfl⟩
  have hpages := allocatePage_apply w.fs.limit []
  simp only [List.length_nil, Nat.zero_mul, Nat.zero_add, Nat.max_zero, Nat.zero_mod,
    List.nil_append] at hpages
  rcases sim_allocatePage.elim hbacks with ⟨a, s', bs', hc, hd, hq⟩ | ⟨e, s', bs', hc, hd, hq⟩
  · rw [hpages] at hd
    by_cases hl : w.fs.limit < pageSize
    · rw [if_pos hl] at hd
      cases hd
    · rw [if_neg hl] at hd
      cases hd
      refine .inr ⟨Nat.not_lt.1 hl, s'.1, ⟨hq.filePath_eq, hq.isOpen, hq.path_eq⟩, ?_⟩
      have hfs := hq.fs_eq
      rw [Block.flat_cons, Block.flat_nil, List.append_nil] at hfs
      simp only [onFile, putFile]
      rw [hc, ← hfs]
  · rw [hpages] at hd
    by_cases hl : w.fs.limit < pageSize
    · rw [if_pos hl] at hd
      cases hd
      refine .inl ⟨hl, ?_⟩
      have hfs := hq.fs_eq
      rw [Block.flat_nil] at hfs
      simp only [onFile, putFile]
      rw [hc, ← hfs]
    · rw [if_neg hl] at hd
      cases hd

theorem execCreateTable_cases (pr : ParseResult) (w : Engine) :
    CreateTable w (newTable pr) (execCreateTable pr w) := by
  rw [execCreateTable]
  dsimp only
  generalize hpath : tablePath pr.statement.tableName = path
  have hschema : newTable pr =
      { tableName := pr.statement.tableName, columns := pr.statement.columnDefinitions,
        filePath := path } := by
    rw [newTable, hpath]
  rw [hschema]
  have hcreate := onFile_create_apply w path
  by_cases hw : w.fs.mayWrite path = false
  · rw [if_pos hw] at hcreate
    rw [Prog.bind_apply, Prog.mapError_apply, hcreate]
    exact .notCreated hw
  have hw' : w.fs.mayWrite path = true := by simpa using hw
  -- from here on the file exists and is empty, whatever was in it
  rw [if_neg hw] at hcreate
  rw [Prog.bind_apply, Prog.mapError_apply, hcreate]
  simp only [mapError_ok]
  have hopen := onFile_open_new w path hw'
  by_cases hr : w.fs.mayRead path = false
  · rw [if_pos hr] at hopen
    rw [Prog.bind_apply, Prog.mapError_apply, hopen]
    exact .notOpened hw' (.inl hr)
  have hr' : w.fs.mayRead path = true := by simpa using hr
  rw [if_neg hr] at hopen
  rw [Prog.bind_apply, Prog.mapError_apply, hopen]
  simp only [mapError_ok]
  rcases onFile_allocatePage_new w path with ⟨hl, hrun⟩ | ⟨hl, t, ht, hrun⟩
  · rw [Prog.bind_apply, Prog.mapError_apply, hrun]
    exact .notOpened hw' (.inr hl)
  rw [Prog.bind_apply, Prog.mapError_apply, hrun]
  simp only [mapError_ok, Prog.gets_bind_apply, id_eq, Catalog.addTable_eq]
  -- only now the catalog is asked
  by_cases hfind : w.catalog.findTable pr.statement.tableName = none
  · have hfind' : (w.putFile path (Page.init 0).data.val).catalog.findTable
        pr.statement.tableName = none := hfind
    rw [if_pos hfind', mapError_ok, Prog.lift_ok_bind_apply]
    exact .created hw' hr' hl hfind ht
  · have hfind' : ¬(w.putFile path (Page.init 0).data.val).catalog.findTable
        pr.statement.tableName = none := hfind
    rw [if_neg hfind']
    exact .duplicate hw' hfind

/-! ### DROP TABLE -/

theorem execDropTable_none {pr : ParseResult} {w : Engine}
    (h : w.catalog.findTable pr.statement.tableName = none) :
    execDropTable pr w = (.error (.error .tableSchemaNotFound), w) := by
  rw [execDropTable]
  simp only [Prog.gets_bind_apply, id_eq]
  rw [Prog.failIf_pos h]
  rfl

/-- The engine without a table. -/
def dropped (w : Engine) (name : Str) (t : TableSchema) : Engine :=
  let c : Catalog := ⟨w.catalog.tables.eraseP fun t => t.tableName = name⟩
  { catalog := c, openFiles := Function.update w.openFiles name none,
    fs := c.save (w.fs.remove t.filePath) }

theorem execDropTable_some {pr : ParseResult} {w : Engine} {t : TableSchema}
    (h : w.catalog.findTable pr.statement.tableName = some t) :
    execDropTable pr w = (.ok (), w.dropped pr.statement.tableName t) := by
  rw [execDropTable]
  simp only [Prog.gets_bind_apply, id_eq]
  rw [Prog.failIf_neg (by simp [h]), Prog.pure_bind_apply, Prog.modify_bind_apply,
    Catalog.dropTable, h]
  rfl

/-! ### The step of the invariant -/

section Step

variable {T : TableSchema → List (Block pageSize) → Prop} {w : Engine}

/-- Writing the file of another table. -/
theorem Inv.files_putFile (h : Inv T w) {name name' : Str} {t : TableSchema}
    (hfind : w.catalog.findTable name = some t) (hne : name ≠ name') (bytes : List UInt8) :
    (w.putFile (tablePath name') bytes).fs.files t.filePath = w.fs.files t.filePath :=
  (FileSystem.files_put _ _ _ _).trans (if_neg (h.filePath_ne_tablePath hfind hne))

/-- Writing a file that belongs to no table. -/
theorem Inv.putFile_of_none (h : Inv T w) {name : Str} (hname : w.catalog.findTable name = none)
    (bytes : List UInt8) : Inv T (w.putFile (tablePath name) bytes) where
  names := h.names
  closed := h.closed
  table := by
    intro n t hfind
    have hne : n ≠ name := by
      rintro rfl
      exact Option.some_ne_none t (hfind.symm.trans hname)
    exact (h.table n t hfind).frame hfind (h.files_putFile hfind hne bytes) rfl rfl rfl rfl

/-- Replacing the pages of a table without opening it. -/
theorem Inv.putFile_of_some (h : Inv T w) {name : Str} {t : TableSchema}
    {bs bs' : List (Block pageSize)} (hs : w.Stores name t bs) (hp : TablePages bs')
    (hT : T t bs') : Inv T (w.putFile t.filePath (Block.flat bs')) where
  names := h.names
  closed := h.closed
  table := by
    intro n t' hfind
    have ht' := h.table n t' hfind
    by_cases hn : n = name
    · subst hn
      obtain rfl : t' = t := Option.some.inj (hfind.symm.trans hs.find)
      refine ⟨ht'.filePath_eq, ht'.pageSize_le, bs', ?_, hp, hT⟩
      refine ⟨hfind, ?_, hs.mayRead, hs.mayWrite, hs.handle⟩
      exact (FileSystem.files_put _ _ _ _).trans (if_pos rfl)
    · refine ht'.frame hfind ?_ rfl rfl rfl rfl
      exact (FileSystem.files_put _ _ _ _).trans (if_neg (h.filePath_ne hn hs.find hfind))

/-- The reserved page alone. -/
theorem tablePages_fresh : TablePages [(Page.init 0).data] where
  reserved := rfl
  length_le := by simp
  wf := by
    intro b hb
    cases List.mem_singleton.1 hb
    have hw := Page.wf_init 0
    exact ⟨hw.dir_le, hw.freePtr_le, hw.region, hw.disjoint⟩

theorem flat_fresh : Block.flat [(Page.init 0).data] = (Page.init 0).data.val := by
  rw [Block.flat_cons, Block.flat_nil, List.append_nil]

theorem Inv.created (h : Inv T w) (hfresh : ∀ t, T t [(Page.init 0).data]) {schema : TableSchema}
    {f : TableFile} (hpath : schema.filePath = tablePath schema.tableName)
    (hw : w.fs.mayWrite schema.filePath = true) (hr : w.fs.mayRead schema.filePath = true)
    (hl : pageSize ≤ w.fs.limit) (hfind : w.catalog.findTable schema.tableName = none)
    (hf : HandleOf schema.filePath f) : Inv T (w.created schema f) := by
  have hfile := h.putFile_of_none hfind (Page.init 0).data.val
  have hfindTable := Catalog.findTable_append hfind
  have hlimit : (w.created schema f).fs.limit = w.fs.limit := Catalog.save_limit _ _
  have hfs : ∀ n, (w.created schema f).fs.files (tablePath n) =
      (w.putFile (tablePath schema.tableName) (Page.init 0).data.val).fs.files (tablePath n) := by
    intro n
    rw [← hpath]
    exact Catalog.save_files_of_ne _ _ (tablePath_ne_catalog n)
  refine ⟨?_, ?_, ?_⟩
  · simp only [Engine.created]
    rw [List.map_append, List.map_singleton, List.nodup_append]
    refine ⟨h.names, List.nodup_singleton _, ?_⟩
    rintro n hn m hm rfl
    rw [List.mem_singleton] at hm
    exact Catalog.findTable_eq_none.1 hfind (hm ▸ hn)
  · intro n t ht
    have ht' := (hfindTable n).symm.trans ht
    by_cases hn : n = schema.tableName
    · -- the new table
      subst hn
      rw [if_pos rfl] at ht'
      cases ht'
      refine ⟨hpath, hl.trans_eq hlimit.symm, [(Page.init 0).data], ?_,
        tablePages_fresh, hfresh _⟩
      refine ⟨ht, ?_, ?_, ?_, fun f' hf' => ?_⟩
      · rw [hpath, hfs, flat_fresh]
        exact (FileSystem.files_put _ _ _ _).trans (if_pos rfl)
      · exact (congrFun (Catalog.save_mayRead _ _) _).trans hr
      · exact (congrFun (Catalog.save_mayWrite _ _) _).trans hw
      · have hself : (w.created schema f).openFiles schema.tableName = some f :=
          Function.update_self _ _ _
        obtain rfl : f = f' := Option.some.inj (hself.symm.trans hf')
        exact ⟨hf.filePath_eq, hf.isOpen, hf.path_eq⟩
    · rw [if_neg hn] at ht'
      have hold := hfile.table n t ht'
      refine hold.frame ht ?_ (Catalog.save_mayRead _ _) (Catalog.save_mayWrite _ _)
        (Catalog.save_limit _ _) (Function.update_of_ne hn _ _)
      rw [hold.filePath_eq, hfs]
  · intro n hn
    have hn' := (hfindTable n).symm.trans hn
    by_cases hne : n = schema.tableName
    · rw [if_pos hne] at hn'
      cases hn'
    · rw [if_neg hne] at hn'
      exact (Function.update_of_ne hne _ _).trans (h.closed n hn')

/-- A table that exists can be opened, and its file has room for a page. -/
theorem Inv.not_found (h : Inv T w) {name : Str}
    (hr : w.fs.mayRead (tablePath name) = false ∨ w.fs.limit < pageSize) :
    w.catalog.findTable name = none := by
  by_contra hfind
  obtain ⟨t, hfind⟩ := Option.ne_none_iff_exists'.1 hfind
  have ht := h.table name t hfind
  obtain ⟨bs, hs, -, -⟩ := ht.stored
  rcases hr with hr | hl
  · have hread := hs.mayRead
    rw [ht.filePath_eq, hr] at hread
    cases hread
  · exact absurd ht.pageSize_le (Nat.not_le.2 hl)

theorem Inv.execCreateTable (h : Inv T w) (hfresh : ∀ t, T t [(Page.init 0).data])
    (pr : ParseResult) : Inv T (execCreateTable pr w).2 := by
  have hcases := execCreateTable_cases pr w
  generalize MicroSql.execCreateTable pr w = r at hcases
  cases hcases with
  | notCreated hw => exact h
  | notOpened hw hr => exact h.putFile_of_none (h.not_found hr) []
  | duplicate hw hfind =>
    obtain ⟨t, hfind⟩ := Option.ne_none_iff_exists'.1 hfind
    have ht := h.table _ t hfind
    obtain ⟨bs, hs, -, -⟩ := ht.stored
    have hput := h.putFile_of_some hs tablePages_fresh (hfresh t)
    rw [flat_fresh, ht.filePath_eq] at hput
    exact hput
  | created hw hr hl hfind hf => exact h.created hfresh rfl hw hr hl hfind hf

theorem Inv.dropped (h : Inv T w) {name : Str} {t : TableSchema}
    (hfind : w.catalog.findTable name = some t) : Inv T (w.dropped name t) := by
  have hfindTable := Catalog.findTable_eraseP h.names name
  refine ⟨?_, ?_, ?_⟩
  · exact h.names.sublist ((List.eraseP_sublist).map _)
  · intro n t' ht'
    have hfind' := ht'
    simp only [Engine.dropped] at hfind'
    rw [hfindTable] at hfind'
    by_cases hn : n = name
    · rw [if_pos hn] at hfind'
      cases hfind'
    · rw [if_neg hn] at hfind'
      have hold := h.table n t' hfind'
      refine hold.frame ht' ?_ (Catalog.save_mayRead _ _) (Catalog.save_mayWrite _ _)
        (Catalog.save_limit _ _) (Function.update_of_ne hn _ _)
      simp only [Engine.dropped]
      rw [Catalog.save_files_of_ne _ _ (h.filePath_ne_catalog hfind')]
      exact Function.update_of_ne (h.filePath_ne hn hfind hfind') _ _
  · intro n hn
    simp only [Engine.dropped] at hn ⊢
    rw [hfindTable] at hn
    by_cases hne : n = name
    · rw [hne, Function.update_self]
    · rw [if_neg hne] at hn
      rw [Function.update_of_ne hne, h.closed n hn]

/-! ### The other statements -/

/-- How a statement on table `name` ends that does `d` on the array of the table's pages. -/
inductive RunsOn (T : TableSchema → List (Block pageSize) → Prop) (w : Engine) (name : Str)
    {α : Type} (d : Schema → Prog (List (Block pageSize)) (Failure ExecError) α) :
    Except (Failure ExecError) α × Engine → Prop
  | missing (hfind : w.catalog.findTable name = none) :
      RunsOn T w name d (.error (.error .tableSchemaNotFound), w)
  | ran {t : TableSchema} {bs : List (Block pageSize)} {w' : Engine} (hs : w.Stores name t bs)
      (hp : TablePages bs) (hT : T t bs)
      (hc : Changes w name t.filePath (d t.columns bs).2 w') :
      RunsOn T w name d ((d t.columns bs).1, w')

theorem Inv.runsOn (h : Inv T w) (name : Str) {α : Type}
    {c : TableSchema → Prog Engine (Failure ExecError) α}
    {d : Schema → Prog (List (Block pageSize)) (Failure ExecError) α}
    (hsim : ∀ t : TableSchema, Prog.Sim (Serves Backs w name t.filePath) (c t) (d t.columns)
      (Serves BacksClean w name t.filePath) (Serves Backs w name t.filePath)) :
    RunsOn T w name d ((resolveTable name >>= c) w) := by
  cases hfind : w.catalog.findTable name with
  | none =>
    have hres : resolveTable name w = (.error (.error .tableSchemaNotFound), w) := by
      simp only [resolveTable, Prog.gets_bind_apply, id_eq, hfind, Prog.fail_apply]
    rw [Prog.bind_error hres]
    exact .missing hfind
  | some t =>
    obtain ⟨bs, hs, hp, hT⟩ := (h.table name t hfind).stored
    obtain ⟨w', hrun, hchange⟩ := run_on_table hs (hsim t)
    rw [hrun]
    exact .ran hs hp hT hchange

/-- A statement that keeps `T` and the form of the pages keeps the invariant. -/
theorem RunsOn.inv {name : Str} {α : Type}
    {d : Schema → Prog (List (Block pageSize)) (Failure ExecError) α}
    {r : Except (Failure ExecError) α × Engine} (hr : RunsOn T w name d r) (h : Inv T w)
    (hstep : ∀ t bs, w.Stores name t bs → TablePages bs → T t bs →
      TablePages (d t.columns bs).2 ∧ T t (d t.columns bs).2) : Inv T r.2 := by
  cases hr with
  | missing hfind => exact h
  | @ran t bs w' hs hp hT hc =>
    obtain ⟨hp', hT'⟩ := hstep t bs hs hp hT
    exact h.changes hs hc hp' hT'

/-- SELECT on an array of pages. -/
def selectOn (limit : ℕ) (pr : ParseResult) (columns : Schema) :
    Prog (List (Block pageSize)) (Failure ExecError) Result := do
  let (columns, rows) ← selectRows (pageArray limit) pr columns
  return { columns := columns, rows := rows }

theorem selectOn_apply {bs : List (Block pageSize)} (h : TablePages bs) (limit : ℕ)
    (pr : ParseResult) (columns : Schema) :
    selectOn limit pr columns bs =
      (do
        let names ← selectedColumns pr (columns.map (·.name))
        let rows ← selectFrom (whereMatches pr · names) (storedRows columns bs)
        return { columns := names, rows := rows }, bs) := by
  rw [selectOn, Prog.bind_apply, selectRows_apply h]
  generalize selectedColumns pr (columns.map (·.name)) = names
  rcases names with e | names
  · rfl
  rw [ok_bind, ok_bind]
  generalize selectFrom (whereMatches pr · names) (storedRows columns bs) = rows
  rcases rows with e | rows
  · rfl
  · rfl

section Runs

variable (h : Inv T w) (serialize : Row → Schema → Expected RowError (List UInt8))
  (pr : ParseResult)

include h

theorem Inv.runs_select :
    RunsOn T w pr.statement.tableName (selectOn w.fs.limit pr) (execSelect pr w) :=
  h.runsOn pr.statement.tableName fun t =>
    Prog.Sim.bind ((openFile_sim w _ _).selectRows_sim pr t.columns) fun _ => Prog.Sim.pure _

theorem Inv.runs_insert :
    RunsOn T w pr.statement.tableName (insertRow (pageArray w.fs.limit) serialize pr)
      (execInsertWith serialize pr w) :=
  h.runsOn pr.statement.tableName fun t => (openFile_sim w _ _).insertRow_sim serialize pr t.columns

theorem Inv.runs_delete :
    RunsOn T w pr.statement.tableName (deleteRows (pageArray w.fs.limit) pr) (execDelete pr w) :=
  h.runsOn pr.statement.tableName fun t => (openFile_sim w _ _).deleteRows_sim pr t.columns

theorem Inv.runs_update :
    RunsOn T w pr.statement.tableName (updateRows (pageArray w.fs.limit) serialize pr)
      (execUpdateWith serialize pr w) :=
  h.runsOn pr.statement.tableName fun t =>
    (openFile_sim w _ _).updateRows_sim serialize pr t.columns

end Runs

theorem orError_snd (c : Prog Engine (Failure ExecError) Result) (w : Engine) :
    (orError c w).2 = (c w).2 := by
  unfold orError
  rcases c w with ⟨(e | f) | r, w'⟩ <;> rfl

theorem bind_pure_snd {α β : Type} (c : Prog Engine (Failure ExecError) α) (f : α → β)
    (w : Engine) : ((do return f (← c)) w).2 = (c w).2 := by
  rw [Prog.bind_apply]
  rcases c w with ⟨e | a, w'⟩ <;> rfl

/-- **The step of the invariant.**  Every statement, whether it succeeds or fails, keeps the
invariant if `T` holds of new tables and of the pages that the statement leaves. -/
theorem Inv.executeWith (h : Inv T w) (hfresh : ∀ t, T t [(Page.init 0).data])
    (serialize : Row → Schema → Expected RowError (List UInt8)) (pr : ParseResult)
    (hstep : ∀ t bs, w.Stores pr.statement.tableName t bs → TablePages bs → T t bs →
      T t (pagesAfter w.fs.limit serialize pr t.columns bs)) :
    Inv T (executeWith serialize pr w).2 := by
  have hafter : ∀ t bs, w.Stores pr.statement.tableName t bs → TablePages bs → T t bs →
      TablePages (pagesAfter w.fs.limit serialize pr t.columns bs) ∧
        T t (pagesAfter w.fs.limit serialize pr t.columns bs) := fun t bs hs hp hT =>
    ⟨hp.after w.fs.limit_le serialize pr t.columns, hstep t bs hs hp hT⟩
  unfold pagesAfter at hafter
  rw [MicroSql.executeWith, orError_snd]
  cases hkind : pr.statement.kind with
  | select =>
    have hinv := (h.runs_select pr).inv h fun t bs hs hp hT => by
      rw [selectOn_apply hp]
      exact ⟨hp, hT⟩
    rwa [← bind_pure_snd] at hinv
  | insert =>
    rw [hkind] at hafter
    have hinv := (h.runs_insert serialize pr).inv h hafter
    rwa [← bind_pure_snd] at hinv
  | delete =>
    rw [hkind] at hafter
    have hinv := (h.runs_delete pr).inv h hafter
    rwa [← bind_pure_snd] at hinv
  | update =>
    rw [hkind] at hafter
    have hinv := (h.runs_update serialize pr).inv h hafter
    rwa [← bind_pure_snd] at hinv
  | createTable =>
    have hinv := h.execCreateTable hfresh pr
    rwa [← bind_pure_snd] at hinv
  | dropTable =>
    have hinv : Inv T (execDropTable pr w).2 := by
      cases hfind : w.catalog.findTable pr.statement.tableName with
      | none =>
        rw [execDropTable_none hfind]
        exact h
      | some t =>
        rw [execDropTable_some hfind]
        exact h.dropped hfind
    rwa [← bind_pure_snd] at hinv
  | _ => exact h

end Step

end Engine

end MicroSql
