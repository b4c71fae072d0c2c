import MicroSql.Engine.Select
import MicroSql.Lib.Components
import Mathlib.Data.List.Induction

/-!
# The tables of the engine are independent

The engine spreads a table over the catalog, the open handles and the files.  Seen by the
statements, it is a schema with a list of pages: `tableStep` says what a statement does to
the one table that it names, and `Engine.tableAt` reads that table off an engine.
`tables_components` connects the two: the engine is made of its tables, each of which runs
by itself.
-/

namespace MicroSql

open Lib

/-! ### One table by itself -/

/-- A table of the catalog with the pages of its file. -/
structure StoredTable where
  schema : TableSchema
  pages : List (Block pageSize)

/-- What the process may do with files. -/
structure Access where
  mayRead : Str → Bool
  mayWrite : Str → Bool
  limit : ℕ

/-- What a file system allows. -/
def FileSystem.access (fs : FileSystem) : Access where
  mayRead := fs.mayRead
  mayWrite := fs.mayWrite
  limit := fs.limit

/-- The file at `path` can be made, and has room for the reserved page. -/
structure Access.Allows (access : Access) (path : Str) : Prop where
  mayRead : access.mayRead path = true
  mayWrite : access.mayWrite path = true
  pageSize_le : pageSize ≤ access.limit

instance (access : Access) (path : Str) : Decidable (access.Allows path) :=
  decidable_of_iff (access.mayRead path = true ∧ access.mayWrite path = true ∧
    pageSize ≤ access.limit) ⟨fun ⟨hr, hw, hl⟩ => ⟨hr, hw, hl⟩, fun ⟨hr, hw, hl⟩ => ⟨hr, hw, hl⟩⟩

/-- A statement on a table that there may or may not be. -/
abbrev OnTable (α : Type) : Type := Prog (Option StoredTable) (Failure ExecError) α

/-- Run `d` on the pages of the table. -/
def onPages {α : Type} (d : Schema → Prog (List (Block pageSize)) (Failure ExecError) α) :
    OnTable α := fun
  | none => (.error (.error .tableSchemaNotFound), none)
  | some t => ((d t.schema.columns t.pages).1,
      some { t with pages := (d t.schema.columns t.pages).2 })

/-- CREATE TABLE makes a table with the reserved page alone, also out of one that exists. -/
def createOn (access : Access) (pr : ParseResult) : OnTable Unit := fun t =>
  if access.Allows (tablePath pr.statement.tableName) then
    match t with
    | none => (.ok (), some ⟨Engine.newTable pr, [(Page.init 0).data]⟩)
    | some t => (.error (.error .duplicateTable), some { t with pages := [(Page.init 0).data] })
  else (.error (.error .internalError), t)

/-- DROP TABLE takes the table away. -/
def dropOn : OnTable Unit := fun
  | none => (.error (.error .tableSchemaNotFound), none)
  | some _ => (.ok (), none)

/-- What a statement does to the table that it names. -/
def statementOn (access : Access) (pr : ParseResult) : OnTable Result :=
  match pr.statement.kind with
  | .select => do
    let result ← onPages (Engine.selectOn access.limit pr)
    return { result with message := countRows (rowCount result.rows) }
  | .insert => do
    onPages (insertRow (pageArray access.limit) serializeRow pr)
    return { message := str "1 row inserted" }
  | .delete => do
    let n ← onPages (deleteRows (pageArray access.limit) pr)
    return { message := countRows n ++ str " deleted" }
  | .update => do
    let n ← onPages (updateRows (pageArray access.limit) serializeRow pr)
    return { message := countRows n ++ str " updated" }
  | .createTable => do
    createOn access pr
    return { message := str "Table created" }
  | .dropTable => do
    dropOn
    return { message := str "Table dropped" }
  | .createIndex | .begin | .commit | .rollback => .fail (.error .notImplemented)

/-- The result that `execute` makes of what a statement returned. -/
def resultOf : Except (Failure ExecError) Result → Except Fault Result
  | .ok r => .ok r
  | .error (.error e) => .ok (makeError e)
  | .error (.fault f) => .error f

/-- The machine of one table. -/
def tableStep (access : Access) : Machine (Option StoredTable) ParseResult (Except Fault Result) :=
  fun pr t => (resultOf (statementOn access pr t).1, (statementOn access pr t).2)

/-! ### The table of an engine -/

namespace Engine

/-- The table of that name. -/
def tableAt (w : Engine) (name : Str) : Option StoredTable :=
  (w.catalog.findTable name).map fun t => ⟨t, w.pages t⟩

theorem tableAt_none {w : Engine} {name : Str} (h : w.catalog.findTable name = none) :
    w.tableAt name = none := by
  rw [tableAt, h]
  rfl

theorem tableAt_some {w : Engine} {name : Str} {t : TableSchema}
    (h : w.catalog.findTable name = some t) : w.tableAt name = some ⟨t, w.pages t⟩ := by
  rw [tableAt, h]
  rfl

/-- A table that has the same schema and the same file. -/
theorem tableAt_congr {w w' : Engine} {name : Str}
    (hfind : w'.catalog.findTable name = w.catalog.findTable name)
    (hfile : ∀ t, w.catalog.findTable name = some t →
      w'.fs.files t.filePath = w.fs.files t.filePath) : w'.tableAt name = w.tableAt name := by
  cases h : w.catalog.findTable name with
  | none => rw [tableAt_none h, tableAt_none (hfind.trans h)]
  | some t =>
    rw [tableAt_some h, tableAt_some (hfind.trans h), pages, pages, FileSystem.contents,
      FileSystem.contents, hfile t h]

/-- The step from `w` to `w'` does to the table `name` what `d` does, and nothing to the
other tables. -/
structure ActsOn {α : Type} (w : Engine) (name : Str) (d : OnTable α)
    (r : Except (Failure ExecError) α × Engine) : Prop where
  result : r.1 = (d (w.tableAt name)).1
  own : r.2.tableAt name = (d (w.tableAt name)).2
  others : ∀ n, n ≠ name → r.2.tableAt n = w.tableAt n
  access_eq : r.2.fs.access = w.fs.access

section Acts

variable {α β : Type} {w : Engine} {name : Str} {d : OnTable α}

/-- A statement only wraps the value that it returns. -/
theorem ActsOn.map {c : Prog Engine (Failure ExecError) α} (h : ActsOn w name d (c w)) (f : α → β) :
    ActsOn w name (do return f (← d)) ((do return f (← c) : Prog Engine _ β) w) := by
  obtain ⟨hresult, hown, hothers, haccess⟩ := h
  rcases hc : c w with ⟨e | a, w'⟩ <;> rcases hd : d (w.tableAt name) with ⟨e' | b, t⟩ <;>
    rw [hc] at hresult hown hothers haccess <;> rw [hd] at hresult hown <;> cases hresult
  · rw [Prog.bind_error hc]
    exact ⟨by rw [Prog.bind_error hd], by rw [Prog.bind_error hd]; exact hown, hothers, haccess⟩
  · rw [Prog.bind_ok hc]
    exact ⟨by rw [Prog.bind_ok hd]; rfl, by rw [Prog.bind_ok hd]; exact hown, hothers, haccess⟩

variable {T : TableSchema → List (Block pageSize) → Prop}

/-- The statements that read and write the pages of their table. -/
theorem RunsOn.actsOn {d : Schema → Prog (List (Block pageSize)) (Failure ExecError) α}
    {r : Except (Failure ExecError) α × Engine} (hr : RunsOn T w name d r) (h : Inv T w) :
    ActsOn w name (onPages d) r := by
  cases hr with
  | missing hfind =>
    constructor
    · rw [tableAt_none hfind]
      rfl
    · rw [tableAt_none hfind]
      rfl
    · exact fun _ _ => rfl
    · rfl
  | @ran t bs w' hs hp hT hc =>
    have hat : w.tableAt name = some ⟨t, bs⟩ := by
      rw [tableAt_some hs.find, hs.pages_eq]
    constructor
    · rw [hat]
      rfl
    · have hfind : w'.catalog.findTable name = some t := by
        rw [hc.catalog_eq]
        exact hs.find
      have hpages : w'.pages t = (d t.columns bs).2 := by
        rw [pages, hc.fs_eq, FileSystem.contents_put_self, Block.cut_flat (by decide)]
      rw [hat, tableAt_some hfind, hpages]
      rfl
    · intro n hn
      refine tableAt_congr (by rw [hc.catalog_eq]) fun t' hfind => ?_
      rw [hc.fs_eq, FileSystem.files_put, if_neg (h.filePath_ne hn hs.find hfind)]
    · rw [hc.fs_eq]
      rfl

theorem Inv.allows (h : Inv T w) {t : TableSchema} (hfind : w.catalog.findTable name = some t) :
    w.fs.access.Allows (tablePath name) := by
  have ht := h.table name t hfind
  obtain ⟨bs, hs, -, -⟩ := ht.stored
  rw [← ht.filePath_eq]
  exact ⟨hs.mayRead, hs.mayWrite, ht.pageSize_le⟩

theorem createOn_refused {access : Access} {pr : ParseResult}
    (h : ¬access.Allows (tablePath pr.statement.tableName)) (t : Option StoredTable) :
    createOn access pr t = (.error (.error .internalError), t) := if_neg h

theorem createOn_none {access : Access} {pr : ParseResult}
    (h : access.Allows (tablePath pr.statement.tableName)) :
    createOn access pr none = (.ok (), some ⟨newTable pr, [(Page.init 0).data]⟩) := if_pos h

theorem createOn_some {access : Access} {pr : ParseResult}
    (h : access.Allows (tablePath pr.statement.tableName)) (t : StoredTable) :
    createOn access pr (some t) =
      (.error (.error .duplicateTable), some { t with pages := [(Page.init 0).data] }) := if_pos h

theorem pages_putFile_fresh {t : TableSchema} :
    (w.putFile t.filePath (Page.init 0).data.val).pages t = [(Page.init 0).data] := by
  rw [pages, putFile, FileSystem.contents_put_self, ← flat_fresh, Block.cut_flat (by decide)]

/-- Writing the file of a table that does not exist, or that is not looked at. -/
theorem Inv.tableAt_putFile (h : Inv T w) {n : Str} (hn : n ≠ name) (bytes : List UInt8) :
    (w.putFile (tablePath name) bytes).tableAt n = w.tableAt n :=
  tableAt_congr rfl fun _ hfind => h.files_putFile hfind hn bytes

theorem Inv.create_actsOn (h : Inv T w) (pr : ParseResult) :
    ActsOn w pr.statement.tableName (createOn w.fs.access pr) (MicroSql.execCreateTable pr w) := by
  have hcases := execCreateTable_cases pr w
  generalize MicroSql.execCreateTable pr w = r at hcases
  have hpath : (newTable pr).filePath = tablePath pr.statement.tableName := rfl
  cases hcases with
  | notCreated hw =>
    have hrefused : ¬w.fs.access.Allows (tablePath pr.statement.tableName) := fun ha =>
      Bool.noConfusion (hw.symm.trans ha.mayWrite)
    constructor
    · rw [createOn_refused hrefused]
    · rw [createOn_refused hrefused]
    · exact fun _ _ => rfl
    · rfl
  | notOpened hw hopen =>
    have hrefused : ¬w.fs.access.Allows (tablePath pr.statement.tableName) := by
      rintro ⟨hr, -, hl⟩
      rcases hopen with hr' | hl'
      · exact Bool.noConfusion (hr'.symm.trans hr)
      · exact absurd hl (Nat.not_le.2 hl')
    have hnone : w.catalog.findTable pr.statement.tableName = none := h.not_found hopen
    constructor
    · rw [createOn_refused hrefused]
    · rw [createOn_refused hrefused, tableAt_none hnone]
      exact tableAt_none hnone
    · exact fun n hn => h.tableAt_putFile hn []
    · rfl
  | duplicate hw hfind =>
    obtain ⟨t, hfind⟩ := Option.ne_none_iff_exists'.1 hfind
    have hfind' : w.catalog.findTable pr.statement.tableName = some t := hfind
    have hallows := h.allows hfind'
    have hfile : t.filePath = (newTable pr).filePath := (h.table _ t hfind').filePath_eq
    constructor
    · rw [tableAt_some hfind', createOn_some hallows]
    · rw [tableAt_some hfind', createOn_some hallows, ← hfile]
      rw [tableAt_some (show (w.putFile t.filePath _).catalog.findTable _ = some t from hfind'),
        pages_putFile_fresh]
    · exact fun n hn => h.tableAt_putFile hn _
    · rfl
  | @created hw hr hl hnone f hf =>
    have hallows : w.fs.access.Allows (tablePath pr.statement.tableName) := ⟨hr, hw, hl⟩
    have hfindTable := Catalog.findTable_append hnone
    have hnone : w.catalog.findTable pr.statement.tableName = none := hnone
    -- the table files are those with the new file written
    have hfiles : ∀ n, (w.created (newTable pr) f).fs.files (tablePath n) =
        (w.putFile (newTable pr).filePath (Page.init 0).data.val).fs.files (tablePath n) :=
      fun n => Catalog.save_files_of_ne _ _ (tablePath_ne_catalog n)
    constructor
    · rw [tableAt_none hnone, createOn_none hallows]
    · have hfind : (w.created (newTable pr) f).catalog.findTable pr.statement.tableName =
          some (newTable pr) := (hfindTable _).trans (if_pos rfl)
      rw [tableAt_none hnone, createOn_none hallows, tableAt_some hfind]
      have hpages : (w.created (newTable pr) f).pages (newTable pr) =
          (w.putFile (newTable pr).filePath (Page.init 0).data.val).pages (newTable pr) := by
        rw [pages, pages, FileSystem.contents, FileSystem.contents, hpath, hfiles, hpath]
      rw [hpages, pages_putFile_fresh]
    · intro n hn
      rw [← h.tableAt_putFile hn (Page.init 0).data.val]
      refine tableAt_congr ((hfindTable n).trans (if_neg hn)) fun t hfind => ?_
      rw [(h.table n t hfind).filePath_eq, hfiles, hpath]
    · rw [Engine.created, FileSystem.access, Catalog.save_mayRead, Catalog.save_mayWrite,
        Catalog.save_limit]
      rfl

theorem Inv.drop_actsOn (h : Inv T w) (pr : ParseResult) :
    ActsOn w pr.statement.tableName dropOn (execDropTable pr w) := by
  cases hfind : w.catalog.findTable pr.statement.tableName with
  | none =>
    rw [execDropTable_none hfind]
    constructor
    · rw [tableAt_none hfind]
      rfl
    · exact (tableAt_none hfind).trans (by rw [tableAt_none hfind]; rfl)
    · exact fun _ _ => rfl
    · rfl
  | some t =>
    have hfindTable := Catalog.findTable_eraseP h.names pr.statement.tableName
    rw [execDropTable_some hfind]
    constructor
    · rw [tableAt_some hfind]
      rfl
    · rw [tableAt_some hfind]
      exact tableAt_none ((hfindTable _).trans (if_pos rfl))
    · intro n hn
      refine tableAt_congr ((hfindTable n).trans (if_neg hn)) fun t' hfind' => ?_
      rw [Engine.dropped, Catalog.save_files_of_ne _ _ (h.filePath_ne_catalog hfind')]
      exact Function.update_of_ne (h.filePath_ne hn hfind hfind') _ _
    · rw [Engine.dropped, FileSystem.access, Catalog.save_mayRead, Catalog.save_mayWrite,
        Catalog.save_limit]
      rfl

/-- **A statement acts on the table that it names.** -/
theorem Inv.execute_actsOn (h : Inv T w) (pr : ParseResult) :
    ∃ r, ActsOn w pr.statement.tableName (statementOn w.fs.access pr) r ∧
      execute pr w = (resultOf r.1, r.2) := by
  have horError : ∀ c : Prog Engine (Failure ExecError) Result,
      orError c w = (resultOf (c w).1, (c w).2) := by
    intro c
    unfold orError
    rcases c w with ⟨(e | f) | r, w'⟩ <;> rfl
  have hnothing : ActsOn w pr.statement.tableName
      (Prog.fail (.error .notImplemented) : OnTable Result) (.error (.error .notImplemented), w) :=
    ⟨rfl, rfl, fun _ _ => rfl, rfl⟩
  rw [execute, MicroSql.executeWith, statementOn]
  cases pr.statement.kind with
  | select => exact ⟨_, ((h.runs_select pr).actsOn h).map _, horError _⟩
  | insert => exact ⟨_, ((h.runs_insert serializeRow pr).actsOn h).map _, horError _⟩
  | delete => exact ⟨_, ((h.runs_delete pr).actsOn h).map _, horError _⟩
  | update => exact ⟨_, ((h.runs_update serializeRow pr).actsOn h).map _, horError _⟩
  | createTable => exact ⟨_, (h.create_actsOn pr).map _, horError _⟩
  | dropTable => exact ⟨_, (h.drop_actsOn pr).map _, horError _⟩
  | _ => exact ⟨_, hnothing, horError _⟩

end Acts

/-! ### Runs -/

/-- The engine as a machine that takes statements. -/
abbrev machine : Machine Engine ParseResult (Except Fault Result) := fun pr w => execute pr w

/-- The engine after a list of statements. -/
abbrev run (w : Engine) (prs : List ParseResult) : Engine := machine.run w prs

/-- The statements with their results. -/
abbrev results (w : Engine) (prs : List ParseResult) : List (ParseResult × Except Fault Result) :=
  machine.trace w prs

/-- An engine whose tables are well formed, with the given access to files. -/
structure Sound (access : Access) (w : Engine) : Prop where
  inv : Inv (fun _ _ => True) w
  access_eq : w.fs.access = access

/-- **The engine is made of its tables.** -/
theorem tables_components (access : Access) :
    machine.Components (fun pr => pr.statement.tableName) (Sound access) tableAt
      (tableStep access) where
  good pr w h := by
    obtain ⟨r, hacts, hrun⟩ := h.inv.execute_actsOn pr
    refine ⟨h.inv.executeWith (fun _ => trivial) serializeRow pr fun _ _ _ _ _ => trivial, ?_⟩
    rw [machine, hrun, hacts.access_eq, h.access_eq]
  output pr w h := by
    obtain ⟨r, hacts, hrun⟩ := h.inv.execute_actsOn pr
    rw [machine, hrun, tableStep, ← h.access_eq, ← hacts.result]
  own pr w h := by
    obtain ⟨r, hacts, hrun⟩ := h.inv.execute_actsOn pr
    rw [machine, hrun, tableStep, ← h.access_eq, ← hacts.own]
  others pr w h n hn := by
    obtain ⟨r, hacts, hrun⟩ := h.inv.execute_actsOn pr
    rw [machine, hrun]
    exact hacts.others n hn

theorem Sound.start (fs : FileSystem) : Sound fs.access { fs := fs } := ⟨Inv.start _ fs, rfl⟩

theorem Sound.run {access : Access} {w : Engine} (h : Sound access w) (prs : List ParseResult) :
    Sound access (w.run prs) := (tables_components access).good_run h prs

end Engine

open Engine

/-! ### Creating and emptying -/

/-- The statement is a CREATE TABLE for `name` that succeeds on `w`. -/
structure Creates (w : Engine) (name : Str) (pr : ParseResult) : Prop where
  kind : pr.statement.kind = .createTable
  tableName : pr.statement.tableName = name
  success : ∃ r, (execute pr w).1 = .ok r ∧ r.success = true

theorem tableStep_create {access : Access} {pr : ParseResult}
    (hkind : pr.statement.kind = .createTable) (t : Option StoredTable) :
    tableStep access pr t =
      (resultOf ((createOn access pr t).1.map fun _ => { message := str "Table created" }),
        (createOn access pr t).2) := by
  rw [tableStep, statementOn, hkind]
  dsimp only
  rw [Prog.bind_apply]
  rcases createOn access pr t with ⟨e | u, t'⟩ <;> rfl

/-- A CREATE TABLE succeeds where there is no table of that name, if the file can be made. -/
theorem Engine.Sound.creates_iff {access : Access} {w : Engine} (h : Sound access w) {name : Str}
    {pr : ParseResult} : Creates w name pr ↔ pr.statement.kind = .createTable ∧
      pr.statement.tableName = name ∧ w.tableAt name = none ∧ access.Allows (tablePath name) := by
  constructor
  · rintro ⟨hkind, rfl, r, hr, hsuccess⟩
    refine ⟨hkind, rfl, ?_⟩
    have hout := (tables_components access).output pr w h
    rw [machine, hr, tableStep_create hkind] at hout
    by_cases hallows : access.Allows (tablePath pr.statement.tableName)
    · rcases ht : w.tableAt pr.statement.tableName with _ | t
      · exact ⟨rfl, hallows⟩
      · rw [ht, createOn_some hallows] at hout
        cases hout
        cases hsuccess
    · rw [createOn_refused hallows] at hout
      cases hout
      cases hsuccess
  · rintro ⟨hkind, rfl, hnone, hallows⟩
    refine ⟨hkind, rfl, { message := str "Table created" }, ?_, rfl⟩
    have hout := (tables_components access).output pr w h
    rw [tableStep_create hkind, hnone, createOn_none hallows] at hout
    exact hout

/-- The table that a CREATE TABLE leaves. -/
theorem Creates.tableAt_after {access : Access} {w : Engine} {name : Str} {pr : ParseResult}
    (hc : Creates w name pr) (h : Sound access w) :
    (w.run [pr]).tableAt name = some ⟨newTable pr, [(Page.init 0).data]⟩ := by
  obtain ⟨hkind, rfl, hnone, hallows⟩ := h.creates_iff.1 hc
  have hown := (tables_components access).own pr w h
  rw [tableStep_create hkind, hnone, createOn_none hallows] at hown
  exact hown

/-- A statement that makes a table where there was none is a CREATE TABLE that succeeds. -/
theorem Engine.Sound.creates_of_appears {access : Access} {w : Engine} (h : Sound access w)
    {name : Str} {pr : ParseResult} (hnone : w.tableAt name = none)
    (hsome : (w.run [pr]).tableAt name ≠ none) : Creates w name pr := by
  by_cases hname : name = pr.statement.tableName
  · subst hname
    have hown : (w.run [pr]).tableAt pr.statement.tableName =
        (tableStep access pr (w.tableAt pr.statement.tableName)).2 :=
      (tables_components access).own pr w h
    rw [hown, hnone] at hsome
    rw [h.creates_iff]
    cases hkind : pr.statement.kind with
    | createTable =>
      refine ⟨rfl, rfl, hnone, ?_⟩
      by_contra hallows
      rw [tableStep_create hkind, createOn_refused hallows] at hsome
      exact hsome rfl
    | _ =>
      refine absurd ?_ hsome
      rw [tableStep, statementOn, hkind]
      rfl
  · have hother := (tables_components access).others pr w h name hname
    exact absurd (hother.trans hnone) hsome

/-- `SELECT *` on a new table returns no rows. -/
theorem select_new (access : Access) (schema : TableSchema) :
    (tableStep access (selectStar schema.tableName) (some ⟨schema, [(Page.init 0).data]⟩)).1 =
      .ok { columns := schema.columnNames, rows := [], message := countRows 0 } := by
  have hstored : storedRows schema.columns [(Page.init 0).data] = [] := by
    rw [storedRows_eq tablePages_fresh (goodPages_fresh schema.columns), liveRows_fresh]
    rfl
  have hselect := selectOn_apply tablePages_fresh access.limit (selectStar schema.tableName)
    schema.columns
  rw [hstored] at hselect
  have hpages : onPages (selectOn access.limit (selectStar schema.tableName))
      (some ⟨schema, [(Page.init 0).data]⟩) =
        (.ok { columns := schema.columnNames, rows := [] },
          some ⟨schema, [(Page.init 0).data]⟩) := by
    rw [onPages]
    dsimp only
    rw [hselect]
    rfl
  have hkind : (selectStar schema.tableName).statement.kind = .select := rfl
  rw [tableStep, statementOn, hkind]
  dsimp only
  rw [Prog.bind_ok hpages, rowCount_nil]
  rfl

/-! ### Isolation -/

/-- `create` is the last CREATE TABLE for `name` that succeeds in the run. -/
structure LastCreated (start : Engine) (name : Str) (before : List ParseResult)
    (create : ParseResult) (after : List ParseResult) : Prop where
  creates : Creates (start.run before) name create
  last : ∀ left pr right, after = left ++ pr :: right →
    ¬Creates (start.run (before ++ create :: left)) name pr

/-- A table that exists has been created. -/
theorem Engine.Sound.lastCreated {access : Access} {start : Engine} (h : Sound access start)
    {name : Str} (hstart : start.tableAt name = none) {prs : List ParseResult}
    (hexists : (start.run prs).tableAt name ≠ none) :
    ∃ before create after, prs = before ++ create :: after ∧
      LastCreated start name before create after := by
  induction prs using List.reverseRecOn with
  | nil => exact absurd hstart hexists
  | append_singleton prs pr ih =>
    rw [Engine.run, Machine.run_append] at hexists
    by_cases hnone : (start.run prs).tableAt name = none
    · -- the last statement makes the table
      refine ⟨prs, pr, [], rfl, (h.run prs).creates_of_appears hnone hexists, ?_⟩
      intro left pr' right hsplit
      exact absurd hsplit (by simp)
    · obtain ⟨before, create, after, rfl, hcreates, hlast⟩ := ih hnone
      refine ⟨before, create, after ++ [pr], by simp, hcreates, ?_⟩
      intro left pr' right hsplit hcreates'
      rcases List.eq_nil_or_concat right with rfl | ⟨right, last, rfl⟩
      · -- the table exists before the last statement
        obtain ⟨rfl, hpr⟩ := List.append_inj' hsplit rfl
        exact hnone ((h.run _).creates_iff.1 hcreates').2.2.1
      · rw [List.concat_eq_append, ← List.cons_append, ← List.append_assoc] at hsplit
        obtain ⟨rfl, -⟩ := List.append_inj' hsplit rfl
        exact hlast left pr' right rfl hcreates'

/-- **Tables are isolated, and a dropped table leaves no trace.**  Take any run on a directory.
A table that exists at its end has a last CREATE TABLE that succeeded; the statements for this
table since then have the results that they have when they are run without the others, and so
has `SELECT *` at the end; it returns no rows right after the CREATE TABLE.  Statements for
different tables may be exchanged: they have the same results, and so has everything later. -/
theorem tables_isolated (fs : FileSystem) (prs : List ParseResult) :
    (∀ name, (Engine.run { fs := fs } prs).catalog.findTable name ≠ none →
      ∃ before create after, prs = before ++ create :: after ∧
        LastCreated { fs := fs } name before create after ∧
        ((Engine.run { fs := fs } before).results (create :: after)).filter
            (fun x => x.1.statement.tableName = name) =
          Engine.results { fs := fs }
            ((create :: after).filter fun pr => pr.statement.tableName = name) ∧
        (execute (selectStar name) (Engine.run { fs := fs } prs)).1 =
          (execute (selectStar name) (Engine.run { fs := fs }
            ((create :: after).filter fun pr => pr.statement.tableName = name))).1 ∧
        (execute (selectStar name) (Engine.run { fs := fs } (before ++ [create]))).1 =
          .ok { columns := create.statement.columnDefinitions.map (·.name), rows := [],
                message := countRows 0 }) ∧
    ∀ pr pr', pr.statement.tableName ≠ pr'.statement.tableName → ∀ later,
      (execute pr' ((Engine.run { fs := fs } prs).after pr)).1 =
        (execute pr' (Engine.run { fs := fs } prs)).1 ∧
      (Engine.run { fs := fs } (prs ++ [pr, pr'])).results later =
        (Engine.run { fs := fs } (prs ++ [pr', pr])).results later := by
  have hstart := Sound.start fs
  have hcomp := tables_components fs.access
  constructor
  · intro name hexists
    have htable : (Engine.run { fs := fs } prs).tableAt name ≠ none := by
      obtain ⟨t, ht⟩ := Option.ne_none_iff_exists'.1 hexists
      rw [tableAt_some ht]
      exact Option.some_ne_none _
    obtain ⟨before, create, after, rfl, hlast⟩ := hstart.lastCreated rfl htable
    have hbefore := hstart.run before
    obtain ⟨-, hname, hnone, -⟩ := hbefore.creates_iff.1 hlast.creates
    refine ⟨before, create, after, rfl, hlast, ?_, ?_, ?_⟩
    · exact hcomp.trace_alone hbefore hstart hnone (create :: after)
    · -- the table is the same at both ends
      have hend : (Engine.run { fs := fs } (before ++ create :: after)).tableAt name =
          (Engine.run { fs := fs }
            ((create :: after).filter fun pr => pr.statement.tableName = name)).tableAt name := by
        rw [run, Machine.run_append]
        exact hcomp.part_alone hbefore hstart hnone (create :: after)
      have hselect := hcomp.output (selectStar name) _ (hstart.run (before ++ create :: after))
      rw [show (selectStar name).statement.tableName = name from rfl, hend] at hselect
      exact hselect.trans (hcomp.output (selectStar name) _ (hstart.run _)).symm
    · have hnew := hcomp.output (selectStar name) _ (hbefore.run [create])
      rw [show (selectStar name).statement.tableName = name from rfl,
        hlast.creates.tableAt_after hbefore, ← hname] at hnew
      rw [run, Machine.run_append, ← hname]
      exact hnew.trans (select_new fs.access (newTable create))
  · intro pr pr' hne later
    have hrun := hstart.run prs
    obtain ⟨hresult, hparts⟩ := hcomp.commute hrun hne
    refine ⟨hresult, ?_⟩
    rw [run, Machine.run_append, run, Machine.run_append]
    exact hcomp.trace_congr (hcomp.good_run hrun _) (hcomp.good_run hrun _) hparts later

end MicroSql
