import MicroSql.Engine.Insert
import MicroSql.Engine.Isolation
import MicroSql.Parser.Declares

/-!
# Restarting

A new context knows only what is in the directory: it reads the catalog from its file and
opens the files of the tables again when a statement needs them.  The file of the catalog has
the tables of the engine after every statement (`Saved`), so a new context has the tables
that the old one has, and the same results from then on.
-/

namespace MicroSql

open Lib

namespace Engine

/-- What becomes of the catalog and its file in a step. -/
inductive KeepsCatalog (pr : ParseResult) (w w' : Engine) : Prop
  | same (hcatalog : w'.catalog = w.catalog)
      (hfile : w'.fs.files Catalog.path = w.fs.files Catalog.path)
  | created (fs : FileSystem) (hkind : pr.statement.kind = .createTable)
      (hcatalog : w'.catalog = ⟨w.catalog.tables ++ [newTable pr]⟩)
      (hmayWrite : fs.mayWrite = w.fs.mayWrite) (hfs : w'.fs = w'.catalog.save fs)
  | dropped (fs : FileSystem) (hcatalog : w'.catalog.tables.Sublist w.catalog.tables)
      (hmayWrite : fs.mayWrite = w.fs.mayWrite) (hfs : w'.fs = w'.catalog.save fs)

variable {T : TableSchema → List (Block pageSize) → Prop} {w : Engine}

theorem RunsOn.keepsCatalog {name : Str} {α : Type}
    {d : Schema → Prog (List (Block pageSize)) (Failure ExecError) α}
    {r : Except (Failure ExecError) α × Engine} (hr : RunsOn T w name d r) (h : Inv T w)
    (pr : ParseResult) : KeepsCatalog pr w r.2 := by
  cases hr with
  | missing hfind => exact .same rfl rfl
  | @ran t bs w' hs hp hT hc =>
    refine .same hc.catalog_eq ?_
    rw [hc.fs_eq, FileSystem.files_put, if_neg (h.filePath_ne_catalog hs.find).symm]

theorem create_keepsCatalog {pr : ParseResult} (hkind : pr.statement.kind = .createTable) :
    KeepsCatalog pr w (execCreateTable pr w).2 := by
  have hcases := execCreateTable_cases pr w
  generalize execCreateTable pr w = r at hcases
  have hput : ∀ bytes, (w.putFile (newTable pr).filePath bytes).fs.files Catalog.path =
      w.fs.files Catalog.path := fun bytes =>
    (FileSystem.files_put _ _ _ _).trans (if_neg (tablePath_ne_catalog _).symm)
  cases hcases with
  | notCreated => exact .same rfl rfl
  | notOpened => exact .same rfl (hput [])
  | duplicate => exact .same rfl (hput _)
  | created => exact .created (w.fs.put (newTable pr).filePath _) hkind rfl rfl rfl

theorem drop_keepsCatalog (pr : ParseResult) : KeepsCatalog pr w (execDropTable pr w).2 := by
  cases hfind : w.catalog.findTable pr.statement.tableName with
  | none =>
    rw [execDropTable_none hfind]
    exact .same rfl rfl
  | some t =>
    rw [execDropTable_some hfind]
    exact .dropped (w.fs.remove t.filePath) List.eraseP_sublist rfl rfl

/-- Only CREATE TABLE and DROP TABLE change the catalog, and both save it. -/
theorem Inv.keepsCatalog (h : Inv T w) (pr : ParseResult) : KeepsCatalog pr w (w.after pr) := by
  rw [after, execute, MicroSql.executeWith, orError_snd]
  cases hkind : pr.statement.kind with
  | select =>
    dsimp only
    rw [bind_pure_snd]
    exact (h.runs_select pr).keepsCatalog h pr
  | insert =>
    dsimp only
    rw [bind_pure_snd]
    exact (h.runs_insert serializeRow pr).keepsCatalog h pr
  | delete =>
    dsimp only
    rw [bind_pure_snd]
    exact (h.runs_delete pr).keepsCatalog h pr
  | update =>
    dsimp only
    rw [bind_pure_snd]
    exact (h.runs_update serializeRow pr).keepsCatalog h pr
  | createTable =>
    dsimp only
    rw [bind_pure_snd]
    exact create_keepsCatalog hkind
  | dropTable =>
    dsimp only
    rw [bind_pure_snd]
    exact drop_keepsCatalog pr
  | _ => exact .same rfl rfl

/-! ### The saved catalog -/

/-- The file of the catalog has the tables of the engine, and `load` can read them.  Before
the first table there is no file. -/
structure Saved (w : Engine) : Prop where
  loadable : ∀ t ∈ w.catalog.tables, Catalog.Loadable t
  saved : (w.fs.files Catalog.path = none ∧ w.catalog = {}) ∨
    w.fs.files Catalog.path = some w.catalog.text

theorem Saved.start {fs : FileSystem} (h : fs.files Catalog.path = none) : Saved { fs := fs } where
  loadable := fun _ ht => by cases ht
  saved := .inl ⟨h, rfl⟩

theorem Saved.step {w' : Engine} {pr : ParseResult} (h : Saved w)
    (hwrite : w.fs.mayWrite Catalog.path = true)
    (hnew : pr.statement.kind = .createTable → Catalog.Loadable (newTable pr))
    (hstep : KeepsCatalog pr w w') : Saved w' := by
  have hsave : ∀ {fs : FileSystem}, fs.mayWrite = w.fs.mayWrite → w'.fs = w'.catalog.save fs →
      w'.fs.files Catalog.path = some w'.catalog.text := by
    intro fs hmayWrite hfs
    rw [hfs, Catalog.save, hmayWrite, if_pos hwrite, FileSystem.files_put, if_pos rfl]
  cases hstep with
  | same hcatalog hfile =>
    obtain ⟨hloadable, hsaved⟩ := h
    rw [← hcatalog] at hloadable hsaved
    rw [← hfile] at hsaved
    exact ⟨hloadable, hsaved⟩
  | created fs hkind hcatalog hmayWrite hfs =>
    refine ⟨fun t ht => ?_, .inr (hsave hmayWrite hfs)⟩
    rw [hcatalog] at ht
    rcases List.mem_append.1 ht with ht | ht
    · exact h.loadable t ht
    · rw [List.mem_singleton.1 ht]
      exact hnew hkind
  | dropped fs hcatalog hmayWrite hfs =>
    exact ⟨fun t ht => h.loadable t (hcatalog.subset ht), .inr (hsave hmayWrite hfs)⟩

/-- What `load` does when the saved catalog is that of the engine. -/
theorem Saved.load (h : Saved w) (hread : w.fs.mayRead Catalog.path = true) :
    Catalog.load w.fs {} = (.ok (), w.catalog) ∨
      (Catalog.load w.fs {} = (.error (.error .fileNotOpen), {}) ∧ w.catalog = {}) := by
  rcases h.saved with ⟨hnone, hempty⟩ | hsaved
  · refine .inr ⟨?_, hempty⟩
    rw [Catalog.load, hnone]
    rfl
  · exact .inl (Catalog.load_text h.loadable hsaved hread)

/-- The catalog stays saved. -/
theorem Saved.run (h : Saved w) {access : Access} (hsound : Sound access w)
    (hwrite : access.mayWrite Catalog.path = true) {prs : List ParseResult}
    (hnew : ∀ pr ∈ prs, pr.statement.kind = .createTable → Catalog.Loadable (newTable pr)) :
    Saved (w.run prs) := by
  induction prs generalizing w with
  | nil => exact h
  | cons pr prs ih =>
    have hw : w.fs.mayWrite Catalog.path = true := by
      have haccess := congrArg Access.mayWrite hsound.access_eq
      exact (congrFun haccess Catalog.path).trans hwrite
    have hstep := h.step hw (hnew pr List.mem_cons_self) (hsound.inv.keepsCatalog pr)
    exact ih hstep (hsound.run [pr]) fun pr' hpr' => hnew pr' (List.mem_cons_of_mem pr hpr')

/-! ### A new context -/

/-- A new context in the same directory, after `catalog.load()`, whatever that returns. -/
def restart (w : Engine) : Engine where
  catalog := (Catalog.load w.fs {}).2
  fs := w.fs

/-- The tables of a context and of the one that replaces it are the same. -/
theorem restart_tableAt (hcatalog : w.restart.catalog = w.catalog) (name : Str) :
    w.restart.tableAt name = w.tableAt name :=
  tableAt_congr (by rw [hcatalog]) fun _ _ => rfl

theorem Sound.restart {access : Access} (h : Sound access w)
    (hcatalog : w.restart.catalog = w.catalog) : Sound access w.restart where
  inv := by
    have hinv := h.inv.reopen
    rw [← hcatalog] at hinv
    exact hinv
  access_eq := h.access_eq

end Engine

open Engine

/-- **Restarting is invisible.**  Take any run of parsed statements from a directory without a
catalog, where the file of the catalog can be written and read back.  Loading the catalog into
a new context returns, and all statements after that have the results that they have in the old
context. -/
theorem restart_invisible {fs : FileSystem} (hempty : fs.files Catalog.path = none)
    (hread : fs.mayRead Catalog.path = true) (hwrite : fs.mayWrite Catalog.path = true)
    {before : List ParseResult} (hparsed : ∀ pr ∈ before, Parsed pr) (later : List ParseResult) :
    (∀ f, (Catalog.load (Engine.run { fs := fs } before).fs {}).1 ≠ .error (.fault f)) ∧
      (Engine.run { fs := fs } before).restart.results later =
        (Engine.run { fs := fs } before).results later := by
  have hsound := (Sound.start fs).run before
  have hsaved := (Saved.start hempty).run (Sound.start fs) hwrite
    fun pr hpr => (hparsed pr hpr).loadable
  generalize Engine.run { fs := fs } before = w at hsound hsaved
  have hread' : w.fs.mayRead Catalog.path = true := by
    have haccess := congrArg Access.mayRead hsound.access_eq
    exact (congrFun haccess Catalog.path).trans hread
  have hload := hsaved.load hread'
  have hcatalog : w.restart.catalog = w.catalog := by
    rw [restart]
    rcases hload with hload | ⟨hload, hnone⟩
    · rw [hload]
    · rw [hload, hnone]
  constructor
  · intro f hfault
    rcases hload with hload | ⟨hload, -⟩ <;> rw [hload] at hfault <;> cases hfault
  · exact (tables_components fs.access).trace_congr (hsound.restart hcatalog) hsound
      (fun name => restart_tableAt hcatalog name) later

/-- The table of `CREATE TABLE t (a INTEGER);`. -/
def parsedCreate : ParseResult := createTable (str "t") [⟨str "a", .integer, 0, false, false⟩]

theorem parsedCreate_parsed : Parsed parsedCreate := by
  let inp : Input :=
    { tokens := [⟨.create, str "CREATE", 1⟩, ⟨.table, str "TABLE", 1⟩, ⟨.identifier, str "t", 1⟩,
        ⟨.leftParen, str "(", 1⟩, ⟨.identifier, str "a", 1⟩, ⟨.integer, str "INTEGER", 1⟩,
        ⟨.rightParen, str ")", 1⟩, ⟨.semicolon, str ";", 1⟩, ⟨.endOfFile, [], 1⟩]
      nonempty := by simp
      stof := fun _ => .ok ⟨0⟩
      textLength := fun _ => 0 }
  exact ⟨str "CREATE TABLE t (a INTEGER);", 28, 3, inp, by rfl, by rfl, rfl⟩

theorem restart_invisible_sample :
    (∀ f, (Catalog.load (Engine.run { fs := emptyDirectory } [parsedCreate]).fs {}).1 ≠
      .error (.fault f)) ∧
      (Engine.run { fs := emptyDirectory } [parsedCreate]).restart.results
          [insertInto (str "t") [.literalInt 1], selectStar (str "t")] =
        (Engine.run { fs := emptyDirectory } [parsedCreate]).results
          [insertInto (str "t") [.literalInt 1], selectStar (str "t")] := by
  refine restart_invisible rfl rfl rfl (fun pr hpr => ?_) _
  rw [List.mem_singleton.1 hpr]
  exact parsedCreate_parsed

end MicroSql
