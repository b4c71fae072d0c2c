import MicroSql.Engine.Insert

/-!
# CREATE TABLE

A CREATE TABLE that is rejected should leave the tables as they were.  `execCreateTable`
makes the file of the new table, and so empties a file of that name, before it asks the
catalog; `create_keeps_tables_iff` says which statements this does not harm.
-/

namespace MicroSql

open Lib

/-- The catalog, the files of the tables and what `SELECT *` returns are the same. -/
structure Engine.SameTables (w w' : Engine) : Prop where
  catalog_eq : w'.catalog = w.catalog
  file_eq : ∀ name t, w.catalog.findTable name = some t →
    w'.fs.files t.filePath = w.fs.files t.filePath
  select_eq : ∀ name, (execSelect (selectStar name) w').1 = (execSelect (selectStar name) w).1

namespace Engine

variable {T : TableSchema → List (Block pageSize) → Prop} {w w' : Engine}

/-- What SELECT returns depends on the catalog and the file of its table only. -/
theorem Inv.select_congr (h : Inv T w) (h' : Inv T w') (hcat : w'.catalog = w.catalog)
    (hfile : ∀ name t, w.catalog.findTable name = some t →
      w'.fs.files t.filePath = w.fs.files t.filePath) (pr : ParseResult) :
    (execSelect pr w').1 = (execSelect pr w).1 := by
  cases hfind : w.catalog.findTable pr.statement.tableName with
  | none =>
    have hmissing : ∀ {w : Engine}, Inv T w → w.catalog.findTable pr.statement.tableName = none →
        (execSelect pr w).1 = .error (.error .tableSchemaNotFound) := by
      intro w h hfind
      have hr := h.runs_select pr
      generalize execSelect pr w = r at hr
      cases hr with
      | missing _ => rfl
      | ran hs _ _ _ =>
        rw [hs.find] at hfind
        cases hfind
    rw [hmissing h hfind, hmissing h' (hcat ▸ hfind)]
  | some t =>
    have hpages : w'.pages t = w.pages t := by
      rw [pages, pages, FileSystem.contents, FileSystem.contents, hfile _ t hfind]
    rw [h.select_eq hfind, h'.select_eq (hcat ▸ hfind), stored, stored, hpages]

theorem Inv.sameTables (h : Inv T w) (h' : Inv T w') (hcat : w'.catalog = w.catalog)
    (hfile : ∀ name t, w.catalog.findTable name = some t →
      w'.fs.files t.filePath = w.fs.files t.filePath) : SameTables w w' :=
  ⟨hcat, hfile, fun name => h.select_congr h' hcat hfile (MicroSql.selectStar name)⟩

end Engine

open Engine

/-- How `execute` ends when CREATE TABLE returns an error. -/
theorem execute_create_error {w w' : Engine} {pr : ParseResult}
    (hkind : pr.statement.kind = .createTable) {e : ExecError}
    (hrun : execCreateTable pr w = (.error (.error e), w')) :
    execute pr w = (.ok (makeError e), w') := by
  rw [execute, executeWith, hkind, orError]
  dsimp only
  rw [Prog.bind_error hrun]

/-- Creating a table that exists fails after its file has been emptied. -/
theorem Engine.Inv.create_existing {T : TableSchema → List (Block pageSize) → Prop} {w : Engine}
    (h : Inv T w) {pr : ParseResult} (hkind : pr.statement.kind = .createTable) {t : TableSchema}
    (hfind : w.catalog.findTable pr.statement.tableName = some t) :
    execute pr w = (.ok (makeError .duplicateTable),
      w.putFile (tablePath pr.statement.tableName) (Page.init 0).data.val) := by
  have hcases := execCreateTable_cases pr w
  generalize hr : MicroSql.execCreateTable pr w = r at hcases
  cases hcases with
  | notCreated hw =>
    have hwrite := (h.stores hfind).1.mayWrite
    rw [(h.table _ t hfind).filePath_eq] at hwrite
    exact Bool.noConfusion (hwrite.symm.trans hw)
  | notOpened hw hopen =>
    rw [h.not_found hopen] at hfind
    cases hfind
  | duplicate hw _ => exact execute_create_error hkind hr
  | created hw hread hl hnone hf =>
    exact absurd (hfind.symm.trans hnone) (Option.some_ne_none t)

/-- A CREATE TABLE that fails leaves the tables of other names alone. -/
theorem Engine.Inv.create_fails {T : TableSchema → List (Block pageSize) → Prop} {w : Engine}
    (h : Inv T w) {pr : ParseResult} (hkind : pr.statement.kind = .createTable) {r : Result}
    (hrun : (execute pr w).1 = .ok r) (hfails : r.success = false) :
    (w.after pr).catalog = w.catalog ∧ ∀ name t, w.catalog.findTable name = some t →
      name ≠ pr.statement.tableName → (w.after pr).fs.files t.filePath = w.fs.files t.filePath := by
  have hcases := execCreateTable_cases pr w
  generalize hr : MicroSql.execCreateTable pr w = c at hcases
  cases hcases with
  | notCreated hw =>
    rw [after, execute_create_error hkind hr]
    exact ⟨rfl, fun _ _ _ _ => rfl⟩
  | notOpened hw hopen =>
    rw [after, execute_create_error hkind hr]
    exact ⟨rfl, fun name t hfind hne => h.files_putFile hfind hne []⟩
  | duplicate hw _ =>
    rw [after, execute_create_error hkind hr]
    exact ⟨rfl, fun name t hfind hne => h.files_putFile hfind hne _⟩
  | created hw hread hl hnone hf =>
    have hok : (execute pr w).1 = .ok { message := str "Table created" } := by
      rw [execute, MicroSql.executeWith, hkind, orError]
      dsimp only
      rw [Prog.bind_ok hr]
      rfl
    rw [hok] at hrun
    cases hrun
    cases hfails

/-- **When a rejected CREATE TABLE destroys nothing.**  It leaves all tables as they were
exactly if there is no table of that name or the file of that table has no data page. -/
theorem create_keeps_tables_iff {w : Engine} (h : Reachable anyStatement w) {pr : ParseResult}
    (hkind : pr.statement.kind = .createTable) :
    (∀ r, (execute pr w).1 = .ok r → r.success = false → SameTables w (w.after pr)) ↔
      ∀ t, w.catalog.findTable pr.statement.tableName = some t →
        w.fs.files t.filePath = some (Page.init 0).data.val := by
  have hinv := h.wf
  have hinv' := (h.execute pr trivial).wf
  constructor
  · intro hkeeps t hfind
    have hrun := hinv.create_existing hkind hfind
    have hsame := (hkeeps _ (congrArg Prod.fst hrun) rfl).file_eq _ t hfind
    rw [← hsame, after, hrun, (hinv.table _ t hfind).filePath_eq]
    exact (FileSystem.files_put _ _ _ _).trans (if_pos rfl)
  · intro hempty r hr hfails
    obtain ⟨hcat, hothers⟩ := hinv.create_fails hkind hr hfails
    refine hinv.sameTables hinv' hcat fun name t hfind => ?_
    by_cases hname : name = pr.statement.tableName
    · subst hname
      rw [hempty t hfind, after, hinv.create_existing hkind hfind,
        (hinv.table _ t hfind).filePath_eq]
      exact (FileSystem.files_put _ _ _ _).trans (if_pos rfl)
    · exact hothers name t hfind hname

theorem create_keeps_tables_iff_sample :
    (∀ r, (execute (createTable (str "u") []) sampleOne).1 = .ok r → r.success = false →
      SameTables sampleOne (sampleOne.after (createTable (str "u") []))) ↔
      ∀ t, sampleOne.catalog.findTable (str "u") = some t →
        sampleOne.fs.files t.filePath = some (Page.init 0).data.val :=
  create_keeps_tables_iff (sampleOne_oneRow.reachable.mono fun _ _ _ => trivial) rfl

/-- Creating the sample table once more loses its row. -/
theorem create_destroys_rows :
    ¬∀ w pr r, Reachable anyStatement w → pr.statement.kind = .createTable →
      (execute pr w).1 = .ok r → r.success = false → SameTables w (w.after pr) := by
  intro hkeeps
  have hinv := sampleOne_oneRow.reachable.good
  let pr := createTable (str "t") sampleTable.columns
  have hfind : sampleOne.catalog.findTable pr.statement.tableName = some sampleTable :=
    sampleOne_oneRow.find
  have hrun := hinv.create_existing (show pr.statement.kind = .createTable from rfl) hfind
  have hsame := hkeeps sampleOne pr _ (sampleOne_oneRow.reachable.mono fun _ _ _ => trivial) rfl
    (congrArg Prod.fst hrun) rfl
  have hfile : sampleOne.fs.files sampleTable.filePath = some (Page.init 0).data.val := by
    rw [← hsame.file_eq _ _ hfind, after, hrun, (hinv.table _ _ hfind).filePath_eq]
    exact (FileSystem.files_put _ _ _ _).trans (if_pos rfl)
  -- a file with the reserved page alone holds no row
  have hrows : sampleOne.rows sampleTable = [] := by
    rw [rows, pages, FileSystem.contents, hfile, Option.getD_some, ← flat_fresh,
      Block.cut_flat (by decide), liveRows_fresh]
  rw [sampleOne_oneRow.rows_eq] at hrows
  cases hrows

end MicroSql
