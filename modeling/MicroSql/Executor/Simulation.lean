import MicroSql.Executor.Executor
import MicroSql.Storage.PageArray

/-!
# Statements see an array of pages

The statements of the executor are generic in the table file, so two files that
simulate each other give the same results (`FileSim`).  The file that the engine has
open for a table simulates the array of its pages; hence a statement on a table of the
engine is the statement on that array, and changes nothing else.
-/

namespace MicroSql

open Lib

/-- The methods of `f` simulate those of `g`.  `R` relates the states in general, and
`C` those in which no operation has failed since the last `numPages`. -/
structure FileSim {σ τ : Type} (f : PageFile σ) (g : PageFile τ) (R C : σ → τ → Prop) :
    Prop where
  forget : ∀ s t, C s t → R s t
  numPages : Prog.Sim R f.numPages g.numPages C R
  readPage : ∀ i, Prog.Sim C (f.readPage i) (g.readPage i) C R
  writePage : ∀ p, Prog.Sim C (f.writePage p) (g.writePage p) C R
  allocatePage : Prog.Sim R f.allocatePage g.allocatePage C R

namespace FileSim

variable {σ τ : Type} {f : PageFile σ} {g : PageFile τ} {R C : σ → τ → Prop}
  (h : FileSim f g R C)

include h

theorem lift_sim {α : Type} (x : Expected ExecError α) :
    Prog.Sim C (.lift x : Prog σ _ α) (.lift x) C R := Prog.Sim.lift x h.forget

theorem failIf_sim (p : Prop) [Decidable p] (e : Failure ExecError) :
    Prog.Sim C (.failIf p e) (.failIf p e) C R := Prog.Sim.failIf p e h.forget

theorem getNumPages_sim : Prog.Sim R (getNumPages f) (getNumPages g) C R :=
  Prog.Sim.mapError h.numPages internal

theorem readPage_sim (i : ℕ) : Prog.Sim C (MicroSql.readPage f i) (MicroSql.readPage g i) C R :=
  Prog.Sim.mapError (h.readPage _) internal

theorem writePage_sim (p : Page) :
    Prog.Sim C (MicroSql.writePage f p) (MicroSql.writePage g p) C R :=
  Prog.Sim.mapError (h.writePage p) internal

theorem onPage_sim {α : Type} (page : Page) (method : Prog Page (Failure PageError) α) :
    Prog.Sim C (onPage page method) (onPage page method) C R :=
  Prog.Sim.mapError (Prog.Sim.runOn method page h.forget) internal

/-! ### Primary keys -/

theorem keyPage_sim (currentPage : Option Page) (currentPageIndex pageIndex : ℕ) :
    Prog.Sim C (keyPage f currentPage currentPageIndex pageIndex)
      (keyPage g currentPage currentPageIndex pageIndex) C R := by
  have hread : Prog.Sim C (do return (← MicroSql.readPage f pageIndex, false))
      (do return (← MicroSql.readPage g pageIndex, false)) C R :=
    Prog.Sim.bind (h.readPage_sim pageIndex) fun page => Prog.Sim.pure (page, false)
  cases currentPage with
  | none => exact hread
  | some page => exact Prog.Sim.ite (Prog.Sim.pure (page, true)) hread

theorem primaryKeyExists_sim (columns : Schema) (pkIndex : ℕ) (value : Value)
    (currentPage : Option Page) (currentPageIndex : ℕ) (skipSlot : ℤ) :
    Prog.Sim R (primaryKeyExists f columns pkIndex value currentPage currentPageIndex skipSlot)
      (primaryKeyExists g columns pkIndex value currentPage currentPageIndex skipSlot) C R := by
  refine Prog.Sim.bind h.getNumPages_sim fun numPages => Prog.Sim.anyM (fun pageIndex => ?_) _
  refine Prog.Sim.bind (h.keyPage_sim _ _ _) fun page => Prog.Sim.anyM (fun slot => ?_) _
  exact Prog.Sim.ite (Prog.Sim.pure false)
    (Prog.Sim.ite (Prog.Sim.pure false) (h.lift_sim _))

/-! ### The statements -/

theorem selectRows_sim (pr : ParseResult) (columns : Schema) :
    Prog.Sim R (selectRows f pr columns) (selectRows g pr columns) C R := by
  refine Prog.Sim.bind (Prog.Sim.lift _ fun _ _ => id) fun resultColumns => ?_
  refine Prog.Sim.bind h.getNumPages_sim fun numPages => ?_
  refine Prog.Sim.bind (Prog.Sim.foldlM (fun rows pageIndex => ?_) _ _) fun rows =>
    Prog.Sim.pure (resultColumns, rows)
  exact Prog.Sim.bind (h.readPage_sim pageIndex) fun page => h.lift_sim _

theorem insertRowIntoPage_sim (page : Page) (rowBytes : List UInt8) (rowSizeBytes : ℕ) :
    Prog.Sim C (insertRowIntoPage f page rowBytes rowSizeBytes)
      (insertRowIntoPage g page rowBytes rowSizeBytes) C R :=
  Prog.Sim.bind (h.onPage_sim page _) fun s => Prog.Sim.mapError (h.writePage s.2) internal

theorem insertIntoFirstFit_sim (rowBytes : List UInt8) (rowSizeBytes numPages : ℕ) :
    Prog.Sim C (insertIntoFirstFit f rowBytes rowSizeBytes numPages)
      (insertIntoFirstFit g rowBytes rowSizeBytes numPages) C R := by
  refine Prog.Sim.anyM (fun pageIndex => ?_) _
  refine Prog.Sim.bind (h.readPage_sim pageIndex) fun page => ?_
  exact Prog.Sim.ite (Prog.Sim.bind (h.insertRowIntoPage_sim page _ _) fun _ =>
    Prog.Sim.pure true) (Prog.Sim.pure false)

theorem checkNewKey_sim (columns : Schema) (row : Row) :
    Prog.Sim R (checkNewKey f columns row) (checkNewKey g columns row) R R := by
  unfold checkNewKey
  cases primaryKeyIndex columns with
  | none => exact Prog.Sim.pure ()
  | some pkIndex =>
    refine Prog.Sim.bind (Prog.Sim.lift _ fun _ _ => id) fun key => ?_
    refine Prog.Sim.bind (h.primaryKeyExists_sim _ _ _ _ _ _) fun found => ?_
    exact (h.failIf_sim _ _).weaken (fun _ _ => id) h.forget

theorem storeBytes_sim (rowBytes : List UInt8) :
    Prog.Sim R (storeBytes f rowBytes) (storeBytes g rowBytes) C R := by
  refine Prog.Sim.bind h.getNumPages_sim fun numPages => ?_
  refine Prog.Sim.bind (h.insertIntoFirstFit_sim _ _ _) fun inserted => ?_
  refine Prog.Sim.ite (Prog.Sim.pure ()) ?_
  refine Prog.Sim.bind ((Prog.Sim.mapError h.allocatePage internal).weaken h.forget
    fun _ _ => id) fun newPageId => ?_
  exact Prog.Sim.bind (h.readPage_sim newPageId) fun page => h.insertRowIntoPage_sim page _ _

theorem insertRow_sim (serialize : Row → Schema → Expected RowError (List UInt8))
    (pr : ParseResult) (columns : Schema) :
    Prog.Sim R (insertRow f serialize pr columns) (insertRow g serialize pr columns) C R := by
  refine Prog.Sim.bind (Prog.Sim.lift _ fun _ _ => id) fun row => ?_
  refine Prog.Sim.bind (Prog.Sim.failIf _ _ fun _ _ => id) fun _ => ?_
  refine Prog.Sim.bind (h.checkNewKey_sim columns row) fun _ => ?_
  exact Prog.Sim.bind (Prog.Sim.lift _ fun _ _ => id) fun rowBytes => h.storeBytes_sim rowBytes

theorem rewritePages_sim {body : ℕ → Page × ℕ → ℕ → Prog σ (Failure ExecError) (Page × ℕ)}
    {body' : ℕ → Page × ℕ → ℕ → Prog τ (Failure ExecError) (Page × ℕ)}
    (hbody : ∀ i s slot, Prog.Sim C (body i s slot) (body' i s slot) C R) :
    Prog.Sim R (rewritePages f body) (rewritePages g body') C R := by
  refine Prog.Sim.bind h.getNumPages_sim fun numPages =>
    Prog.Sim.foldlM (fun count pageIndex => ?_) _ _
  refine Prog.Sim.bind (h.readPage_sim pageIndex) fun page => ?_
  refine Prog.Sim.bind (Prog.Sim.foldlM (fun s slot => hbody pageIndex s slot) _ _) fun s => ?_
  exact Prog.Sim.bind (h.writePage_sim s.1) fun _ => Prog.Sim.pure s.2

theorem deleteSlot_sim (pr : ParseResult) (columns : Schema) (pageIndex : ℕ) (s : Page × ℕ)
    (slot : ℕ) :
    Prog.Sim C (deleteSlot pr columns pageIndex s slot : Prog σ _ _)
      (deleteSlot pr columns pageIndex s slot) C R := by
  refine Prog.Sim.ite (Prog.Sim.pure s) ?_
  refine Prog.Sim.bind (h.lift_sim _) fun row => ?_
  refine Prog.Sim.bind (h.lift_sim _) fun shouldDelete => ?_
  refine Prog.Sim.ite (Prog.Sim.pure s) ?_
  refine Prog.Sim.bind (h.onPage_sim s.1 _) fun r => ?_
  exact Prog.Sim.bind (h.lift_sim _) fun count => Prog.Sim.pure (r.2, count)

theorem checkKey_sim (pr : ParseResult) (columns : Schema) (updated : Row) (page : Page)
    (pageIndex slot : ℕ) :
    Prog.Sim C (checkKey f pr columns updated page pageIndex slot)
      (checkKey g pr columns updated page pageIndex slot) C R := by
  unfold checkKey
  cases primaryKeyIndex columns with
  | none => exact Prog.Sim.pure ()
  | some pkIndex =>
    refine Prog.Sim.ite ?_ (Prog.Sim.pure ())
    refine Prog.Sim.bind (h.lift_sim _) fun key => ?_
    exact Prog.Sim.bind ((h.primaryKeyExists_sim _ _ _ _ _ _).weaken h.forget fun _ _ => id)
      fun found => h.failIf_sim _ _

theorem updateSlot_sim (serialize : Row → Schema → Expected RowError (List UInt8))
    (pr : ParseResult) (columns : Schema) (pageIndex : ℕ) (s : Page × ℕ) (slot : ℕ) :
    Prog.Sim C (updateSlot f serialize pr columns pageIndex s slot)
      (updateSlot g serialize pr columns pageIndex s slot) C R := by
  refine Prog.Sim.ite (Prog.Sim.pure s) ?_
  refine Prog.Sim.bind (h.lift_sim _) fun row => ?_
  refine Prog.Sim.bind (h.lift_sim _) fun shouldUpdate => ?_
  refine Prog.Sim.ite (Prog.Sim.pure s) ?_
  refine Prog.Sim.bind (h.lift_sim _) fun updated => ?_
  refine Prog.Sim.bind (h.checkKey_sim _ _ _ _ _ _) fun _ => ?_
  refine Prog.Sim.bind (h.lift_sim _) fun rowBytes => ?_
  refine Prog.Sim.bind (h.onPage_sim s.1 _) fun r => ?_
  exact Prog.Sim.bind (h.lift_sim _) fun count => Prog.Sim.pure (r.2, count)

theorem deleteRows_sim (pr : ParseResult) (columns : Schema) :
    Prog.Sim R (deleteRows f pr columns) (deleteRows g pr columns) C R :=
  h.rewritePages_sim fun pageIndex s slot => h.deleteSlot_sim pr columns pageIndex s slot

theorem updateRows_sim (serialize : Row → Schema → Expected RowError (List UInt8))
    (pr : ParseResult) (columns : Schema) :
    Prog.Sim R (updateRows f serialize pr columns) (updateRows g serialize pr columns) C R :=
  h.rewritePages_sim fun pageIndex s slot => h.updateSlot_sim serialize pr columns pageIndex s slot

end FileSim

/-! ### The tables of the engine -/

namespace Engine

/-- In `w` the table `name`, with the handle `t`, has the pages `bs`; otherwise `w` is
as `w0`.  `R` says how the handle and the file are related to the pages. -/
structure Serves (R : FileSystem → Str → FileState → List (Block pageSize) → Prop)
    (w0 : Engine) (name path : Str) (w : Engine) (bs : List (Block pageSize)) : Prop where
  catalog_eq : w.catalog = w0.catalog
  others : ∀ n, n ≠ name → w.openFiles n = w0.openFiles n
  handle : ∃ t, w.openFiles name = some t ∧ R w0.fs path (t, w.fs) bs

variable {w0 : Engine} {name path : Str}

/-- A method of the open file that simulates one of the array. -/
theorem onOpenFile_sim {α : Type} {c : Prog FileState (Failure TableFileError) α}
    {d : Prog (List (Block pageSize)) (Failure TableFileError) α}
    {R Q E : FileSystem → Str → FileState → List (Block pageSize) → Prop}
    (h : Prog.Sim (R w0.fs path) c d (Q w0.fs path) (E w0.fs path)) :
    Prog.Sim (Serves R w0 name path) (onOpenFile name c) d (Serves Q w0 name path)
      (Serves E w0 name path) := by
  have hstep : ∀ w t s', w.openFiles name = some t → onOpenFile name c w =
      ((c (t, w.fs)).1, { w with fs := (c (t, w.fs)).2.2 }.setOpenFile name
        (some (c (t, w.fs)).2.1)) ∧
      ∀ S : FileSystem → Str → FileState → List (Block pageSize) → Prop,
        w.catalog = w0.catalog → (∀ n, n ≠ name → w.openFiles n = w0.openFiles n) →
        S w0.fs path (c (t, w.fs)).2 s' →
        Serves S w0 name path ({ w with fs := (c (t, w.fs)).2.2 }.setOpenFile name
          (some (c (t, w.fs)).2.1)) s' := by
    intro w t s' ht
    refine ⟨by simp only [onOpenFile, ht], fun S hcat hoth hS => ⟨hcat, fun n hn => ?_, ?_⟩⟩
    · exact (Function.update_of_ne hn _ _).trans (hoth n hn)
    · exact ⟨_, Function.update_self _ _ _, hS⟩
  refine Prog.Sim.intro fun w bs ⟨hcat, hoth, t, ht, hR⟩ => ?_
  rcases h.elim hR with ⟨a, s', bs', hc, hd, hq⟩ | ⟨e, s', bs', hc, hd, hq⟩
  · obtain ⟨hrun, hserves⟩ := hstep w t bs' ht
    rw [hc] at hrun hserves
    exact .inl ⟨a, _, bs', hrun, hd, hserves Q hcat hoth hq⟩
  · obtain ⟨hrun, hserves⟩ := hstep w t bs' ht
    rw [hc] at hrun hserves
    exact .inr ⟨e, _, bs', hrun, hd, hserves E hcat hoth hq⟩

theorem Serves.weaken {R R' : FileSystem → Str → FileState → List (Block pageSize) → Prop}
    (hR : ∀ fs p s bs, R fs p s bs → R' fs p s bs) {w : Engine} {bs : List (Block pageSize)}
    (h : Serves R w0 name path w bs) : Serves R' w0 name path w bs := by
  obtain ⟨hcat, hoth, t, ht, hr⟩ := h
  exact ⟨hcat, hoth, t, ht, hR _ _ _ _ hr⟩

/-- The open file of a table simulates the array of its pages. -/
theorem openFile_sim (w0 : Engine) (name path : Str) :
    FileSim (openFile name) (pageArray w0.fs.limit) (Serves Backs w0 name path)
      (Serves BacksClean w0 name path) where
  forget := fun _ _ h => h.weaken fun _ _ _ _ hb => hb.toBacks
  numPages := onOpenFile_sim (sim_numPages _)
  readPage := fun i => onOpenFile_sim (sim_readPage _ i)
  writePage := fun p => onOpenFile_sim (sim_writePage p)
  allocatePage := onOpenFile_sim sim_allocatePage

/-- The table `schema` of the catalog is stored in the pages `bs`, and its file can be
opened. -/
structure Stores (w : Engine) (name : Str) (schema : TableSchema) (bs : List (Block pageSize)) :
    Prop where
  find : w.catalog.findTable name = some schema
  file : w.fs.files schema.filePath = some (Block.flat bs)
  mayRead : w.fs.mayRead schema.filePath = true
  mayWrite : w.fs.mayWrite schema.filePath = true
  handle : ∀ t, w.openFiles name = some t → t.filePath = schema.filePath ∧
    t.file.isOpen = true ∧ t.file.path = schema.filePath

/-- A table file that has just been opened. -/
def opened (path : Str) : TableFile where
  filePath := path
  file := { path := path, isOpen := true }

theorem onFile_open_apply {w : Engine} {path : Str} {bytes : List UInt8}
    (hfile : w.fs.files path = some bytes) (hr : w.fs.mayRead path = true)
    (hw : w.fs.mayWrite path = true) (p : Str) :
    onFile { filePath := p } (TableFile.open path) w =
      (.ok ((), opened path), w) := by
  simp only [onFile, opened, TableFile.open, TableFile.check, Prog.modify_bind_apply, hfile, hr, hw,
    Prog.gets_bind_apply, Option.isSome_some, Bool.not_false, Bool.and_self, if_true,
    Prog.failIf_apply, Bool.false_eq_true, if_false]

theorem resolveTable_apply {w : Engine} {name : Str} {schema : TableSchema}
    {bs : List (Block pageSize)} (h : w.Stores name schema bs) :
    ∃ w', resolveTable name w = (.ok schema, w') ∧
      Serves Backs w name schema.filePath w' bs := by
  have hfs : w.fs = w.fs.put schema.filePath (Block.flat bs) :=
    (FileSystem.put_eq_self h.file).symm
  cases ht : w.openFiles name with
  | some t =>
    obtain ⟨h1, h2, h3⟩ := h.handle t ht
    refine ⟨w, ?_, rfl, fun n _ => rfl, t, ht, h1, h2, h3, hfs⟩
    simp only [resolveTable, Prog.gets_bind_apply, id_eq, h.find, ht, Prog.pure_apply]
  | none =>
    have hopen : Prog.mapError internal (onFile {} (TableFile.open schema.filePath)) w =
        (.ok ((), opened schema.filePath), w) := by
      rw [Prog.mapError_apply, onFile_open_apply h.file h.mayRead h.mayWrite]
      rfl
    refine ⟨w.setOpenFile name (some (opened schema.filePath)), ?_, rfl, fun n hn => ?_, _,
      Function.update_self _ _ _, rfl, rfl, rfl, hfs⟩
    · rw [resolveTable, Prog.gets_bind_apply]
      simp only [id_eq, h.find, ht]
      rw [Prog.bind_ok hopen]
      rfl
    · exact Function.update_of_ne hn _ _

/-- `w'` is `w` with the pages of one table replaced and its file open. -/
structure Changes (w : Engine) (name path : Str) (bs : List (Block pageSize)) (w' : Engine) :
    Prop where
  catalog_eq : w'.catalog = w.catalog
  fs_eq : w'.fs = w.fs.put path (Block.flat bs)
  others : ∀ n, n ≠ name → w'.openFiles n = w.openFiles n
  handle : ∃ t, w'.openFiles name = some t ∧ t.filePath = path ∧ t.file.isOpen = true ∧
    t.file.path = path

theorem Serves.changes {w w' : Engine} {name path : Str} {bs : List (Block pageSize)}
    (h : Serves Backs w name path w' bs) : Changes w name path bs w' := by
  obtain ⟨hcat, hoth, t, ht, hb⟩ := h
  exact ⟨hcat, hb.fs_eq, hoth, t, ht, hb.filePath_eq, hb.isOpen, hb.path_eq⟩

/-- A statement on a table of the engine does what it does on the array of its pages. -/
theorem run_on_table {α : Type} {w : Engine} {name : Str} {schema : TableSchema}
    {bs : List (Block pageSize)} (h : w.Stores name schema bs)
    {c : TableSchema → Prog Engine (Failure ExecError) α}
    {d : Prog (List (Block pageSize)) (Failure ExecError) α}
    (hsim : Prog.Sim (Serves Backs w name schema.filePath) (c schema) d
      (Serves BacksClean w name schema.filePath) (Serves Backs w name schema.filePath)) :
    ∃ w', (resolveTable name >>= c) w = ((d bs).1, w') ∧
      Changes w name schema.filePath (d bs).2 w' := by
  obtain ⟨w1, hres, hserves⟩ := resolveTable_apply h
  rw [Prog.bind_ok hres]
  rcases hsim.elim hserves with ⟨a, w', bs', hc, hd, hq⟩ | ⟨e, w', bs', hc, hd, hq⟩
  · rw [hc, hd]
    exact ⟨w', rfl, (hq.weaken fun _ _ _ _ hb => hb.toBacks).changes⟩
  · rw [hc, hd]
    exact ⟨w', rfl, hq.changes⟩

end Engine

end MicroSql
