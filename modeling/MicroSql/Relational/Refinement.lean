import MicroSql.Engine.Insert
import MicroSql.Relational.Statements

/-!
# The engine refines the database

The abstraction of an engine is the database of what its tables hold.  A statement answers on the
engine as its command does on the database, and a new context in the same directory has the same
database.  So the runs of the engine, with restarts anywhere, are runs of the database.
-/

namespace MicroSql

open Lib Engine

/-! ### One table -/

/-- The rows that the statement encodes for the table take at most 65535 bytes, or all rows of the
table do. -/
structure WithinOn (limit : ℕ) (pr : ParseResult) (t : StoredTable) : Prop where
  insert : pr.statement.kind = .insert →
    (insertRow (pageArray limit) serializeWithin pr t.schema.columns t.pages).1 = .error tooLong →
      ShortRows t.schema.columns
  update : pr.statement.kind = .update →
    (updateRows (pageArray limit) serializeWithin pr t.schema.columns t.pages).1 = .error tooLong →
      ShortRows t.schema.columns

/-- What a statement on the pages of a table wraps around its value. -/
theorem onPages_bind {α β : Type}
    (d : Schema → Prog (List (Block pageSize)) (Failure ExecError) α) (f : α → β)
    (t : StoredTable) :
    (do return f (← onPages d) : OnTable β) (some t) =
      ((d t.schema.columns t.pages).1.map f,
        some { t with pages := (d t.schema.columns t.pages).2 }) := by
  have hrun : onPages d (some t) = ((d t.schema.columns t.pages).1,
      some { t with pages := (d t.schema.columns t.pages).2 }) := rfl
  rw [Prog.bind_apply, hrun]
  rcases (d t.schema.columns t.pages).1 with e | a <;> rfl

section Table

variable {access : Access} {pr : ParseResult} {command : Command}

/-- Where there is no table. -/
theorem statementOn_none (hc : Denotes pr command) :
    ∃ answer r, statementOn access pr none = (answer, r) ∧
      Answers command none answer (r.map StoredTable.relation) := by
  cases hc with
  | select hkind | insert hkind | update hkind | delete hkind | dropTable hkind =>
    rw [statementOn, hkind]
    exact ⟨_, none, rfl, .missing rfl⟩
  | createTable hkind =>
    rw [statementOn, hkind]
    dsimp only
    rw [Prog.bind_apply]
    by_cases hallows : access.Allows (tablePath pr.statement.tableName)
    · rw [createOn_none hallows]
      refine ⟨_, _, rfl, ?_⟩
      rw [Option.map_some, StoredTable.relation, liveRows_fresh]
      exact .created _ _
    · rw [createOn_refused hallows]
      exact ⟨_, none, rfl, .refused _ _ _⟩
  | unsupported hkind =>
    rw [statementOn]
    simp only [List.mem_cons, List.not_mem_nil, or_false] at hkind
    rcases hkind with hkind | hkind | hkind | hkind <;> rw [hkind] <;>
      exact ⟨_, none, rfl, .unsupported _ _⟩

/-- SELECT on a table with good rows selects of its relation, and leaves the pages. -/
theorem selectOn_relation {t : StoredTable} (hp : TablePages t.pages)
    (hgood : GoodTable t.schema t.pages) (limit : ℕ) {columns : List Str} {condition : Option Tree}
    (hcolumns : List.Forall₂ pr.Names pr.statement.selectColumns columns)
    (hcondition : pr.Condition condition) :
    (selectOn limit pr t.schema.columns t.pages).1.map
        (fun r => { r with message := countRows (rowCount r.rows) }) =
      t.relation.select columns condition ∧
    (selectOn limit pr t.schema.columns t.pages).2 = t.pages := by
  have hselect : ∀ names, selectFrom (whereMatches pr · names)
      (storedRows t.schema.columns t.pages) =
        selectFrom (holds condition names) (t.relation.rows.map .ok) := by
    intro names
    rw [storedRows_eq hp hgood.pages]
    refine congrArg (selectFrom · _) (funext fun row => ?_)
    exact hcondition.whereMatches row names
  have hnames : t.schema.columns.map (·.name) = t.relation.names := rfl
  rw [selectOn_apply hp, selectedColumns_of_names hcolumns, ok_bind, hselect, hnames,
    Relation.select]
  refine ⟨?_, rfl⟩
  rcases selectFrom _ _ with e | rows <;> rfl

/-- Where there is one, with good rows. -/
theorem statementOn_some {t : StoredTable} (hc : Denotes pr command) (hp : TablePages t.pages)
    (hgood : GoodTable t.schema t.pages) (hlimit : access.limit ≤ maxFileSize)
    (hwithin : WithinOn access.limit pr t) :
    ∃ answer r, statementOn access pr (some t) = (answer, r) ∧
      Answers command (some t.relation) answer (r.map StoredTable.relation) := by
  cases hc with
  | @select columns condition hkind hcolumns hcondition =>
    have hrun := onPages_bind (selectOn access.limit pr)
      (fun r => ({ r with message := countRows (rowCount r.rows) } : Result)) t
    obtain ⟨hanswer, hpages⟩ := selectOn_relation hp hgood access.limit hcolumns hcondition
    rw [hanswer, hpages] at hrun
    rw [statementOn, hkind]
    exact ⟨_, _, hrun, .select _ _ _ _⟩
  | insert hkind hvalues =>
    have hrun := onPages_bind (insertRow (pageArray access.limit) serializeRow pr)
      (fun _ => ({ message := str "1 row inserted" } : Result)) t
    rw [statementOn, hkind]
    exact ⟨_, _, hrun, insertRow_answers (rowFromInsertValues_of_refers hvalues _) rfl hp hlimit
      hgood.pages (hwithin.insert hkind)⟩
  | @update assignments condition hkind hassigns hcondition =>
    have hrun := onPages_bind (updateRows (pageArray access.limit) serializeRow pr)
      (fun n : ℕ => ({ message := countRows n ++ str " updated" } : Result)) t
    rw [statementOn, hkind]
    refine ⟨_, _, hrun, ?_⟩
    rw [← updateRows_within (hwithin.update hkind)]
    exact .update (rewritePages_sweeps (updateSlot_readOnly _ _ _ _) updateSlot_keepsPages
      updateSlot_countsInInt rfl (updateSlot_actsOnRow fitsSlots_serializeWithin)
      (updateSlot_makesVisits hassigns hcondition) hp hgood.pages hgood.keys fun e he hlong =>
        hlong.2 (hwithin.update hkind (hlong.1 ▸ he)))
  | @delete condition hkind hcondition =>
    have hrun := onPages_bind (deleteRows (pageArray access.limit) pr)
      (fun n : ℕ => ({ message := countRows n ++ str " deleted" } : Result)) t
    rw [statementOn, hkind]
    refine ⟨_, _, hrun, .delete ?_⟩
    exact rewritePages_sweeps (deleteSlot_readOnly _ _) deleteSlot_keepsPages
      deleteSlot_countsInInt rfl deleteSlot_actsOnRow (deleteSlot_makesVisits hcondition) hp
      hgood.pages hgood.keys fun _ _ => id
  | createTable hkind =>
    rw [statementOn, hkind]
    dsimp only
    rw [Prog.bind_apply]
    by_cases hallows : access.Allows (tablePath pr.statement.tableName)
    · have hempty : StoredTable.relation { t with pages := [(Page.init 0).data] } =
          t.relation.withRows [] := by
        rw [StoredTable.relation]
        dsimp only
        rw [liveRows_fresh]
        rfl
      rw [createOn_some hallows]
      refine ⟨_, _, rfl, ?_⟩
      rw [Option.map_some, hempty]
      exact .duplicate _ _ _
    · rw [createOn_refused hallows]
      exact ⟨_, _, rfl, .refused _ _ _⟩
  | dropTable hkind =>
    rw [statementOn, hkind]
    exact ⟨_, none, rfl, .dropped _ _⟩
  | unsupported hkind =>
    rw [statementOn]
    simp only [List.mem_cons, List.not_mem_nil, or_false] at hkind
    rcases hkind with hkind | hkind | hkind | hkind <;> rw [hkind] <;>
      exact ⟨_, some t, rfl, .unsupported _ _⟩

end Table

/-! ### The engine -/

namespace Engine

/-- The database of what the tables of an engine hold. -/
def database (w : Engine) : Database := fun name => (w.tableAt name).map StoredTable.relation

/-- The engine answers statements; between two of them a new context may take over, if it loads
the catalog as it was. -/
def system : System Engine ParseResult (Except Fault Result) where
  step w pr out w' := EncodesWithin pr w ∧ execute pr w = (out, w')
  silent w w' := Catalog.load w.fs {} = (.ok (), w.catalog) ∧
    w' = { catalog := w.catalog, fs := w.fs }

variable {w : Engine} {pr : ParseResult}

theorem system_step (h : EncodesWithin pr w) :
    Engine.system.step w pr (execute pr w).1 (w.after pr) := ⟨h, rfl⟩

theorem Inv.withinOn {T : TableSchema → List (Block pageSize) → Prop} (h : Inv T w)
    (hwithin : EncodesWithin pr w) {t : TableSchema}
    (hfind : w.catalog.findTable pr.statement.tableName = some t) :
    WithinOn w.fs.limit pr ⟨t, w.pages t⟩ where
  insert hkind := by
    obtain ⟨hrun, -⟩ := (h.runs_insert serializeWithin pr).ran_of_find hfind
    rw [← hrun]
    exact fun hlong => absurd hlong (hwithin.execInsert_ne hkind)
  update hkind := by
    obtain ⟨hrun, -⟩ := (h.runs_update serializeWithin pr).ran_of_find hfind
    rw [← hrun]
    exact fun hlong => absurd hlong (hwithin.execUpdate_ne hkind)

/-- **A statement answers as its command.** -/
theorem Inv.execute_answers (h : Inv GoodTable w)
    (hwithin : ∀ t, w.catalog.findTable pr.statement.tableName = some t →
      WithinOn w.fs.limit pr ⟨t, w.pages t⟩) {command : Command} (hc : Denotes pr command) :
    Database.Step w.database command (execute pr w).1 (execute pr w).2.database := by
  obtain ⟨r, hacts, hrun⟩ := h.execute_actsOn pr
  have hanswers : ∃ answer t', statementOn w.fs.access pr (w.tableAt pr.statement.tableName) =
      (answer, t') ∧ Answers command (w.database command.table) answer
        (t'.map StoredTable.relation) := by
    rw [database, hc.table_eq]
    cases hfind : w.catalog.findTable pr.statement.tableName with
    | none =>
      rw [tableAt_none hfind]
      exact statementOn_none hc
    | some t =>
      obtain ⟨-, hp, hgood⟩ := h.stores hfind
      rw [tableAt_some hfind]
      exact statementOn_some hc hp hgood w.fs.limit_le (hwithin t hfind)
  obtain ⟨answer, t', hstatement, hanswer⟩ := hanswers
  have hafter : r.2.database =
      Function.update w.database command.table (t'.map StoredTable.relation) := by
    funext name
    by_cases hname : name = pr.statement.tableName
    · subst hname
      rw [hc.table_eq, Function.update_self, database, hacts.own, hstatement]
    · rw [hc.table_eq, Function.update_of_ne hname, database, database, hacts.others name hname]
  rw [hrun, hacts.result, hstatement, hafter]
  exact .answers hanswer

/-- The engine is simulated by the database of what its tables hold. -/
theorem simulation : System.Simulation Engine.system Database.system Denotes
    fun w db => Reachable EncodesWithin w ∧ db = w.database where
  step := by
    rintro w db pr command out w' ⟨hw, rfl⟩ hc ⟨hwithin, hrun⟩
    have hstep := hw.good.execute_answers (fun t => hw.good.withinOn hwithin) hc
    have hnext := hw.execute pr hwithin
    rw [Engine.after] at hnext
    rw [hrun] at hstep hnext
    exact ⟨w'.database, hstep, hnext, rfl⟩
  silent := by
    rintro w db w' ⟨hw, rfl⟩ ⟨hload, rfl⟩
    exact ⟨hw.reopen hload, rfl⟩

/-- Every engine of a run is reachable. -/
theorem run_reachable {fs : FileSystem} {l : List (ParseResult × Except Fault Result)}
    (hrun : Engine.system.Run { fs := fs } l w) : Reachable EncodesWithin w :=
  hrun.invariant (I := Reachable EncodesWithin) (.start fs)
    (fun s pr out s' hs hstep => by
      have hnext := hs.execute pr hstep.1
      rwa [Engine.after, hstep.2] at hnext)
    fun s s' hs hsilent => by
      obtain ⟨hload, rfl⟩ := hsilent
      exact hs.reopen hload

end Engine

/-- **The engine refines the database.**  Take any run of the engine that starts without tables,
with a restart between any two statements, in which the statements stand for commands and encode
only rows of at most 65535 bytes.  The database answers the commands in the same way, starting
without relations, and ends with what the tables of the engine hold. -/
theorem engine_refines_database {fs : FileSystem} {w : Engine}
    {l : List (ParseResult × Except Fault Result)} (hrun : Engine.system.Run { fs := fs } l w)
    {cs : List (Command × Except Fault Result)} (hl : System.Relabelled Denotes l cs) :
    Database.system.Run Database.empty cs w.database := by
  have hstart : Engine.database { fs := fs } = Database.empty := rfl
  obtain ⟨db, hdb, -, rfl⟩ := Engine.simulation.run ⟨.start fs, hstart.symm⟩ hrun hl
  exact hdb

theorem createTable_denotes (name : Str) (columns : Schema) :
    Denotes (createTable name columns) (.createTable name columns) := .createTable rfl

theorem sampleInsert_denotes (a b : Int64) : Denotes (sampleInsert a b)
    (.insert (str "t") [] [.leaf (.literalInt a), .leaf (.literalInt b)]) :=
  .insert rfl (.cons ⟨.literalInt a, ⟨le_refl _, rfl⟩, .leaf rfl⟩
    (.cons ⟨.literalInt b, ⟨Int.zero_le_ofNat 1, rfl⟩, .leaf rfl⟩ .nil))

/-- A run of two INSERTs, with what it answers. -/
def sampleAnswers : List (Except Fault Result) :=
  [(execute (createTable (str "t") sampleTable.columns) { fs := emptyDirectory }).1,
    (execute (sampleInsert 1 10) (newEngine sampleTable)).1,
    (execute (sampleInsert 2 20) sampleOne).1]

/-- The commands of the run. -/
def sampleCommands : List Command :=
  [.createTable (str "t") sampleTable.columns,
    .insert (str "t") [] [.leaf (.literalInt 1), .leaf (.literalInt 10)],
    .insert (str "t") [] [.leaf (.literalInt 2), .leaf (.literalInt 20)]]

theorem sample_run : ∃ l, Engine.system.Run { fs := emptyDirectory } l sampleTwo ∧
    System.Relabelled Denotes l (sampleCommands.zip sampleAnswers) := by
  have hpath : sampleTable.filePath = tablePath sampleTable.tableName := by decide
  have hkind : (sampleInsert 1 10).statement.kind = .insert := rfl
  obtain ⟨hwithin, -⟩ := newEngine_insert hpath hkind rfl rfl sampleBytes_eq (by decide)
    (by decide)
  have hcreate : Engine.system.step { fs := emptyDirectory } _ _ (newEngine sampleTable) :=
    system_step (newEngine_within hpath)
  have hfirst : Engine.system.step (newEngine sampleTable) _ _ sampleOne := system_step hwithin
  have hsecond : Engine.system.step sampleOne _ _ sampleTwo := system_step sampleTwo_inserted.1
  refine ⟨_, .step hcreate (.step hfirst (.step hsecond (.nil _))), ?_⟩
  refine .cons (createTable_denotes _ _) ?_
  refine .cons (sampleInsert_denotes 1 10) ?_
  exact .cons (sampleInsert_denotes 2 20) .nil

theorem engine_refines_database_sample : Database.system.Run Database.empty
    (sampleCommands.zip sampleAnswers) sampleTwo.database := by
  obtain ⟨l, hrun, hl⟩ := sample_run
  exact engine_refines_database hrun hl

end MicroSql
