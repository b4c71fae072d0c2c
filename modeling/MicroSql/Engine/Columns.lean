import MicroSql.Engine.Restart

/-!
# The columns of a table

Columns are looked up by name and the primary key by its flag, and every lookup takes the first
match.  CREATE TABLE stores the list of columns that the parser returns; neither of them looks at
the list as a whole.  `Resolves` is what the lookups rely on, `ColumnFlaw` names the lists that
break it, and a run keeps it exactly if no statement adds a table with such a list.
-/

namespace MicroSql

open Lib

/-! ### First matches -/

/-- The first match of a property that no element before position `i` has. -/
theorem findIdx?_eq_of_first {α : Type} {xs : List α} {p : α → Bool} {i : ℕ} {x : α}
    (hx : xs[i]? = some x) (hp : p x = true)
    (hfirst : ∀ j y, j < i → xs[j]? = some y → p y = false) : xs.findIdx? p = some i := by
  obtain ⟨hi, rfl⟩ := List.getElem?_eq_some_iff.1 hx
  rw [List.findIdx?_eq_some_iff_getElem]
  refine ⟨hi, hp, fun j hj => ?_⟩
  rw [hfirst j _ hj (List.getElem?_eq_getElem _)]
  exact Bool.false_ne_true

/-! ### Lists of columns -/

/-- What can be wrong with a list of columns. -/
inductive ColumnFlaw (columns : Schema) : Prop
  | noColumn (h : columns = [])
  | sameName {i j : ℕ} {c d : ColumnDefinition} (hij : i < j) (hc : columns[i]? = some c)
      (hd : columns[j]? = some d) (hname : c.name = d.name)
  | twoKeys {i j : ℕ} {c d : ColumnDefinition} (hij : i < j) (hc : columns[i]? = some c)
      (hd : columns[j]? = some d) (hckey : c.primaryKey = true) (hdkey : d.primaryKey = true)
  | textLength {c : ColumnDefinition} (hc : c ∈ columns) (htype : c.type = .text)
      (hlength : c.textLength ≤ 0)

/-- The columns of a table resolve: `indexOf` and `column_index` find each by its name,
`primaryKeyIndex` finds each that is flagged, and the lengths of texts are positive. -/
structure Resolves (t : TableSchema) : Prop where
  ne_nil : t.columns ≠ []
  distinct : t.columnNames.Nodup
  indexOf : ∀ i c, t.columns[i]? = some c → t.columnNames.idxOf? c.name = some i
  columnIndex : ∀ i c, t.columns[i]? = some c → t.columnIndex c.name = some i
  onePrimaryKey : ∀ (i j : ℕ) (c d : ColumnDefinition), t.columns[i]? = some c →
    t.columns[j]? = some d → c.primaryKey = true → d.primaryKey = true → i = j
  primaryKeyIndex : ∀ i c, t.columns[i]? = some c → c.primaryKey = true →
    primaryKeyIndex t.columns = some i
  textLength : ∀ c ∈ t.columns, c.type = .text → 0 < c.textLength

/-- The two lookups of a name agree. -/
theorem TableSchema.idxOf?_columnNames (t : TableSchema) (name : Str) :
    t.columnNames.idxOf? name = t.columnIndex name := by
  rw [columnNames, columnIndex, List.idxOf?, List.findIdx?_map]
  congr 1
  funext c
  rw [Function.comp_apply, Bool.eq_iff_iff, beq_iff_eq, decide_eq_true_iff]

/-- The columns of a table resolve exactly if their list has no flaw. -/
theorem resolves_iff {t : TableSchema} : Resolves t ↔ ¬ColumnFlaw t.columns := by
  constructor
  · rintro h (hnil | ⟨hij, hc, hd, hname⟩ | ⟨hij, hc, hd, hckey, hdkey⟩ | ⟨hc, htype, hlength⟩)
    · exact h.ne_nil hnil
    · have hfirst := h.columnIndex _ _ hc
      rw [hname, h.columnIndex _ _ hd] at hfirst
      exact hij.ne' (Option.some.inj hfirst)
    · exact hij.ne (h.onePrimaryKey _ _ _ _ hc hd hckey hdkey)
    · exact absurd (h.textLength _ hc htype) (Int.not_lt.2 hlength)
  · intro h
    have hcolumn : ∀ i c, t.columns[i]? = some c → t.columnIndex c.name = some i := by
      intro i c hc
      refine findIdx?_eq_of_first hc (by simp) fun j d hj hd => ?_
      exact decide_eq_false fun hname => h (.sameName hj hd hc hname)
    refine ⟨fun hnil => h (.noColumn hnil), ?_, fun i c hc => ?_, hcolumn, ?_,
      fun i c hc hkey => ?_, fun c hc htype => ?_⟩
    · rw [List.nodup_iff_getElem?_ne_getElem?]
      intro i j hij hj heq
      rw [TableSchema.columnNames, List.length_map] at hj
      have hc := List.getElem?_eq_getElem (hij.trans hj)
      have hd := List.getElem?_eq_getElem hj
      rw [TableSchema.columnNames, List.getElem?_map, List.getElem?_map, hc, hd] at heq
      exact h (.sameName hij hc hd (Option.some.inj heq))
    · rw [t.idxOf?_columnNames, hcolumn i c hc]
    · intro i j c d hc hd hckey hdkey
      rcases lt_trichotomy i j with hij | rfl | hji
      · exact absurd (.twoKeys hij hc hd hckey hdkey) h
      · rfl
      · exact absurd (.twoKeys hji hd hc hdkey hckey) h
    · refine findIdx?_eq_of_first hc hkey fun j d hj hd => ?_
      exact Bool.eq_false_iff.2 fun hdkey => h (.twoKeys hj hd hc hdkey hkey)
    · exact Int.not_le.1 fun hlength => h (.textLength hc htype hlength)

/-! ### One statement -/

/-- A statement that the parser returns and that creates or drops a table. -/
structure CreatesOrDrops (pr : ParseResult) : Prop where
  parsed : Parsed pr
  kind : pr.statement.kind = .createTable ∨ pr.statement.kind = .dropTable

/-- The statement adds a table: its name is new, and its file can be made, opened and given a
page. -/
structure AddsTable (w : Engine) (pr : ParseResult) : Prop where
  kind : pr.statement.kind = .createTable
  mayWrite : w.fs.mayWrite (tablePath pr.statement.tableName) = true
  mayRead : w.fs.mayRead (tablePath pr.statement.tableName) = true
  room : pageSize ≤ w.fs.limit
  new : w.catalog.findTable pr.statement.tableName = none

namespace Engine

/-- CREATE TABLE adds the table with its columns as they are listed, or none. -/
theorem tables_after_create (w : Engine) {pr : ParseResult}
    (hkind : pr.statement.kind = .createTable) :
    AddsTable w pr ∧ (w.after pr).catalog.tables = w.catalog.tables ++ [newTable pr] ∨
      ¬AddsTable w pr ∧ (w.after pr).catalog.tables = w.catalog.tables := by
  have hcases := execCreateTable_cases pr w
  rw [after, execute, executeWith, hkind, orError_snd]
  dsimp only
  rw [bind_pure_snd]
  generalize MicroSql.execCreateTable pr w = r at hcases
  cases hcases with
  | notCreated hw => exact .inr ⟨fun h => Bool.noConfusion (h.mayWrite.symm.trans hw), rfl⟩
  | notOpened hw hopen =>
    refine .inr ⟨fun h => ?_, rfl⟩
    rcases hopen with hr | hl
    · exact Bool.noConfusion (h.mayRead.symm.trans hr)
    · exact absurd h.room (Nat.not_le.2 hl)
  | duplicate hw hfind => exact .inr ⟨fun h => hfind h.new, rfl⟩
  | created hw hr hl hfind => exact .inl ⟨⟨hkind, hw, hr, hl, hfind⟩, rfl⟩

/-- A statement that creates or drops a table adds that table, or no table at all. -/
theorem tables_after (w : Engine) {pr : ParseResult} (h : CreatesOrDrops pr) :
    AddsTable w pr ∧ (w.after pr).catalog.tables = w.catalog.tables ++ [newTable pr] ∨
      ¬AddsTable w pr ∧ (w.after pr).catalog.tables.Sublist w.catalog.tables := by
  rcases h.kind with hkind | hkind
  · rcases w.tables_after_create hkind with hadds | ⟨hnone, htables⟩
    · exact .inl hadds
    · exact .inr ⟨hnone, htables ▸ List.Sublist.refl _⟩
  · refine .inr ⟨fun hadds => ?_, ?_⟩
    · rw [hadds.kind] at hkind
      cases hkind
    · rw [after, execute, executeWith, hkind, orError_snd]
      dsimp only
      rw [bind_pure_snd]
      cases hfind : w.catalog.findTable pr.statement.tableName with
      | none => rw [execDropTable_none hfind]
      | some t =>
        rw [execDropTable_some hfind]
        exact List.eraseP_sublist

/-! ### Whole runs -/

/-- The columns of all tables resolve. -/
def ColumnsResolve (w : Engine) : Prop := ∀ t ∈ w.catalog.tables, Resolves t

/-- A statement keeps the columns resolving exactly if it adds no table with a flawed list. -/
theorem ColumnsResolve.after_iff {w : Engine} (hw : w.ColumnsResolve) {pr : ParseResult}
    (h : CreatesOrDrops pr) :
    (w.after pr).ColumnsResolve ↔
      (AddsTable w pr → ¬ColumnFlaw pr.statement.columnDefinitions) := by
  rcases w.tables_after h with ⟨hadds, htables⟩ | ⟨hnone, hsub⟩
  · rw [ColumnsResolve, htables]
    constructor
    · intro hall _
      exact resolves_iff.1 (hall (newTable pr) (by simp))
    · intro hlist t ht
      rcases List.mem_append.1 ht with ht | ht
      · exact hw t ht
      · rw [List.mem_singleton.1 ht]
        exact resolves_iff.2 (hlist hadds)
  · exact iff_of_true (fun t ht => hw t (hsub.subset ht)) fun hadds => absurd hadds hnone

end Engine

open Engine

/-- **When column names resolve.**  In every state of a run of parsed CREATE TABLE and DROP TABLE
statements the columns of all tables resolve if and only if none of the statements adds a table
whose list of columns is empty, has two columns of one name or two primary keys, or gives a text a
length that is not positive. -/
theorem columns_resolve_iff {fs : FileSystem} {prs : List ParseResult}
    (hprs : ∀ pr ∈ prs, CreatesOrDrops pr) :
    (∀ before, before <+: prs → (Engine.run { fs := fs } before).ColumnsResolve) ↔
      ∀ before pr, before ++ [pr] <+: prs → AddsTable (Engine.run { fs := fs } before) pr →
        ¬ColumnFlaw pr.statement.columnDefinitions := by
  have hrun : ∀ before pr, Engine.run { fs := fs } (before ++ [pr]) =
      (Engine.run { fs := fs } before).after pr := fun before pr => Machine.run_append _ _ _ _
  have hmem : ∀ {before pr}, before ++ [pr] <+: prs → CreatesOrDrops pr := fun hpre =>
    hprs _ (hpre.subset (by simp))
  constructor
  · intro hall before pr hpre
    have hbefore := hall before ((List.prefix_append before [pr]).trans hpre)
    have hafter := hall _ hpre
    rw [hrun] at hafter
    exact (hbefore.after_iff (hmem hpre)).1 hafter
  · intro hsteps before hpre
    induction before using List.reverseRecOn with
    | nil => exact fun t ht => nomatch ht
    | append_singleton before pr ih =>
      have hbefore := ih ((List.prefix_append before [pr]).trans hpre)
      rw [hrun]
      exact (hbefore.after_iff (hmem hpre)).2 (hsteps before pr hpre)

/-- `CREATE TABLE t (a INTEGER);` has no flaw. -/
theorem columns_resolve_sample :
    (Engine.run { fs := emptyDirectory } [parsedCreate]).ColumnsResolve := by
  refine (columns_resolve_iff fun pr hpr => ?_).2 (fun before pr hpre _ => ?_) _ List.prefix_rfl
  · rw [List.mem_singleton.1 hpr]
    exact ⟨parsedCreate_parsed, .inl rfl⟩
  · obtain rfl : pr = parsedCreate := List.mem_singleton.1 (hpre.subset (by simp))
    rintro (hnil | ⟨hij, hc, hd, -⟩ | ⟨hij, hc, hd, -, -⟩ | ⟨hc, htype, -⟩)
    · cases hnil
    · have hj : _ < 1 := (List.getElem?_eq_some_iff.1 hd).1
      omega
    · have hj : _ < 1 := (List.getElem?_eq_some_iff.1 hd).1
      omega
    · rw [List.mem_singleton.1 hc] at htype
      cases htype

/-- The table of `CREATE TABLE t (a INTEGER, a TEXT);`. -/
def parsedTwice : ParseResult :=
  createTable (str "t") [⟨str "a", .integer, 0, false, false⟩, ⟨str "a", .text, 255, false, false⟩]

theorem parsedTwice_parsed : Parsed parsedTwice := by
  let inp : Input :=
    { tokens := [⟨.create, str "CREATE", 1⟩, ⟨.table, str "TABLE", 1⟩, ⟨.identifier, str "t", 1⟩,
        ⟨.leftParen, str "(", 1⟩, ⟨.identifier, str "a", 1⟩, ⟨.integer, str "INTEGER", 1⟩,
        ⟨.comma, str ",", 1⟩, ⟨.identifier, str "a", 1⟩, ⟨.text, str "TEXT", 1⟩,
        ⟨.rightParen, str ")", 1⟩, ⟨.semicolon, str ";", 1⟩, ⟨.endOfFile, [], 1⟩]
      nonempty := by simp
      stof := fun _ => .ok ⟨0⟩
      textLength := fun _ => 0 }
  exact ⟨str "CREATE TABLE t (a INTEGER, a TEXT);", 40, 4, inp, by rfl, by rfl, rfl⟩

/-- The second column of `CREATE TABLE t (a INTEGER, a TEXT);` cannot be found. -/
theorem not_columns_resolve : ¬∀ (fs : FileSystem) (prs : List ParseResult),
    (∀ pr ∈ prs, CreatesOrDrops pr) → (Engine.run { fs := fs } prs).ColumnsResolve := by
  intro h
  have hcreates : CreatesOrDrops parsedTwice := ⟨parsedTwice_parsed, .inl rfl⟩
  have hstart : ColumnsResolve { fs := emptyDirectory } := fun t ht => nomatch ht
  have hafter := h emptyDirectory [parsedTwice] fun pr hpr => List.mem_singleton.1 hpr ▸ hcreates
  refine (hstart.after_iff hcreates).1 hafter ⟨rfl, rfl, rfl, ?_, rfl⟩ ?_
  · show pageSize ≤ maxFileSize
    decide
  · exact .sameName (i := 0) (j := 1) (by decide) rfl rfl rfl

end MicroSql
