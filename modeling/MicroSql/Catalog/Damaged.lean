import MicroSql.Catalog.Text

/-!
# Loading a damaged catalog

What `load` does is decided by the lines that it takes for the beginning of a table or for a
column.  It adds each table to the catalog as soon as it has read it, so an error that it meets
later leaves the tables before it in the catalog; and a number that is none, or a type that it
does not know, is not met by an error at all.
-/

namespace MicroSql

open Lib

namespace Catalog

/-! ### The lines of a file -/

/-- What `load` takes a line for. -/
inductive LineKind
  | table | column | file | close | other
  deriving DecidableEq, Repr

/-- Inside a table the beginning of another one counts for nothing, and outside of tables only the
beginning of a table counts. -/
def lineKind (inside : Bool) (line : Str) : LineKind :=
  if inside then
    if line = str "END" then .close
    else if (str "COLUMN").isPrefixOf line then .column
    else if (str "FILE").isPrefixOf line then .file
    else .other
  else if (str "TABLE").isPrefixOf line then .table
  else .other

/-- Whether a table is being read after a line. -/
def LineKind.next (inside : Bool) : LineKind → Bool
  | .table => true
  | .close => false
  | _ => inside

/-- The lines with what they are taken for. -/
def kinds (inside : Bool) : List Str → List (LineKind × Str)
  | [] => []
  | line :: rest =>
    (lineKind inside line, line) :: kinds ((lineKind inside line).next inside) rest

/-- The line defines the column: it has six words, among them the name of a type and a number. -/
def DefinesColumn (line : Str) (column : ColumnDefinition) : Prop :=
  ∃ first textLength notNull primaryKey,
    split line = [first, column.name, dataTypeName column.type, textLength, notNull, primaryKey] ∧
      stoi textLength = .ok column.textLength ∧
      column.notNull = decide (notNull = str "true") ∧
      column.primaryKey = decide (primaryKey = str "true")

/-- A line that can be read: the beginning of a table has a name, and a column is defined. -/
def WellFormed : LineKind × Str → Prop
  | (.table, line) => (split line).length = 2
  | (.column, line) => ∃ column, DefinesColumn line column
  | _ => True

/-- A line with too many words or too few. -/
def Miscounted : LineKind × Str → Prop
  | (.table, line) => (split line).length ≠ 2
  | (.column, line) => (split line).length ≠ 6
  | _ => False

/-- The names of the tables that begin. -/
def declaredNames (ls : List (LineKind × Str)) : List Str :=
  ls.filterMap fun l => if l.1 = .table then (split l.2)[1]? else none

theorem declaredNames_append (ls ls' : List (LineKind × Str)) :
    declaredNames (ls ++ ls') = declaredNames ls ++ declaredNames ls' := List.filterMap_append ..

/-! ### One column -/

theorem dataTypeOf_cases (word : Str) :
    (∃ t, word = dataTypeName t ∧ dataTypeOf word = .ok t) ∨
      (∀ t, word ≠ dataTypeName t) ∧ dataTypeOf word = .error (.fault .uninitialized) := by
  by_cases h : ∃ t, word = dataTypeName t
  · obtain ⟨t, rfl⟩ := h
    exact .inl ⟨t, rfl, dataTypeOf_dataTypeName t⟩
  · push Not at h
    refine .inr ⟨h, ?_⟩
    change (if word = dataTypeName .integer then _ else if word = dataTypeName .float then _
      else if word = dataTypeName .text then _ else if word = dataTypeName .boolean then _
      else _) = _
    rw [if_neg (h .integer), if_neg (h .float), if_neg (h .text), if_neg (h .boolean)]

theorem stoi_cases (s : Str) :
    (∃ n, stoi s = .ok n) ∨ stoi s = .error (.fault .uncaughtException) := by
  unfold stoi
  dsimp only
  split_ifs
  · exact .inr rfl
  · exact .inl ⟨_, rfl⟩

/-- How reading a column ends. -/
theorem loadColumn_cases (line : Str) :
    (∃ column, DefinesColumn line column ∧ loadColumn line = .ok column) ∨
      (split line).length ≠ 6 ∧ loadColumn line = .error (.error .unvalidColumnLineFormat) ∨
      (split line).length = 6 ∧ ∃ f, loadColumn line = .error (.fault f) := by
  unfold loadColumn DefinesColumn
  split
  · rename_i first name type textLength notNull primaryKey heq
    rw [heq]
    rcases stoi_cases textLength with ⟨n, hlength⟩ | hlength
    swap
    · rw [hlength]
      exact .inr (.inr ⟨rfl, _, rfl⟩)
    rw [hlength, ok_bind]
    rcases dataTypeOf_cases type with ⟨t, rfl, ht⟩ | ⟨-, ht⟩
    · rw [ht]
      exact .inl ⟨_, ⟨first, textLength, notNull, primaryKey, rfl, hlength, rfl, rfl⟩, rfl⟩
    · rw [ht]
      exact .inr (.inr ⟨rfl, _, rfl⟩)
  · rename_i hsix
    refine .inr (.inl ⟨fun hlen => ?_, rfl⟩)
    obtain ⟨a, b, c, d, e, f, heq⟩ : ∃ a b c d e f, split line = [a, b, c, d, e, f] := by
      match split line, hlen with
      | [a, b, c, d, e, f], _ => exact ⟨a, b, c, d, e, f, rfl⟩
    exact hsix a b c d e f heq

/-! ### The run over well-formed lines -/

/-- What reading the lines `before` has come to: the tables `ts` have been added, and `opened`
has become `opened'`. -/
structure Adds (before : List (LineKind × Str)) (opened opened' : Option TableSchema)
    (ts : List TableSchema) : Prop where
  names : ts.map (·.tableName) ++ opened'.toList.map (·.tableName) =
    opened.toList.map (·.tableName) ++ declaredNames before
  eq_nil_iff : ts = [] ↔ ∀ l ∈ before, l.1 ≠ .close
  defined : ∀ t ∈ ts ++ opened'.toList, ∀ column ∈ t.columns,
    (∃ t' ∈ opened, column ∈ t'.columns) ∨ ∃ l ∈ before, DefinesColumn l.2 column

namespace Adds

variable {before after : List (LineKind × Str)} {opened opened' opened'' : Option TableSchema}
  {ts ts' : List TableSchema}

theorem refl (opened : Option TableSchema) : Adds [] opened opened [] where
  names := by simp [declaredNames]
  eq_nil_iff := by simp
  defined t ht column hcolumn := .inl ⟨t, by simpa using ht, hcolumn⟩

theorem trans (h : Adds before opened opened' ts) (h' : Adds after opened' opened'' ts') :
    Adds (before ++ after) opened opened'' (ts ++ ts') where
  names := by
    rw [List.map_append, List.append_assoc, h'.names, ← List.append_assoc, h.names,
      declaredNames_append, List.append_assoc]
  eq_nil_iff := by
    rw [List.append_eq_nil_iff, h.eq_nil_iff, h'.eq_nil_iff, List.forall_mem_append]
  defined t ht column hcolumn := by
    rw [List.append_assoc, List.mem_append] at ht
    have hlift : (∃ t' ∈ opened, column ∈ t'.columns) ∨ (∃ l ∈ before, DefinesColumn l.2 column) →
        (∃ t' ∈ opened, column ∈ t'.columns) ∨
          ∃ l ∈ before ++ after, DefinesColumn l.2 column := by
      rintro (hold | ⟨l, hl, hdef⟩)
      · exact .inl hold
      · exact .inr ⟨l, List.mem_append_left _ hl, hdef⟩
    rcases ht with ht | ht
    · exact hlift (h.defined t (List.mem_append_left _ ht) column hcolumn)
    · rcases h'.defined t ht column hcolumn with ⟨t', ht', hcolumn'⟩ | ⟨l, hl, hdef⟩
      · have hopened : t' ∈ ts ++ opened'.toList :=
          List.mem_append_right _ (Option.mem_toList.2 ht')
        exact hlift (h.defined t' hopened column hcolumn')
      · exact .inr ⟨l, List.mem_append_right _ hl, hdef⟩

/-- A line that changes nothing but the file of the table. -/
theorem passes {l : LineKind × Str} (hclose : l.1 ≠ .close) (htable : l.1 ≠ .table)
    (hname : opened'.map (·.tableName) = opened.map (·.tableName))
    (hcolumns : ∀ t ∈ opened', ∀ column ∈ t.columns,
      (∃ t' ∈ opened, column ∈ t'.columns) ∨ DefinesColumn l.2 column) :
    Adds [l] opened opened' [] where
  names := by
    have hnames : opened'.toList.map (·.tableName) = opened.toList.map (·.tableName) := by
      rw [← Option.toList_map, ← Option.toList_map, hname]
    simp [declaredNames, htable, hnames]
  eq_nil_iff := by simp [hclose]
  defined t ht column hcolumn := by
    rcases hcolumns t (by simpa using ht) column hcolumn with hold | hdef
    · exact .inl hold
    · exact .inr ⟨l, List.mem_singleton_self l, hdef⟩

end Adds

/-- One well-formed line outside of tables. -/
theorem loadLines_none_cons {line : Str} (h : WellFormed (lineKind false line, line))
    (rest : List Str) (c : Catalog) :
    ∃ opened, opened.isSome = (lineKind false line).next false ∧
      Adds [(lineKind false line, line)] none opened [] ∧
      loadLines none (line :: rest) c = loadLines opened rest c := by
  by_cases htable : (str "TABLE").isPrefixOf line = true
  · have hkind : lineKind false line = .table := by simp [lineKind, htable]
    rw [hkind] at h ⊢
    obtain ⟨first, name, hsplit⟩ := List.length_eq_two.1 h
    refine ⟨some { tableName := name }, rfl, ⟨?_, ?_, ?_⟩, ?_⟩
    · simp [declaredNames, hsplit]
    · simp
    · intro t ht column hcolumn
      obtain rfl : t = { tableName := name } := by simpa using ht
      cases hcolumn
    · rw [loadLines, if_pos htable, hsplit]
  · have hkind : lineKind false line = .other := by simp [lineKind, htable]
    rw [hkind]
    refine ⟨none, rfl, .passes (by simp) (by simp) rfl (by simp), ?_⟩
    rw [loadLines, if_neg htable]

/-- One well-formed line inside a table. -/
theorem loadLines_some_cons {line : Str} (h : WellFormed (lineKind true line, line))
    (t : TableSchema) (rest : List Str) (c : Catalog) :
    ∃ opened ts, opened.isSome = (lineKind true line).next true ∧
      Adds [(lineKind true line, line)] (some t) opened ts ∧
      loadLines (some t) (line :: rest) c = loadLines opened rest ⟨c.tables ++ ts⟩ := by
  by_cases hend : line = str "END"
  · have hkind : lineKind true line = .close := by simp [lineKind, hend]
    rw [hkind]
    refine ⟨none, [t], rfl, ⟨?_, ?_, ?_⟩, ?_⟩
    · simp [declaredNames]
    · simp
    · intro t' ht' column hcolumn
      obtain rfl : t' = t := by simpa using ht'
      exact .inl ⟨t', rfl, hcolumn⟩
    · rw [loadLines, if_pos hend, Prog.modify_bind_apply]
  by_cases hcolumn : (str "COLUMN").isPrefixOf line = true
  · have hkind : lineKind true line = .column := by simp [lineKind, hend, hcolumn]
    rw [hkind] at h ⊢
    obtain ⟨column, hdef⟩ := h
    have hload : loadColumn line = .ok column := by
      obtain ⟨first, textLength, notNull, primaryKey, hsplit, hlength, hnull, hkey⟩ := hdef
      rw [loadColumn, hsplit]
      dsimp only
      rw [hlength, ok_bind, dataTypeOf_dataTypeName, ok_bind, ← hnull, ← hkey]
      rfl
    refine ⟨some { t with columns := t.columns ++ [column] }, [], rfl,
      .passes (by simp) (by simp) rfl ?_, ?_⟩
    · rintro t' ht' column' hmem
      cases ht'
      rcases List.mem_append.1 hmem with hmem | hmem
      · exact .inl ⟨t, rfl, hmem⟩
      · rw [List.mem_singleton.1 hmem]
        exact .inr hdef
    · rw [loadLines, if_neg hend, if_pos hcolumn, hload, Prog.lift_ok_bind_apply, List.append_nil]
  by_cases hfile : (str "FILE").isPrefixOf line = true
  · have hkind : lineKind true line = .file := by simp [lineKind, hend, hcolumn, hfile]
    rw [hkind]
    have hsame : ∀ t' ∈ some t, ∀ column ∈ t'.columns,
        (∃ t'' ∈ some t, column ∈ t''.columns) ∨ DefinesColumn line column :=
      fun t' ht' column hmem => .inl ⟨t', ht', hmem⟩
    by_cases hpath : ∃ first filePath, split line = [first, filePath]
    · obtain ⟨first, filePath, hsplit⟩ := hpath
      refine ⟨some { t with filePath := filePath }, [], rfl, .passes (by simp) (by simp) rfl ?_, ?_⟩
      · rintro t' ht' column hmem
        cases ht'
        exact .inl ⟨t, rfl, hmem⟩
      · rw [loadLines, if_neg hend, if_neg hcolumn, if_pos hfile, hsplit, List.append_nil]
    · refine ⟨some t, [], rfl, .passes (by simp) (by simp) rfl hsame, ?_⟩
      rw [loadLines, if_neg hend, if_neg hcolumn, if_pos hfile, List.append_nil]
      generalize split line = ws at hpath
      rcases ws with _ | ⟨first, _ | ⟨filePath, _ | ⟨word, words⟩⟩⟩
      · rfl
      · rfl
      · exact absurd ⟨first, filePath, rfl⟩ hpath
      · rfl
  · have hkind : lineKind true line = .other := by simp [lineKind, hend, hcolumn, hfile]
    rw [hkind]
    refine ⟨some t, [], rfl, .passes (by simp) (by simp) rfl fun t' ht' column hmem =>
      .inl ⟨t', ht', hmem⟩, ?_⟩
    rw [loadLines, if_neg hend, if_neg hcolumn, if_neg hfile, List.append_nil]

/-- Well-formed lines are read one after the other. -/
theorem loadLines_append : ∀ {ls : List Str} {opened : Option TableSchema}
    {before rest : List (LineKind × Str)} (c : Catalog),
    kinds opened.isSome ls = before ++ rest → (∀ l ∈ before, WellFormed l) →
    ∃ opened' ts ls', kinds opened'.isSome ls' = rest ∧ Adds before opened opened' ts ∧
      loadLines opened ls c = loadLines opened' ls' ⟨c.tables ++ ts⟩
  | ls, opened, [], rest, c, hkinds, _ =>
    ⟨opened, [], ls, hkinds, .refl opened, by rw [List.append_nil]⟩
  | [], opened, l :: before, rest, c, hkinds, _ => by cases hkinds
  | line :: ls, opened, l :: before, rest, c, hkinds, h => by
    rw [kinds, List.cons_append, List.cons.injEq] at hkinds
    obtain ⟨rfl, hkinds⟩ := hkinds
    obtain ⟨hline, hbefore⟩ := List.forall_mem_cons.1 h
    obtain ⟨opened₁, ts₁, hopened₁, hadds₁, hrun₁⟩ : ∃ opened₁ ts₁,
        opened₁.isSome = (lineKind opened.isSome line).next opened.isSome ∧
        Adds [(lineKind opened.isSome line, line)] opened opened₁ ts₁ ∧
        loadLines opened (line :: ls) c = loadLines opened₁ ls ⟨c.tables ++ ts₁⟩ := by
      cases opened with
      | none =>
        obtain ⟨opened₁, hopened₁, hadds₁, hrun₁⟩ := loadLines_none_cons hline ls c
        exact ⟨opened₁, [], hopened₁, hadds₁, by rw [hrun₁, List.append_nil]⟩
      | some t => exact loadLines_some_cons hline t ls c
    rw [← hopened₁] at hkinds
    obtain ⟨opened', ts, ls', hrest, hadds, hrun⟩ :=
      loadLines_append ⟨c.tables ++ ts₁⟩ hkinds hbefore
    refine ⟨opened', ts₁ ++ ts, ls', hrest, hadds₁.trans hadds, ?_⟩
    rw [hrun₁, hrun, List.append_assoc]

/-- At the end of the file a table that is being read is added. -/
theorem loadLines_nil (opened : Option TableSchema) (c : Catalog) :
    loadLines opened [] c = (.ok (), ⟨c.tables ++ opened.toList⟩) := by
  cases opened with
  | none =>
    rw [Option.toList_none, List.append_nil]
    rfl
  | some t => rfl

/-- How a file of well-formed lines is read. -/
theorem loadLines_wellFormed {ls : List Str} (h : ∀ l ∈ kinds false ls, WellFormed l)
    (c : Catalog) :
    ∃ ts, loadLines none ls c = (.ok (), ⟨c.tables ++ ts⟩) ∧
      ts.map (·.tableName) = declaredNames (kinds false ls) ∧
      ∀ t ∈ ts, ∀ column ∈ t.columns, ∃ l ∈ kinds false ls, DefinesColumn l.2 column := by
  obtain ⟨opened, ts, ls', hrest, hadds, hrun⟩ :=
    @loadLines_append ls none _ _ c (List.append_nil _).symm h
  have hnil : ls' = [] := by
    cases ls' with
    | nil => rfl
    | cons line ls' => cases hrest
  subst hnil
  refine ⟨ts ++ opened.toList, ?_, ?_, fun t ht column hcolumn => ?_⟩
  · rw [hrun, loadLines_nil, List.append_assoc]
  · rw [List.map_append, hadds.names]
    rfl
  · exact (hadds.defined t ht column hcolumn).resolve_left (by simp)

/-- The first line that is not well-formed ends the reading. -/
theorem loadLines_malformed {ls : List Str} {before after : List (LineKind × Str)}
    {l : LineKind × Str} (hkinds : kinds false ls = before ++ l :: after)
    (hbefore : ∀ m ∈ before, WellFormed m) (hl : ¬WellFormed l) (c : Catalog) :
    ∃ ts, (ts = [] ↔ ∀ m ∈ before, m.1 ≠ .close) ∧
      (Miscounted l ∧ (∃ e, loadLines none ls c = (.error (.error e), ⟨c.tables ++ ts⟩)) ∨
        ¬Miscounted l ∧ ∃ f c', loadLines none ls c = (.error (.fault f), c')) := by
  obtain ⟨opened, ts, ls', hrest, hadds, hrun⟩ :=
    @loadLines_append ls none _ _ c hkinds hbefore
  refine ⟨ts, hadds.eq_nil_iff, ?_⟩
  rw [hrun]
  cases ls' with
  | nil => cases hrest
  | cons line ls' =>
    rw [kinds, List.cons.injEq] at hrest
    obtain ⟨rfl, -⟩ := hrest
    cases opened with
    | none =>
      -- outside of tables only the beginning of a table can go wrong
      by_cases htable : (str "TABLE").isPrefixOf line = true
      swap
      · simp [lineKind, htable, WellFormed] at hl
      have hkind : lineKind false line = .table := by simp [lineKind, htable]
      rw [Option.isSome_none, hkind] at hl ⊢
      refine .inl ⟨hl, .unvalidTableLineFormat, ?_⟩
      rw [loadLines, if_pos htable]
      have htwo : (split line).length ≠ 2 := hl
      generalize split line = ws at htwo
      rcases ws with _ | ⟨first, _ | ⟨name, _ | ⟨word, words⟩⟩⟩
      · rfl
      · rfl
      · exact absurd rfl htwo
      · rfl
    | some t =>
      -- inside a table only a column can
      by_cases hend : line = str "END"
      · simp [lineKind, hend, WellFormed] at hl
      by_cases hcolumn : (str "COLUMN").isPrefixOf line = true
      swap
      · by_cases hfile : (str "FILE").isPrefixOf line = true
        · simp [lineKind, hend, hcolumn, hfile, WellFormed] at hl
        · simp [lineKind, hend, hcolumn, hfile, WellFormed] at hl
      have hkind : lineKind true line = .column := by simp [lineKind, hend, hcolumn]
      rw [Option.isSome_some, hkind] at hl ⊢
      rw [loadLines, if_neg hend, if_pos hcolumn]
      rcases loadColumn_cases line with ⟨column, hdef, -⟩ | ⟨hsix, hload⟩ | ⟨hsix, f, hload⟩
      · exact absurd ⟨column, hdef⟩ hl
      · refine .inl ⟨hsix, .unvalidColumnLineFormat, ?_⟩
        rw [hload, Prog.lift_error_bind_apply]
      · refine .inr ⟨fun h => h hsix, f, ⟨c.tables ++ ts⟩, ?_⟩
        rw [hload, Prog.lift_error_bind_apply]

/-! ### The whole file -/

/-- What makes loading safe: it returns, and either the names of the tables are distinct and every
column that has been read is defined by a line of the file, or the tables are as before. -/
structure LoadsSafely (fs : FileSystem) (c : Catalog) : Prop where
  returns : ∀ f, (load fs c).1 ≠ .error (.fault f)
  distinct : (load fs c).1 = .ok () → ((load fs c).2.tables.map (·.tableName)).Nodup
  defined : (load fs c).1 = .ok () → ∃ ts, (load fs c).2.tables = c.tables ++ ts ∧
    ∀ t ∈ ts, ∀ column ∈ t.columns, ∃ line ∈ lines (fs.contents path), DefinesColumn line column
  unchanged : ∀ e, (load fs c).1 = .error (.error e) → (load fs c).2.tables = c.tables

/-- The files that are loaded safely into a catalog: those that cannot be opened; those whose lines
are well-formed and whose tables have distinct names; and those whose first line that is not
well-formed has too many words or too few and comes before the end of the first table. -/
inductive SafeFile (fs : FileSystem) (c : Catalog) : Prop
  | notOpen (h : fs.files path = none ∨ fs.mayRead path = false)
  | wellFormed (h : ∀ l ∈ kinds false (lines (fs.contents path)), WellFormed l)
      (hnames : (c.tables.map (·.tableName) ++
        declaredNames (kinds false (lines (fs.contents path)))).Nodup)
  | miscounted {before after : List (LineKind × Str)} {l : LineKind × Str}
      (hkinds : kinds false (lines (fs.contents path)) = before ++ l :: after)
      (hbefore : ∀ m ∈ before, WellFormed m ∧ m.1 ≠ .close) (hl : Miscounted l)

theorem not_wellFormed_of_miscounted {l : LineKind × Str} (h : Miscounted l) : ¬WellFormed l := by
  obtain ⟨kind, line⟩ := l
  cases kind with
  | table => exact fun htwo => h htwo
  | column =>
    rintro ⟨column, first, textLength, notNull, primaryKey, hsplit, -⟩
    exact h (by rw [hsplit]; rfl)
  | _ => exact h.elim

theorem mem_lines_of_mem_kinds {inside : Bool} {ls : List Str} {l : LineKind × Str}
    (h : l ∈ kinds inside ls) : l.2 ∈ ls := by
  induction ls generalizing inside with
  | nil => cases h
  | cons line ls ih =>
    rcases List.mem_cons.1 h with rfl | h
    · exact List.mem_cons_self
    · exact List.mem_cons_of_mem _ (ih h)

theorem load_of_not_open {fs : FileSystem} (h : fs.files path = none ∨ fs.mayRead path = false)
    (c : Catalog) : load fs c = (.error (.error .fileNotOpen), c) := by
  unfold load
  cases hfile : fs.files path with
  | none => rfl
  | some bytes =>
    rw [hfile] at h
    have hread : ¬fs.mayRead path = true := by simpa using h
    dsimp only
    rw [if_neg hread]
    rfl

theorem load_of_open {fs : FileSystem} (h : ¬(fs.files path = none ∨ fs.mayRead path = false)) :
    load fs = loadLines none (lines (fs.contents path)) := by
  rw [not_or, Bool.not_eq_false] at h
  obtain ⟨bytes, hbytes⟩ := Option.ne_none_iff_exists'.1 h.1
  rw [load, FileSystem.contents, hbytes]
  dsimp only [Option.getD_some]
  rw [if_pos h.2]

/-- Either all elements have a property, or there is a first one that does not. -/
theorem forall_or_first {α : Type} (p : α → Prop) (xs : List α) :
    (∀ x ∈ xs, p x) ∨
      ∃ before x after, xs = before ++ x :: after ∧ (∀ y ∈ before, p y) ∧ ¬p x := by
  classical
  cases hfind : xs.find? fun x => decide ¬p x with
  | none => exact .inl fun x hx => by simpa using List.find?_eq_none.1 hfind x hx
  | some x =>
    obtain ⟨hx, before, after, heq, hbefore⟩ := List.find?_eq_some_iff_append.1 hfind
    exact .inr ⟨before, x, after, heq, fun y hy => by simpa using hbefore y hy, by simpa using hx⟩

theorem SafeFile.loadsSafely {fs : FileSystem} {c : Catalog} (h : SafeFile fs c) :
    LoadsSafely fs c := by
  by_cases hopen : fs.files path = none ∨ fs.mayRead path = false
  · have hload := load_of_not_open hopen c
    constructor <;> rw [hload]
    · nofun
    · nofun
    · nofun
    · exact fun _ _ => rfl
  cases h with
  | notOpen h => exact absurd h hopen
  | wellFormed h hnames =>
    obtain ⟨ts, hrun, htables, hdefined⟩ := loadLines_wellFormed h c
    rw [← load_of_open hopen] at hrun
    constructor <;> rw [hrun]
    · nofun
    · intro _
      rwa [List.map_append, htables]
    · refine fun _ => ⟨ts, rfl, fun t ht column hcolumn => ?_⟩
      obtain ⟨l, hl, hdef⟩ := hdefined t ht column hcolumn
      exact ⟨l.2, mem_lines_of_mem_kinds hl, hdef⟩
    · nofun
  | miscounted hkinds hbefore hl =>
    obtain ⟨ts, hnil, hrun⟩ := loadLines_malformed hkinds (fun m hm => (hbefore m hm).1)
      (not_wellFormed_of_miscounted hl) c
    obtain ⟨-, e, hrun⟩ := hrun.resolve_right fun h => h.1 hl
    obtain rfl : ts = [] := hnil.2 fun m hm => (hbefore m hm).2
    rw [← load_of_open hopen, List.append_nil] at hrun
    constructor <;> rw [hrun]
    · nofun
    · nofun
    · nofun
    · exact fun _ _ => rfl

theorem LoadsSafely.safeFile {fs : FileSystem} {c : Catalog} (h : LoadsSafely fs c) :
    SafeFile fs c := by
  by_cases hopen : fs.files path = none ∨ fs.mayRead path = false
  · exact .notOpen hopen
  rcases forall_or_first WellFormed (kinds false (lines (fs.contents path))) with
    hall | ⟨before, l, after, hkinds, hbefore, hl⟩
  · obtain ⟨ts, hrun, htables, -⟩ := loadLines_wellFormed hall c
    rw [← load_of_open hopen] at hrun
    have hnames := h.distinct
    rw [hrun] at hnames
    refine .wellFormed hall ?_
    rw [← htables, ← List.map_append]
    exact hnames rfl
  · obtain ⟨ts, hnil, ⟨hcount, e, hrun⟩ | ⟨-, f, c', hrun⟩⟩ :=
      loadLines_malformed hkinds hbefore hl c
    · rw [← load_of_open hopen] at hrun
      have hsame := h.unchanged e
      rw [hrun] at hsame
      have hts : ts = [] := List.append_right_eq_self.1 (hsame rfl)
      exact .miscounted hkinds (fun m hm => ⟨hbefore m hm, hnil.1 hts m hm⟩) hcount
    · rw [← load_of_open hopen] at hrun
      exact absurd (congrArg Prod.fst hrun) (h.returns f)

end Catalog

end MicroSql
