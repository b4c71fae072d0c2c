import MicroSql.Catalog.Decimal
import Mathlib.Data.List.Flatten
import Mathlib.Data.List.Infix

/-!
# Reading back what was saved

`load` reads the tables that `save` has written, if their names are words and the text
lengths fit into an `int`.  The text is a list of lines, and a line a list of words: `split`
and `lines` undo what puts them together.
-/

namespace MicroSql

open Lib

namespace Catalog

/-! ### Words -/

/-- A string that `split` takes for one word. -/
structure IsWord (s : Str) : Prop where
  ne_nil : s ≠ []
  noSpace : ∀ b ∈ s, isSpace b = false

instance (s : Str) : Decidable (IsWord s) :=
  decidable_of_iff (s ≠ [] ∧ s.all (!isSpace ·) = true)
    ⟨fun h => ⟨h.1, by simpa using h.2⟩, fun h => ⟨h.ne_nil, by simpa using h.noSpace⟩⟩

theorem IsWord.append {s t : Str} (hs : IsWord s) (ht : IsWord t) : IsWord (s ++ t) where
  ne_nil := by simp [hs.ne_nil]
  noSpace := by
    intro b hb
    rcases List.mem_append.1 hb with hb | hb
    · exact hs.noSpace b hb
    · exact ht.noSpace b hb

theorem IsWord.not_mem_newline {s : Str} (hs : IsWord s) : (10 : UInt8) ∉ s := fun hmem =>
  Bool.noConfusion ((hs.noSpace 10 hmem).symm.trans (by decide : isSpace 10 = true))

/-- A word without its first byte is a word, unless it is empty. -/
theorem IsWord.tail {b b' : UInt8} {s : Str} (h : IsWord (b :: b' :: s)) : IsWord (b' :: s) where
  ne_nil := by simp
  noSpace := fun c hc => h.noSpace c (List.mem_cons_of_mem b hc)

/-- The words with a blank between any two. -/
def unwords (ws : List Str) : Str := List.intercalate [32] ws

@[simp] theorem unwords_singleton (w : Str) : unwords [w] = w := List.intercalate_singleton

@[simp] theorem unwords_cons_cons (w w' : Str) (ws : List Str) :
    unwords (w :: w' :: ws) = w ++ 32 :: unwords (w' :: ws) := by
  simp [unwords, List.intercalate_cons_cons]

theorem split_blank (s : Str) : split (32 :: s) = split s := by
  have hblank : isSpace 32 = true := by decide
  cases s with
  | nil => simp [split, hblank]
  | cons b s => rw [split, if_pos hblank]

theorem split_word : ∀ {w : Str}, IsWord w → split w = [w]
  | [], h => absurd rfl h.ne_nil
  | [b], h => by
    rw [split, if_neg (by simp [h.noSpace b List.mem_cons_self])]
  | b :: b' :: s, h => by
    have hb : isSpace b = false := h.noSpace b List.mem_cons_self
    have hb' : isSpace b' = false := h.tail.noSpace b' List.mem_cons_self
    rw [split, if_neg (by simp [hb]), if_neg (by simp [hb']), split_word h.tail]

theorem split_word_blank : ∀ {w : Str}, IsWord w → ∀ s, split (w ++ 32 :: s) = w :: split s
  | [], h, _ => absurd rfl h.ne_nil
  | [b], h, s => by
    have hb : isSpace b = false := h.noSpace b List.mem_cons_self
    rw [List.singleton_append, split, if_neg (by simp [hb]), if_pos (by decide), split_blank]
  | b :: b' :: w, h, s => by
    have hb : isSpace b = false := h.noSpace b List.mem_cons_self
    have hb' : isSpace b' = false := h.tail.noSpace b' List.mem_cons_self
    have ih := split_word_blank h.tail s
    rw [List.cons_append] at ih
    rw [List.cons_append, List.cons_append, split, if_neg (by simp [hb]), if_neg (by simp [hb']),
      ih]

/-- `split` finds the words of a line. -/
theorem split_unwords : ∀ {ws : List Str}, (∀ w ∈ ws, IsWord w) → split (unwords ws) = ws
  | [], _ => rfl
  | [w], h => by rw [unwords_singleton, split_word (h w List.mem_cons_self)]
  | w :: w' :: ws, h => by
    rw [unwords_cons_cons, split_word_blank (h w List.mem_cons_self),
      split_unwords fun v hv => h v (List.mem_cons_of_mem w hv)]

theorem newline_not_mem_unwords : ∀ {ws : List Str}, (∀ w ∈ ws, IsWord w) →
    (10 : UInt8) ∉ unwords ws
  | [], _ => by simp [unwords]
  | [w], h => by
    rw [unwords_singleton]
    exact (h w List.mem_cons_self).not_mem_newline
  | w :: w' :: ws, h => by
    rw [unwords_cons_cons, List.mem_append, List.mem_cons, not_or, not_or]
    exact ⟨(h w List.mem_cons_self).not_mem_newline, by decide,
      newline_not_mem_unwords fun v hv => h v (List.mem_cons_of_mem w hv)⟩

/-! ### Lines -/

theorem lines_append {l : Str} (h : (10 : UInt8) ∉ l) (s : Str) :
    lines (l ++ 10 :: s) = l :: lines s := by
  induction l with
  | nil => rw [List.nil_append, lines, if_pos rfl]
  | cons b l ih =>
    rw [List.mem_cons, not_or] at h
    rw [List.cons_append, lines, if_neg (Ne.symm h.1), ih h.2]

/-- `getline` returns the lines of a text. -/
theorem lines_flatMap {ls : List Str} (h : ∀ l ∈ ls, (10 : UInt8) ∉ l) :
    lines (ls.flatMap (· ++ [10])) = ls := by
  induction ls with
  | nil => rfl
  | cons l ls ih =>
    rw [List.flatMap_cons, List.append_assoc, List.singleton_append,
      lines_append (h l List.mem_cons_self), ih fun l' hl' => h l' (List.mem_cons_of_mem l hl')]

/-! ### The text of the catalog -/

/-- The words of the line of a column. -/
def columnFields (c : ColumnDefinition) : List Str :=
  [str "COLUMN", c.name, dataTypeName c.type, str (toString c.textLength), boolName c.notNull,
    boolName c.primaryKey]

/-- The lines of a table, as lists of words. -/
def tableLines (t : TableSchema) : List (List Str) :=
  [str "TABLE", t.tableName] :: t.columns.map columnFields ++
    [[str "FILE", t.filePath], [str "END"]]

theorem columnLine_eq (c : ColumnDefinition) :
    columnLine c = unwords (columnFields c) ++ [10] := by
  have h1 : str "COLUMN " = str "COLUMN" ++ [32] := by decide
  have h2 : str " " = [32] := by decide
  have h3 : str "\n" = [10] := by decide
  simp only [columnLine, columnFields, unwords_cons_cons, unwords_singleton, h1, h2, h3,
    List.append_assoc, List.cons_append, List.nil_append]

theorem tableText_eq (t : TableSchema) :
    tableText t = ((tableLines t).map unwords).flatMap (· ++ [10]) := by
  have h1 : str "TABLE " = str "TABLE" ++ [32] := by decide
  have h2 : str "FILE " = str "FILE" ++ [32] := by decide
  have h3 : str "\n" = [10] := by decide
  have h4 : str "END\n" = str "END" ++ [10] := by decide
  have hcolumns : t.columns.flatMap columnLine =
      ((t.columns.map columnFields).map unwords).flatMap (· ++ [10]) := by
    rw [List.map_map, List.flatMap_map]
    exact List.flatMap_congr fun c _ => columnLine_eq c
  rw [tableText, hcolumns, tableLines]
  simp only [List.map_cons, List.map_append, List.map_nil, List.flatMap_cons, List.flatMap_append,
    List.flatMap_nil, List.cons_append, unwords_cons_cons, unwords_singleton, h1, h2, h3, h4,
    List.append_assoc, List.nil_append, List.append_nil]

/-- A table that can be read back. -/
structure Loadable (t : TableSchema) : Prop where
  tableName : IsWord t.tableName
  filePath : IsWord t.filePath
  name : ∀ c ∈ t.columns, IsWord c.name
  textLength : ∀ c ∈ t.columns, -2 ^ 31 ≤ c.textLength ∧ c.textLength < 2 ^ 31

theorem isWord_columnFields {c : ColumnDefinition} (h : IsWord c.name) :
    ∀ w ∈ columnFields c, IsWord w := by
  have htype : IsWord (dataTypeName c.type) := by cases c.type <;> decide
  have hbool : ∀ b, IsWord (boolName b) := by decide
  have hlength : IsWord (str (toString c.textLength)) := by
    refine ⟨?_, fun b hb => isSpace_of_mem_toString hb⟩
    rw [str_toString]
    split
    · exact numeral_ne_nil _
    · simp
  intro w hw
  simp only [columnFields, List.mem_cons, List.not_mem_nil, or_false] at hw
  rcases hw with rfl | rfl | rfl | rfl | rfl | rfl
  · decide
  · exact h
  · exact htype
  · exact hlength
  · exact hbool _
  · exact hbool _

theorem Loadable.isWord {t : TableSchema} (h : Loadable t) {l : List Str} (hl : l ∈ tableLines t) :
    ∀ w ∈ l, IsWord w := by
  rw [tableLines] at hl
  rcases List.mem_append.1 hl with hl | hl
  · rcases List.mem_cons.1 hl with rfl | hl
    · intro w hw
      rcases List.mem_pair.1 hw with rfl | rfl
      · decide
      · exact h.tableName
    · obtain ⟨c, hc, rfl⟩ := List.mem_map.1 hl
      exact isWord_columnFields (h.name c hc)
  · rcases List.mem_pair.1 hl with rfl | rfl
    · intro w hw
      rcases List.mem_pair.1 hw with rfl | rfl
      · decide
      · exact h.filePath
    · intro w hw
      rw [List.mem_singleton.1 hw]
      decide

/-! ### Loading -/

theorem dataTypeOf_dataTypeName (t : DataType) : dataTypeOf (dataTypeName t) = .ok t := by
  cases t <;> decide

theorem boolName_eq_true (b : Bool) : decide (boolName b = str "true") = b := by
  cases b <;> decide

theorem loadColumn_unwords {c : ColumnDefinition} (hname : IsWord c.name)
    (hlength : -2 ^ 31 ≤ c.textLength ∧ c.textLength < 2 ^ 31) :
    loadColumn (unwords (columnFields c)) = .ok c := by
  rw [loadColumn, split_unwords (isWord_columnFields hname), columnFields]
  dsimp only
  rw [stoi_toString hlength.1 hlength.2, ok_bind, dataTypeOf_dataTypeName, ok_bind,
    boolName_eq_true, boolName_eq_true]
  rfl

/-- The line begins with its first word. -/
theorem isPrefixOf_unwords (w w' : Str) (ws : List Str) :
    w.isPrefixOf (unwords (w :: w' :: ws)) = true := by
  rw [unwords_cons_cons, List.isPrefixOf_iff_prefix]
  exact List.prefix_append w _

theorem loadLines_columns (rest : List Str) : ∀ (cs : List ColumnDefinition) (t : TableSchema)
    (c : Catalog), (∀ c ∈ cs, IsWord c.name) →
    (∀ c ∈ cs, -2 ^ 31 ≤ c.textLength ∧ c.textLength < 2 ^ 31) →
    loadLines (some t) ((cs.map columnFields).map unwords ++ rest) c =
      loadLines (some { t with columns := t.columns ++ cs }) rest c
  | [], t, c, _, _ => by simp
  | d :: cs, t, c, hname, hlength => by
    have hcolumn : (str "COLUMN").isPrefixOf (unwords (columnFields d)) = true :=
      isPrefixOf_unwords _ _ _
    have hend : unwords (columnFields d) ≠ str "END" := by
      intro heq
      rw [heq] at hcolumn
      exact absurd hcolumn (by decide)
    rw [List.map_cons, List.map_cons, List.cons_append, loadLines, if_neg hend, if_pos hcolumn,
      loadColumn_unwords (hname d List.mem_cons_self) (hlength d List.mem_cons_self),
      Prog.lift_ok_bind_apply,
      loadLines_columns rest cs _ c (fun c' hc' => hname c' (List.mem_cons_of_mem d hc'))
        fun c' hc' => hlength c' (List.mem_cons_of_mem d hc')]
    simp

theorem loadLines_table {t : TableSchema} (h : Loadable t) (rest : List Str) (c : Catalog) :
    loadLines none ((tableLines t).map unwords ++ rest) c =
      loadLines none rest { tables := c.tables ++ [t] } := by
  have hword : ∀ {l}, l ∈ tableLines t → split (unwords l) = l := fun hl =>
    split_unwords (h.isWord hl)
  have htable : split (unwords [str "TABLE", t.tableName]) = [str "TABLE", t.tableName] :=
    hword (by simp [tableLines])
  have hfile : split (unwords [str "FILE", t.filePath]) = [str "FILE", t.filePath] :=
    hword (by simp [tableLines])
  rw [tableLines, List.map_append, List.map_cons, List.cons_append, List.cons_append, loadLines,
    if_pos (isPrefixOf_unwords _ _ _), htable]
  dsimp only
  rw [List.append_assoc, loadLines_columns _ t.columns _ c h.name h.textLength]
  -- the line of the file
  have hfilePrefix : (str "FILE").isPrefixOf (unwords [str "FILE", t.filePath]) = true :=
    isPrefixOf_unwords _ _ _
  have hend : unwords [str "FILE", t.filePath] ≠ str "END" := by
    intro heq
    rw [heq] at hfilePrefix
    exact absurd hfilePrefix (by decide)
  have hcolumn : ¬(str "COLUMN").isPrefixOf (unwords [str "FILE", t.filePath]) = true := by
    rw [unwords_cons_cons]
    exact Bool.noConfusion
  rw [List.map_cons, List.map_singleton, List.cons_append, loadLines, if_neg hend, if_neg hcolumn,
    if_pos hfilePrefix, hfile]
  dsimp only
  rw [List.singleton_append, unwords_singleton, loadLines, if_pos rfl, Prog.modify_bind_apply]
  simp

theorem loadLines_tables : ∀ (ts : List TableSchema) (c : Catalog), (∀ t ∈ ts, Loadable t) →
    loadLines none ((ts.flatMap tableLines).map unwords) c = (.ok (), { tables := c.tables ++ ts })
  | [], c, _ => by
    rw [List.append_nil]
    rfl
  | t :: ts, c, h => by
    rw [List.flatMap_cons, List.map_append, loadLines_table (h t List.mem_cons_self),
      loadLines_tables ts _ fun t' ht' => h t' (List.mem_cons_of_mem t ht')]
    simp

theorem lines_text {c : Catalog} (h : ∀ t ∈ c.tables, Loadable t) :
    lines c.text = (c.tables.flatMap tableLines).map unwords := by
  have htext : c.text = ((c.tables.flatMap tableLines).map unwords).flatMap (· ++ [10]) := by
    rw [text, List.map_flatMap, List.flatMap_assoc]
    exact List.flatMap_congr fun t _ => tableText_eq t
  rw [htext, lines_flatMap]
  intro l hl
  obtain ⟨ws, hws, rfl⟩ := List.mem_map.1 hl
  obtain ⟨t, ht, hws⟩ := List.mem_flatMap.1 hws
  exact newline_not_mem_unwords ((h t ht).isWord hws)

/-- **`load` reads what `save` wrote.** -/
theorem load_text {c : Catalog} (h : ∀ t ∈ c.tables, Loadable t) {fs : FileSystem}
    (hfile : fs.files path = some c.text) (hread : fs.mayRead path = true) :
    load fs {} = (.ok (), c) := by
  rw [load, hfile]
  dsimp only
  rw [if_pos hread, lines_text h, loadLines_tables _ _ h]
  rfl

/-- **The file of the catalog round-trips**: a new catalog loads what `save` wrote. -/
theorem load_save {c : Catalog} (h : ∀ t ∈ c.tables, Loadable t) {fs : FileSystem}
    (hwrite : fs.mayWrite path = true) (hread : fs.mayRead path = true) :
    load (c.save fs) {} = (.ok (), c) := by
  refine load_text h ?_ ?_
  · rw [save, if_pos hwrite, FileSystem.files_put, if_pos rfl]
  · rw [save_mayRead, hread]

/-- Tables and columns named like the words that the file is made of, one of them without
columns. -/
def markers : Catalog where
  tables := [
    { tableName := str "END", filePath := str "FILE",
      columns := [{ name := str "END", type := .text, textLength := -1, notNull := true },
        { name := str "TABLE", type := .float, textLength := 2147483647, primaryKey := true }] },
    { tableName := str "COLUMN", filePath := str "COLUMN.ms" }]

theorem load_save_markers :
    load (markers.save ⟨fun _ => none, fun _ => true, fun _ => true, 0, Nat.zero_le _⟩) {} =
      (.ok (), markers) := by
  refine load_save ?_ rfl rfl
  intro t ht
  rcases List.mem_pair.1 ht with rfl | rfl
  · exact ⟨by decide, by decide, by decide, by decide⟩
  · exact ⟨by decide, by decide, nofun, nofun⟩

end Catalog

end MicroSql
