import MicroSql.Engine.Update
import MicroSql.Table.Outcome

/-!
# Legal updates

An UPDATE that can be computed on every row of its table still fails when a page has no room for
the rows that grow, and when a new key is taken at the moment it is checked.  Both conditions are
stated on the table before the statement: `HasGrowthRoom`, and two rows with one key afterwards or
a row that takes the key of a later one (`Overtakes`).
-/

namespace MicroSql

open Lib

namespace Engine

variable {T : TableSchema → List (Block pageSize) → Prop} {w : Engine} {pr : ParseResult}
  {t : TableSchema}

/-- For an UPDATE that can be computed the check of `serializeWithin` does not fail. -/
theorem Inv.execUpdate_legal (h : Inv GoodTable w)
    (hfind : w.catalog.findTable pr.statement.tableName = some t)
    (hlegal : ∀ row ∈ w.rows t, Legal pr t.columns row) :
    (execUpdate pr w).1 =
      (updateRows (pageArray w.fs.limit) serializeWithin pr t.columns (w.pages t)).1 := by
  obtain ⟨-, hp, hgood⟩ := h.stores hfind
  have hrun := ((h.runs_update serializeWithin pr).ran_of_find hfind).1
  have hne : (execUpdateWith serializeWithin pr w).1 ≠ .error tooLong := by
    rw [hrun]
    intro herr
    obtain ⟨k, slot, ⟨b, row, hb, hrow, hstuck⟩, -⟩ :=
      (updateRows_eq_error hp hgood.pages hgood.keys).1 herr
    have hmem : row ∈ w.rows t := by
      rw [Engine.rows, liveRows_at_slot hb hrow]
      simp
    obtain ⟨-, -, -, -, ⟨-, ⟨⟩⟩ | ⟨-, -, hne⟩⟩ := (hlegal row hmem).stuck_cases hstuck
    exact hne rfl
  rw [← (execUpdate_guards pr).eq hne, hrun]

end Engine

/-! ### Room -/

/-- **A legal UPDATE succeeds exactly if the pages have room**, and an `int` can count its rows.
It does not assign the primary key, its condition and its new values can be evaluated on every row,
and the new rows suit the table and take at most 4076 bytes.  What it takes of a page is the total
length of those new rows that are longer than their slots. -/
theorem legalUpdate_succeeds_iff {w : Engine} (h : Reachable EncodesWithin w) {pr : ParseResult}
    {t : TableSchema} (hfind : w.catalog.findTable pr.statement.tableName = some t)
    (hkey : ∀ pk, primaryKeyIndex t.columns = some pk → pkAssigned pr t.columns pk = false)
    (hlegal : ∀ row ∈ w.rows t, Legal pr t.columns row) :
    (∃ n, (execUpdate pr w).1 = .ok n) ↔
      HasGrowthRoom pr t.columns (w.pages t) ∧ w.matching pr t < 2 ^ 31 := by
  obtain ⟨-, hp, hgood⟩ := h.good.stores hfind
  rw [h.good.execUpdate_legal hfind hlegal]
  exact updateRows_ok_iff hp hgood.pages hgood.keys hlegal hkey

theorem sampleUpdate_legal : Legal sampleUpdate sampleTable.columns [.int 1, .int 10] := by
  have hsuits : Row.Suits [.int 1, .int 5] sampleTable.columns := .cons rfl (.cons rfl .nil)
  refine .new rfl rfl hsuits fun bytes hbytes => ?_
  rw [length_serializeRow hbytes rfl]
  decide

theorem legalUpdate_succeeds_iff_sample : (∃ n, (execUpdate sampleUpdate sampleOne).1 = .ok n) ↔
    HasGrowthRoom sampleUpdate sampleTable.columns (sampleOne.pages sampleTable) ∧
      sampleOne.matching sampleUpdate sampleTable < 2 ^ 31 := by
  have hfind : sampleOne.catalog.findTable sampleUpdate.statement.tableName = some sampleTable :=
    sampleOne_oneRow.find
  refine legalUpdate_succeeds_iff sampleOne_oneRow.reachable hfind ?_ ?_
  · intro pk hpk
    obtain rfl : 0 = pk := Option.some.inj hpk
    decide
  · intro row hrow
    rw [sampleOne_oneRow.rows_eq, List.mem_singleton] at hrow
    subst hrow
    exact sampleUpdate_legal

/-- A text that is one byte longer than `wideText`. -/
def longerText : Str := List.replicate 3001 97

/-- `UPDATE u SET b = 'aaa...'`, with a text that is one byte longer than the one that is there. -/
def growUpdate : ParseResult where
  expressions := [.literalText longerText]
  statement := { kind := .update, tableName := str "u", assignments := [(str "b", 0)] }

theorem growUpdate_legal :
    Legal growUpdate wideTable.columns [.int 1, .text wideText] := by
  have hlength : longerText.length = 3001 := List.length_replicate
  have hle : longerText.length ≤ 4000 := by
    rw [hlength]
    decide
  have hsuits : Row.Suits [.int 1, .text longerText] wideTable.columns :=
    .cons rfl (.cons ⟨rfl, wide_textLimit ▸ hle⟩ .nil)
  refine .new rfl rfl hsuits fun bytes hbytes => ?_
  rw [length_serializeRow hbytes (wide_encodedSize 1 hle), hlength]
  decide

/-- The free space of the page has room for 1064 bytes, and the new row takes 3013. -/
theorem growUpdate_noRoom : ¬HasGrowthRoom growUpdate wideTable.columns
    [(Page.init 0).data, insertedInto (Page.init 1).data (wideBytes 1)] := by
  intro hroom
  have hpage : pageGrowth growUpdate wideTable.columns
      (blockPage (insertedInto (Page.init 1).data (wideBytes 1))) ≤
        (blockPage (insertedInto (Page.init 1).data (wideBytes 1))).freeSpace :=
    hroom _ (by simp)
  revert hpage
  decide +kernel

/-- A row that grows by one byte does not fit into its page any more. -/
theorem legalUpdate_finds_no_room :
    ¬∀ w pr t, Reachable anyStatement w →
      w.catalog.findTable pr.statement.tableName = some t →
      (∀ pk, primaryKeyIndex t.columns = some pk → pkAssigned pr t.columns pk = false) →
      (∀ row ∈ w.rows t, Legal pr t.columns row) → ∃ n, (execUpdate pr w).1 = .ok n := by
  intro hall
  have hone := wideOne_oneRow
  have hfind : wideOne.catalog.findTable growUpdate.statement.tableName = some wideTable :=
    hone.find
  have hkey : ∀ pk, primaryKeyIndex wideTable.columns = some pk →
      pkAssigned growUpdate wideTable.columns pk = false := by
    intro pk hpk
    cases hpk
  have hlegal : ∀ row ∈ wideOne.rows wideTable, Legal growUpdate wideTable.columns row := by
    intro row hrow
    rw [hone.rows_eq, List.mem_singleton] at hrow
    subst hrow
    exact growUpdate_legal
  obtain ⟨n, hok⟩ := hall wideOne growUpdate wideTable (hone.reachable.mono fun _ _ _ => trivial)
    hfind hkey hlegal
  obtain ⟨-, hp, hgood⟩ := hone.reachable.good.stores hfind
  rw [hone.reachable.good.execUpdate_legal hfind hlegal] at hok
  have hroom := hasGrowthRoom_of_ok hp hgood.pages hgood.keys hok
  rw [hone.pages_eq] at hroom
  exact growUpdate_noRoom hroom

/-! ### Keys -/

/-- **When UPDATE reports a duplicate key.**  For a legal UPDATE that assigns the primary key and
has room, and does not match too many rows for an `int`: exactly if two rows would have the same
key afterwards, or some matching row takes the key that a matching row further on had. -/
theorem update_keyViolation_iff {w : Engine} (h : Reachable EncodesWithin w) {pr : ParseResult}
    {t : TableSchema} (hfind : w.catalog.findTable pr.statement.tableName = some t) {pk : ℕ}
    {c : ColumnDefinition} (hpk : primaryKeyIndex t.columns = some pk)
    (hc : t.columns[pk]? = some c) (hint : c.type = .integer)
    (hass : pkAssigned pr t.columns pk = true)
    (hlegal : ∀ row ∈ w.rows t, Legal pr t.columns row)
    (hcount : w.matching pr t < 2 ^ 31)
    (hroom : HasGrowthRoom pr t.columns (w.pages t)) :
    (execUpdate pr w).1 = .error (.error .primaryKeyViolation) ↔
      ¬((w.rows t).map fun row => (afterUpdate pr t.columns row)[pk]?).Nodup ∨
        Overtakes pr t.columns pk (w.rows t) := by
  obtain ⟨-, hp, hgood⟩ := h.good.stores hfind
  have hfloat : c.type ≠ .float := by
    rw [hint]
    decide
  rw [h.good.execUpdate_legal hfind hlegal,
    updateRows_keyViolation_iff hp hgood.pages hgood.keys hlegal hcount hroom hpk hass hc hfloat]
  exact keyClash_iff (hgood.keys_nodup hpk hc hfloat)

/-- `UPDATE t SET a = 3 - a` -/
def swapKeys : ParseResult where
  expressions := [.literalInt 3, .columnRef [] (str "a"), .binary .subtract 0 1]
  statement := { kind := .update, tableName := str "t", assignments := [(str "a", 2)] }

theorem swapKeys_legal : ∀ row ∈ sampleTwo.rows sampleTable,
    Legal swapKeys sampleTable.columns row := by
  have hlegal : ∀ a b c : Int64,
      rowFromUpdate [.int a, .int b] swapKeys.statement.assignments swapKeys
        (sampleTable.columns.map (·.name)) = .ok [.int c, .int b] →
      Legal swapKeys sampleTable.columns [.int a, .int b] := by
    intro a b c hupd
    have hsuits : Row.Suits [.int c, .int b] sampleTable.columns := .cons rfl (.cons rfl .nil)
    refine .new rfl hupd hsuits fun bytes hbytes => ?_
    rw [length_serializeRow hbytes rfl]
    decide
  intro row hrow
  rw [sampleTwo_rows, List.mem_pair] at hrow
  rcases hrow with rfl | rfl
  · exact hlegal 1 10 2 (by decide)
  · exact hlegal 2 20 1 (by decide)

theorem swapKeys_room :
    HasGrowthRoom swapKeys sampleTable.columns (sampleTwo.pages sampleTable) := by
  rw [sampleTwo_pages]
  intro b hb
  rcases List.mem_pair.1 hb with rfl | rfl <;> decide +kernel

theorem swapKeys_count : sampleTwo.matching swapKeys sampleTable < 2 ^ 31 := by
  rw [Engine.matching, sampleTwo_rows]
  decide

theorem update_keyViolation_iff_sample :
    (execUpdate swapKeys sampleTwo).1 = .error (.error .primaryKeyViolation) ↔
      ¬((sampleTwo.rows sampleTable).map fun row =>
          (afterUpdate swapKeys sampleTable.columns row)[0]?).Nodup ∨
        Overtakes swapKeys sampleTable.columns 0 (sampleTwo.rows sampleTable) := by
  have hfind : sampleTwo.catalog.findTable swapKeys.statement.tableName = some sampleTable :=
    sampleTwo_find
  exact update_keyViolation_iff sampleTwo_reachable hfind rfl rfl rfl (by decide) swapKeys_legal
    swapKeys_count swapKeys_room

/-- Two rows that exchange their keys: the first takes the key that the second still has. -/
theorem swapKeys_refused :
    ¬∀ w pr t pk c, Reachable anyStatement w →
      w.catalog.findTable pr.statement.tableName = some t →
      primaryKeyIndex t.columns = some pk → t.columns[pk]? = some c → c.type = .integer →
      pkAssigned pr t.columns pk = true → (∀ row ∈ w.rows t, Legal pr t.columns row) →
      HasGrowthRoom pr t.columns (w.pages t) →
      ((execUpdate pr w).1 = .error (.error .primaryKeyViolation) ↔
        ¬((w.rows t).map fun row => (afterUpdate pr t.columns row)[pk]?).Nodup) := by
  intro hall
  have hfind : sampleTwo.catalog.findTable swapKeys.statement.tableName = some sampleTable :=
    sampleTwo_find
  have hass : pkAssigned swapKeys sampleTable.columns 0 = true := by decide
  have hiff := hall sampleTwo swapKeys sampleTable 0 _
    (sampleTwo_reachable.mono fun _ _ _ => trivial) hfind rfl rfl rfl hass swapKeys_legal
    swapKeys_room
  obtain ⟨-, hp, hgood⟩ := sampleTwo_reachable.good.stores hfind
  have hclash : KeyClash swapKeys sampleTable.columns 0 (sampleTwo.rows sampleTable) := by
    rw [sampleTwo_rows]
    refine ⟨[], [.int 1, .int 10], [[.int 2, .int 20]], [.int 2, .int 10], rfl, ?_,
      [.int 2, .int 20], ?_, rfl⟩
    · decide
    · exact List.mem_singleton.2 rfl
  have hviolation : (execUpdate swapKeys sampleTwo).1 = .error (.error .primaryKeyViolation) := by
    rw [sampleTwo_reachable.good.execUpdate_legal hfind swapKeys_legal]
    exact (updateRows_keyViolation_iff hp hgood.pages hgood.keys swapKeys_legal swapKeys_count
      swapKeys_room rfl hass rfl (by decide)).2 hclash
  refine hiff.1 hviolation ?_
  rw [sampleTwo_rows]
  decide

end MicroSql
