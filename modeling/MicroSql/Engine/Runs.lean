import MicroSql.Engine.Insert
import MicroSql.Table.NotNull

/-!
# What holds in every reachable engine

Statements that encode only rows of at most 65535 bytes keep the primary keys unique.  If they
supply no NULL of their own for NOT NULL columns, these columns stay free of NULL.
-/

namespace MicroSql

open Lib

/-! ### Primary keys -/

/-- **Primary keys stay unique.**  Whatever statements have been executed, and whether they
succeeded, the rows that `SELECT *` returns have pairwise different primary keys, unless the
key is a double. -/
theorem primaryKeys_stay_unique {w : Engine} (h : Reachable EncodesWithin w) {name : Str}
    {t : TableSchema} (hfind : w.catalog.findTable name = some t) {pk : ℕ}
    {c : ColumnDefinition} (hpk : primaryKeyIndex t.columns = some pk)
    (hc : t.columns[pk]? = some c) (htype : c.type ≠ .float) :
    ∃ rows, (execSelect (selectStar name) w).1 = .ok { columns := t.columnNames, rows := rows } ∧
      (∀ row ∈ rows, row.length = t.columns.length) ∧ (rows.map (·[pk]?)).Nodup := by
  have hinv := h.good
  obtain ⟨-, -, hgood⟩ := hinv.stores hfind
  refine ⟨w.rows t, hinv.selectStar hfind, fun row hrow => ?_, hgood.keys_nodup hpk hc htype⟩
  obtain ⟨bytes, henc⟩ := hgood.pages.encodes hrow
  exact henc.length_eq

theorem primaryKeys_stay_unique_sample :
    ∃ rows, (execSelect (selectStar (str "t")) sampleTwo).1 =
        .ok { columns := sampleTable.columnNames, rows := rows } ∧
      (∀ row ∈ rows, row.length = 2) ∧ (rows.map (·[0]?)).Nodup :=
  primaryKeys_stay_unique sampleTwo_reachable sampleTwo_find rfl rfl (by decide)

/-! ### NOT NULL -/

/-- The statement supplies no NULL of its own for a NOT NULL column, and the rows that it
encodes take at most 65535 bytes. -/
structure StoresNoNull (pr : ParseResult) (w : Engine) : Prop where
  within : EncodesWithin pr w
  insert : pr.statement.kind = .insert → ∀ t,
    w.catalog.findTable pr.statement.tableName = some t → SuppliesNoNull pr t.columns
  update : pr.statement.kind = .update → ∀ t,
    w.catalog.findTable pr.statement.tableName = some t → ∀ row ∈ w.rows t,
    whereMatches pr row t.columnNames = .ok true → AssignsNoNull pr t.columns row

/-- Every statement, also one that fails, leaves the NOT NULL columns free of NULL. -/
theorem Reachable.nullsAllowed {w : Engine} (h : Reachable StoresNoNull w) :
    Engine.Inv (fun t bs => GoodTable t bs ∧
      ∀ row ∈ liveRows t.columns bs, NullsAllowed t.columns row) w := by
  refine h.inv ?_ (fun _ _ hC => hC.within.eq) ?_
  · intro t
    refine ⟨goodTable_fresh t, fun row hrow => ?_⟩
    rw [liveRows_fresh] at hrow
    cases hrow
  · intro pr w t bs hC hs hp hT
    obtain ⟨hgood, hnulls⟩ := hT
    refine ⟨hgood.after hp w.fs.limit_le fitsSlots_serializeWithin pr, ?_⟩
    refine hgood.forall_rows_after hp w.fs.limit_le fitsSlots_serializeWithin hnulls ?_ ?_
    · intro hkind row hrow
      exact (hC.insert hkind t hs.find).nullsAllowed hrow
    · intro hkind row hrow hmatch updated hupdated
      have hrows : row ∈ w.rows t := by
        rw [Engine.rows, hs.pages_eq]
        exact hrow
      exact (hC.update hkind t hs.find row hrows hmatch).nullsAllowed (hnulls row hrow) hupdated

/-- **NOT NULL, when statements supply no NULL themselves.**  No row that `SELECT *` returns has
a NULL in a NOT NULL column, and an INSERT that would store one is refused. -/
theorem notNull_holds {w : Engine} (h : Reachable StoresNoNull w) {name : Str} {t : TableSchema}
    (hfind : w.catalog.findTable name = some t) :
    (∃ rows, (execSelect (selectStar name) w).1 =
        .ok { columns := t.columnNames, rows := rows } ∧
      ∀ row ∈ rows, NullsAllowed t.columns row) ∧
    ∀ pr row, pr.statement.tableName = name → SuppliesNoNull pr t.columns →
      rowFromInsertValues pr (t.columns.map ColumnDefinition.nullable) = .ok row →
      ¬NullsAllowed t.columns row →
      (execInsert pr w).1 = .error (.error .notNullViolation) := by
  have hinv := (h.mono fun _ _ hC => hC.within).good
  obtain ⟨-, -, -, hnulls⟩ := h.nullsAllowed.stores hfind
  refine ⟨⟨w.rows t, hinv.selectStar hfind, hnulls⟩, ?_⟩
  rintro pr row rfl hsupplies hrow hnull
  rw [execInsert, ((hinv.runs_insert serializeRow pr).ran_of_find hfind).1, insertRow,
    hsupplies.violation hrow hnull]
  rfl

theorem sampleInsert_suppliesNoNull (a b : Int64) :
    SuppliesNoNull (sampleInsert a b) sampleTable.columns := by
  intro i c _ _ index hindex hnull
  have hmem : index ∈ [0, 1] := List.mem_of_getElem? hindex
  rw [List.mem_pair] at hmem
  rcases hmem with rfl | rfl <;> cases hnull

theorem sampleOne_storesNoNull : Reachable StoresNoNull sampleOne := by
  have hpath : sampleTable.filePath = tablePath sampleTable.tableName := by decide
  have hnew : Reachable StoresNoNull (newEngine sampleTable) := by
    refine .execute (.start emptyDirectory) _ ⟨newEngine_within hpath, ?_, ?_⟩
    · intro hkind
      cases hkind
    · intro hkind
      cases hkind
  refine .execute hnew _ ⟨?_, ?_, ?_⟩
  · exact (newEngine_insert hpath rfl rfl rfl sampleBytes_eq (by decide) (by decide)).1
  · intro _ t hfind
    obtain rfl : sampleTable = t := Option.some.inj ((newEngine_find hpath).symm.trans hfind)
    exact sampleInsert_suppliesNoNull 1 10
  · intro hkind
    cases hkind

theorem notNull_holds_sample :
    (∃ rows, (execSelect (selectStar (str "t")) sampleOne).1 =
        .ok { columns := sampleTable.columnNames, rows := rows } ∧
      ∀ row ∈ rows, NullsAllowed sampleTable.columns row) ∧
    ∀ pr row, pr.statement.tableName = str "t" → SuppliesNoNull pr sampleTable.columns →
      rowFromInsertValues pr (sampleTable.columns.map ColumnDefinition.nullable) = .ok row →
      ¬NullsAllowed sampleTable.columns row →
      (execInsert pr sampleOne).1 = .error (.error .notNullViolation) :=
  notNull_holds sampleOne_storesNoNull sampleOne_oneRow.find

/-- `INSERT INTO t VALUES (NULL, 10)` -/
def nullInsert : ParseResult := insertInto (str "t") [.literalNull [], .literalInt 10]

theorem nullInsert_oneRow : OneRow ((newEngine sampleTable).after nullInsert) sampleTable
    [.null, .int 10] [1, 0, 10, 0, 0, 0, 0, 0, 0, 0] :=
  oneRow (by decide) rfl rfl rfl (by decide) (by decide) (by decide)

/-- A NULL that is spelled out gets into the primary key column of the sample table. -/
theorem insert_stores_null :
    ¬∀ w name t r, Reachable anyStatement w → w.catalog.findTable name = some t →
      (execSelect (selectStar name) w).1 = .ok r → ∀ row ∈ r.rows, NullsAllowed t.columns row := by
  intro hall
  have hone := nullInsert_oneRow
  have hselect := hone.reachable.good.selectStar hone.find
  rw [hone.rows_eq] at hselect
  have hrow := hall _ _ _ _ (hone.reachable.mono fun _ _ _ => trivial) hone.find hselect
    [.null, .int 10] List.mem_cons_self
  exact hrow 0 _ rfl rfl rfl

end MicroSql
