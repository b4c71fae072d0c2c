import MicroSql.Engine.Reachable

/-!
# SELECT

What `execSelect` returns on a table of the engine.  It filters the rows that are read from
the live slots by the condition, evaluated under the names of the selected columns.
-/

namespace MicroSql

open Lib

namespace Engine

/-- The pages of the file of a table. -/
def pages (w : Engine) (t : TableSchema) : List (Block pageSize) :=
  Block.cut pageSize (w.fs.contents t.filePath)

/-- What is read from the live slots of a table, in page and slot order. -/
def stored (w : Engine) (t : TableSchema) : List (Expected ExecError Row) :=
  storedRows t.columns (w.pages t)

/-- The live rows of a table, in page and slot order. -/
def rows (w : Engine) (t : TableSchema) : List Row := liveRows t.columns (w.pages t)

variable {T : TableSchema → List (Block pageSize) → Prop} {w : Engine} {name : Str}
  {t : TableSchema} {bs : List (Block pageSize)}

theorem Stores.pages_eq (h : w.Stores name t bs) : w.pages t = bs := by
  rw [pages, FileSystem.contents, h.file, Option.getD_some, Block.cut_flat (by decide)]

/-- A table of the catalog with its pages. -/
theorem Inv.stores (h : Inv T w) (hfind : w.catalog.findTable name = some t) :
    w.Stores name t (w.pages t) ∧ TablePages (w.pages t) ∧ T t (w.pages t) := by
  obtain ⟨bs, hs, hp, hT⟩ := (h.table name t hfind).stored
  rw [hs.pages_eq]
  exact ⟨hs, hp, hT⟩

/-- How a statement on an existing table ends. -/
theorem RunsOn.ran_of_find {α : Type}
    {d : Schema → Prog (List (Block pageSize)) (Failure ExecError) α}
    {r : Except (Failure ExecError) α × Engine} (hr : RunsOn T w name d r)
    (hfind : w.catalog.findTable name = some t) :
    r.1 = (d t.columns (w.pages t)).1 ∧
      Changes w name t.filePath (d t.columns (w.pages t)).2 r.2 := by
  cases hr with
  | missing hnone =>
    rw [hfind] at hnone
    cases hnone
  | @ran t' bs w' hs hp hT hc =>
    obtain rfl : t' = t := Option.some.inj (hs.find.symm.trans hfind)
    rw [hs.pages_eq]
    exact ⟨rfl, hc⟩

/-- `execSelect` filters what is stored by the condition under the names of the selected
columns. -/
theorem Inv.select_eq (h : Inv T w) {pr : ParseResult}
    (hfind : w.catalog.findTable pr.statement.tableName = some t) :
    (execSelect pr w).1 = do
      let names ← selectedColumns pr t.columnNames
      let rows ← selectFrom (whereMatches pr · names) (w.stored t)
      return { columns := names, rows := rows } := by
  obtain ⟨-, hp, -⟩ := h.stores hfind
  rw [((h.runs_select pr).ran_of_find hfind).1, selectOn_apply hp]
  rfl

end Engine

/-! ### SELECT * -/

/-- `SELECT * FROM name` -/
def selectStar (name : Str) : ParseResult where
  expressions := []
  statement := { kind := .select, tableName := name }

/-- `SELECT *` returns the live rows. -/
theorem Engine.Inv.selectStar {w : Engine} (h : Inv GoodTable w) {name : Str} {t : TableSchema}
    (hfind : w.catalog.findTable name = some t) :
    (execSelect (selectStar name) w).1 = .ok { columns := t.columnNames, rows := w.rows t } := by
  obtain ⟨-, hp, hgood⟩ := h.stores hfind
  have hall : selectFrom (fun row => whereMatches (MicroSql.selectStar name) row t.columnNames)
      (w.stored t) = .ok (w.rows t) := by
    rw [Engine.stored, storedRows_eq hp hgood.pages, selectFrom_eq_ok]
    constructor
    · intro read hread
      obtain ⟨row, -, rfl⟩ := List.mem_map.1 hread
      exact ⟨row, true, rfl, rfl⟩
    · rw [oks_map_ok]
      exact (List.filter_eq_self.2 fun row _ => decide_eq_true rfl).symm
  have hcols : selectedColumns (MicroSql.selectStar name) t.columnNames = .ok t.columnNames := rfl
  have hfind' : w.catalog.findTable (MicroSql.selectStar name).statement.tableName = some t :=
    hfind
  rw [h.select_eq hfind', hcols, ok_bind, hall, ok_bind, pure_eq_ok]

/-- What `SELECT *` returns determines the rows. -/
theorem Engine.Inv.rows_eq {w w' : Engine} (h : Inv GoodTable w) (h' : Inv GoodTable w')
    {name : Str} {t : TableSchema} (hfind : w.catalog.findTable name = some t)
    (hfind' : w'.catalog.findTable name = some t)
    (hsame : (execSelect (MicroSql.selectStar name) w').1 =
      (execSelect (MicroSql.selectStar name) w).1) : w'.rows t = w.rows t := by
  rw [h'.selectStar hfind', h.selectStar hfind] at hsame
  exact congrArg Result.rows (Except.ok.inj hsame)

end MicroSql
