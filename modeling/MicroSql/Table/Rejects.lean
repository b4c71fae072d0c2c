import MicroSql.Table.Insert
import MicroSql.Table.Stops

/-!
# Rows that are refused

The ways in which INSERT ends with an error before it has stored a row, and what is left of them
when some value is not of the type of its column: then the encoder refuses the row only if it stops
at a text.  UPDATE is refused where the first slot at which it gets stuck is one with an error, as
long as it has changed no row by then.
-/

namespace MicroSql

open Lib

variable {limit : ℕ} {pr : ParseResult} {columns : Schema} {bs : List (Block pageSize)}

/-! ### INSERT -/

/-- The value that an INSERT gives to the column `c` at position `i`, if it gives one. -/
def givenValue (pr : ParseResult) (i : ℕ) (c : ColumnDefinition) :
    Option (Expected ExecError Value) :=
  if pr.statement.insertColumnNames = [] then pr.statement.insertValues[i]?.map (insertValue pr)
  else some (insertColumn pr c)

/-- With a column list the row has a value for each column. -/
theorem length_rowFromInsertValues {row : Row} (h : rowFromInsertValues pr columns = .ok row)
    (hnames : pr.statement.insertColumnNames ≠ []) : row.length = columns.length := by
  rw [rowFromInsertValues, if_neg hnames] at h
  exact (mapM_eq_ok.1 h).length_eq.symm

/-- The row has the values that are given. -/
theorem getElem?_rowFromInsertValues {row : Row} (h : rowFromInsertValues pr columns = .ok row)
    {i : ℕ} {c : ColumnDefinition} {v : Value} (hc : columns[i]? = some c)
    (hv : givenValue pr i c = some (.ok v)) : row[i]? = some v := by
  unfold rowFromInsertValues at h
  unfold givenValue at hv
  by_cases hnames : pr.statement.insertColumnNames = []
  · rw [if_pos hnames] at h hv
    obtain ⟨index, hindex, hval⟩ := Option.map_eq_some_iff.1 hv
    obtain ⟨u, hu, hval'⟩ := getElem?_mapM_eq_ok h hindex
    rw [hval] at hval'
    cases hval'
    exact hu
  · rw [if_neg hnames] at h hv
    obtain ⟨u, hu, hval'⟩ := getElem?_mapM_eq_ok h hc
    rw [Option.some.inj hv] at hval'
    cases hval'
    exact hu

end MicroSql
