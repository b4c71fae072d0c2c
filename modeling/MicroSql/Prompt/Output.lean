import MicroSql.Executor.Executor
import MicroSql.Lexer.Lexer

/-!
# Printing results

`formatValue` and `printResult` of `main.cpp`: what is written to the standard output.  The widths
of the columns are kept in a vector with one element for each column of the result, and indexed by
the position of a value in its row.
-/

namespace MicroSql

open Lib

/-- A row of the result is longer than the header that is printed above it. -/
def Result.Overruns (result : Result) : Prop :=
  result.success = true ∧ result.columns ≠ [] ∧
    ∃ row ∈ result.rows, result.columns.length < row.length

namespace Prompt

section

variable (formatDouble : Double → Str) (displayWidth : Str → ℕ)

/-- `formatValue`; `formatDouble` is `std::format("{}", …)` of a double. -/
def formatValue : Value → Str
  | .null => str "NULL"
  | .bool b => if b then str "true" else str "false"
  | .int n => str (toString n.toInt)
  | .float d => formatDouble d
  | .text s => s

/-- `std::format("{:<{}}", s, width)`; `displayWidth` is the width that the library estimates for
a text. -/
def padded (s : Str) (width : ℕ) : Str := s ++ List.replicate (width - displayWidth s) (ch ' ')

/-- `widths[i] = std::max(widths[i], …)` for each value of a row.  The index is not checked. -/
def widen : List ℕ → Row → Except Fault (List ℕ)
  | widths, [] => .ok widths
  | [], _ :: _ => .error .outOfBounds
  | width :: widths, v :: row => do
    let rest ← widen widths row
    return max width (formatValue formatDouble v).length :: rest

/-- The widths of the columns: those of the header, and then of the rows. -/
def columnWidths (result : Result) : Except Fault (List ℕ) :=
  result.rows.foldlM (widen formatDouble) (result.columns.map List.length)

/-- `printSep` -/
def printSep (widths : List ℕ) : Str :=
  ch '+' :: widths.flatMap fun width => List.replicate (width + 2) (ch '-') ++ [ch '+']

/-- `std::print(" {:<{}} |", s, widths[i])` for some texts. -/
def cells : List ℕ → List Str → Except Fault Str
  | _, [] => .ok []
  | [], _ :: _ => .error .outOfBounds
  | width :: widths, s :: texts => do
    let rest ← cells widths texts
    return ch ' ' :: padded displayWidth s width ++ str " |" ++ rest

/-- A line with the cells of the header or of a row. -/
def cellLine (widths : List ℕ) (texts : List Str) : Except Fault Str := do
  let rest ← cells displayWidth widths texts
  return ch '|' :: rest

/-- The lines of the table. -/
def tableLines (result : Result) : Except Fault (List Str) := do
  let widths ← columnWidths formatDouble result
  let header ← cellLine displayWidth widths result.columns
  let lines ← result.rows.mapM fun row =>
    cellLine displayWidth widths (row.map (formatValue formatDouble))
  return [printSep widths, header, printSep widths] ++ lines ++ [printSep widths]

/-- `std::println` -/
def println (s : Str) : Str := s ++ [Lexer.newline]

/-- `printResult` -/
def printResult (result : Result) : Except Fault Str :=
  if result.success = false then .ok (println (str "Error: " ++ result.message))
  else do
    let message := if result.message = [] then [] else println result.message
    if result.columns = [] then return message
    let lines ← tableLines formatDouble displayWidth result
    return lines.flatMap println ++ message

/-- What `main` writes for a query: the error of the parser, or the result. -/
def shown : Str ⊕ Result → Except Fault Str
  | .inl error => .ok (println (str "Parse error: " ++ error))
  | .inr result => printResult formatDouble displayWidth result

/-- What is written for all queries of a session, without the prompts. -/
def screen (printed : List (Str ⊕ Result)) : Except Fault Str :=
  List.flatten <$> printed.mapM (shown formatDouble displayWidth)

end

/-! ### Widths -/

/-- There is a width for each text, which is no longer than it. -/
inductive Covers : List ℕ → List Str → Prop
  | nil (widths : List ℕ) : Covers widths []
  | cons {width : ℕ} {widths : List ℕ} {s : Str} {texts : List Str} (h : s.length ≤ width)
      (rest : Covers widths texts) : Covers (width :: widths) (s :: texts)

section Widths

variable (formatDouble : Double → Str) (displayWidth : Str → ℕ) {widths widths' : List ℕ}
  {texts : List Str} {row : Row} {rows : List Row} {result : Result}

theorem Covers.mono (h : Covers widths texts) (hle : List.Forall₂ (· ≤ ·) widths widths') :
    Covers widths' texts := by
  induction h generalizing widths' with
  | nil => exact .nil _
  | cons hs _ ih =>
    cases hle with
    | cons hw hle => exact .cons (hs.trans hw) (ih hle)

theorem Covers.header (columns : List Str) : Covers (columns.map List.length) columns := by
  induction columns with
  | nil => exact .nil _
  | cons s columns ih => exact .cons le_rfl ih

theorem widen_of_le (h : row.length ≤ widths.length) : ∃ widths',
    widen formatDouble widths row = .ok widths' ∧ List.Forall₂ (· ≤ ·) widths widths' ∧
      Covers widths' (row.map (formatValue formatDouble)) := by
  induction row generalizing widths with
  | nil =>
    refine ⟨widths, ?_, List.forall₂_refl _, .nil _⟩
    cases widths <;> rfl
  | cons v row ih =>
    cases widths with
    | nil => cases h
    | cons width widths =>
      obtain ⟨rest, hrun, hle, hcovers⟩ := ih (Nat.le_of_succ_le_succ h)
      refine ⟨max width (formatValue formatDouble v).length :: rest, ?_, ?_, ?_⟩
      · rw [widen, hrun]
        rfl
      · exact .cons (le_max_left _ _) hle
      · exact .cons (le_max_right _ _) hcovers

/-- The vector of the widths is written past its end. -/
theorem widen_of_lt (h : widths.length < row.length) :
    widen formatDouble widths row = .error .outOfBounds := by
  induction row generalizing widths with
  | nil => cases h
  | cons v row ih =>
    cases widths with
    | nil => rfl
    | cons width widths =>
      rw [widen, ih (Nat.lt_of_succ_lt_succ h)]
      rfl

/-- The widths after all rows, if none is longer than the header. -/
theorem widenAll_of_le (h : ∀ row ∈ rows, row.length ≤ widths.length) : ∃ widths',
    rows.foldlM (widen formatDouble) widths = .ok widths' ∧
      List.Forall₂ (· ≤ ·) widths widths' ∧
      ∀ row ∈ rows, Covers widths' (row.map (formatValue formatDouble)) := by
  induction rows generalizing widths with
  | nil =>
    refine ⟨widths, rfl, List.forall₂_refl _, ?_⟩
    rintro row ⟨⟩
  | cons row rows ih =>
    obtain ⟨widths₁, hrun, hle, hcovers⟩ := widen_of_le formatDouble (h row List.mem_cons_self)
    have hrows : ∀ r ∈ rows, r.length ≤ widths₁.length := fun r hr => by
      rw [← hle.length_eq]
      exact h r (List.mem_cons_of_mem row hr)
    obtain ⟨widths₂, hrest, hle', hall⟩ := ih hrows
    have hle₂ := forall₂_trans (R := (· ≤ ·)) (fun _ _ _ => le_trans) hle hle'
    refine ⟨widths₂, ?_, hle₂, fun r hr => ?_⟩
    · rw [List.foldlM_cons, hrun, ok_bind, hrest]
    · rcases List.mem_cons.1 hr with rfl | hr
      · exact hcovers.mono hle'
      · exact hall r hr

theorem widenAll_of_lt (hrow : row ∈ rows) (h : widths.length < row.length) :
    rows.foldlM (widen formatDouble) widths = .error .outOfBounds := by
  induction rows generalizing widths with
  | nil => cases hrow
  | cons r rows ih =>
    rw [List.foldlM_cons]
    by_cases hr : r.length ≤ widths.length
    · obtain ⟨widths', hrun, hle, -⟩ := widen_of_le formatDouble hr
      rw [hrun, ok_bind]
      rcases List.mem_cons.1 hrow with rfl | hrow
      · omega
      · exact ih hrow (by rwa [← hle.length_eq])
    · rw [widen_of_lt formatDouble (Nat.not_le.1 hr), error_bind]

/-! ### Lines -/

theorem cells_of_covers (h : Covers widths texts) :
    ∃ out, cells displayWidth widths texts = .ok out ∧
      ((∀ s ∈ texts, displayWidth s = s.length) →
        out.length = ((widths.take texts.length).map (· + 3)).sum) := by
  induction h with
  | nil widths =>
    refine ⟨[], ?_, fun _ => rfl⟩
    cases widths <;> rfl
  | @cons width widths s texts hs _ ih =>
    obtain ⟨rest, hrun, hlength⟩ := ih
    refine ⟨ch ' ' :: padded displayWidth s width ++ str " |" ++ rest, ?_, fun hplain => ?_⟩
    · rw [cells, hrun]
      rfl
    · have hbar : (str " |").length = 2 := rfl
      rw [List.length_append, hlength fun t ht => hplain t (List.mem_cons_of_mem s ht),
        List.length_append, List.length_cons, padded, List.length_append, List.length_replicate,
        hplain s List.mem_cons_self, hbar, List.length_cons, List.take_succ_cons, List.map_cons,
        List.sum_cons]
      omega

theorem length_printSep (widths : List ℕ) :
    (printSep widths).length = 1 + (widths.map (· + 3)).sum := by
  rw [printSep, List.length_cons, List.length_flatMap, Nat.add_comm]
  congr 2
  refine congrArg (fun f => widths.map f) (funext fun width => ?_)
  rw [List.length_append, List.length_replicate, List.length_singleton]

/-- A line is as long as the widths of its cells. -/
theorem cellLine_of_covers (h : Covers widths texts) :
    ∃ line, cellLine displayWidth widths texts = .ok line ∧
      ((∀ s ∈ texts, displayWidth s = s.length) →
        line.length = 1 + ((widths.take texts.length).map (· + 3)).sum) := by
  obtain ⟨out, hrun, hlength⟩ := cells_of_covers displayWidth h
  refine ⟨ch '|' :: out, ?_, fun hplain => ?_⟩
  · rw [cellLine, hrun]
    rfl
  · rw [List.length_cons, hlength hplain, Nat.add_comm]

/-- The first cells of a line take less than all of them. -/
theorem sum_take_eq_iff (widths : List ℕ) {n : ℕ} (h : n ≤ widths.length) :
    ((widths.take n).map (· + 3)).sum = (widths.map (· + 3)).sum ↔ n = widths.length := by
  constructor
  · intro hsum
    by_contra hne
    have hsplit : ((widths.take n ++ widths.drop n).map (· + 3)).sum =
        (widths.map (· + 3)).sum := by rw [List.take_append_drop]
    have hrest : widths.drop n = widths[n] :: widths.drop (n + 1) :=
      List.drop_eq_getElem_cons (by omega)
    rw [hrest, List.map_append, List.sum_append, List.map_cons, List.sum_cons] at hsplit
    omega
  · rintro rfl
    rw [List.take_length]

/-- The texts of a result, on which the library's estimate is their length. -/
def Plain (formatDouble : Double → Str) (displayWidth : Str → ℕ) (result : Result) : Prop :=
  (∀ s ∈ result.columns, displayWidth s = s.length) ∧
    ∀ row ∈ result.rows, ∀ v ∈ row,
      displayWidth (formatValue formatDouble v) = (formatValue formatDouble v).length

/-- The lines of a table, none of whose rows is longer than the header, and how long they are. -/
theorem tableLines_of_le (h : ∀ row ∈ result.rows, row.length ≤ result.columns.length) :
    ∃ (widths : List ℕ) (lines : List Str),
      tableLines formatDouble displayWidth result = .ok lines ∧
      widths.length = result.columns.length ∧ lines.length = result.rows.length + 4 ∧
      (Plain formatDouble displayWidth result → lines.map List.length =
        List.replicate 3 (1 + (widths.map (· + 3)).sum) ++
          result.rows.map (fun row => 1 + ((widths.take row.length).map (· + 3)).sum) ++
          [1 + (widths.map (· + 3)).sum]) := by
  obtain ⟨widths, hwidths, hle, hrows⟩ := widenAll_of_le formatDouble
    (show ∀ row ∈ result.rows, row.length ≤ (result.columns.map List.length).length by
      simpa using h)
  have hlen : widths.length = result.columns.length := by
    rw [← hle.length_eq, List.length_map]
  obtain ⟨header, hheader, hheaderLength⟩ := cellLine_of_covers displayWidth
    ((Covers.header result.columns).mono hle)
  have hlines : ∃ lines, List.Forall₂ (fun row line =>
      cellLine displayWidth widths (row.map (formatValue formatDouble)) = .ok line ∧
        (Plain formatDouble displayWidth result →
          line.length = 1 + ((widths.take row.length).map (· + 3)).sum)) result.rows lines := by
    refine exists_forall₂ fun row hrow => ?_
    obtain ⟨line, hline, hlength⟩ := cellLine_of_covers displayWidth (hrows row hrow)
    rw [List.length_map] at hlength
    refine ⟨line, hline, fun hplain => hlength fun s hs => ?_⟩
    obtain ⟨v, hv, rfl⟩ := List.mem_map.1 hs
    exact hplain.2 row hrow v hv
  obtain ⟨lines, hlines⟩ := hlines
  have hmapM : result.rows.mapM (fun row =>
      cellLine displayWidth widths (row.map (formatValue formatDouble))) = .ok lines :=
    mapM_eq_ok.2 (hlines.imp fun _ _ h => h.1)
  refine ⟨widths, [printSep widths, header, printSep widths] ++ lines ++ [printSep widths], ?_,
    hlen, ?_, fun hplain => ?_⟩
  · rw [tableLines, columnWidths, hwidths, ok_bind, hheader, ok_bind, hmapM]
    rfl
  · rw [List.length_append, List.length_append, ← hlines.length_eq]
    simp only [List.length_cons, List.length_nil]
    omega
  · have hfull : header.length = 1 + (widths.map (· + 3)).sum := by
      rw [hheaderLength hplain.1, ← hlen, List.take_length]
    have hrest : lines.map List.length =
        result.rows.map fun row => 1 + ((widths.take row.length).map (· + 3)).sum := by
      rw [← List.forall₂_eq_eq_eq, List.forall₂_map_left_iff, List.forall₂_map_right_iff]
      exact (hlines.imp fun _ _ h => h.2 hplain).flip
    rw [List.map_append, List.map_append, hrest]
    simp [length_printSep, hfull, List.replicate]

/-- **The lines of a table are of one length** exactly if each row has a value for each column. -/
theorem tableLines_aligned_iff (h : ∀ row ∈ result.rows, row.length ≤ result.columns.length)
    (hplain : Plain formatDouble displayWidth result) :
    ∃ lines, tableLines formatDouble displayWidth result = .ok lines ∧
      lines.length = result.rows.length + 4 ∧
      ((∃ n, ∀ line ∈ lines, line.length = n) ↔
        ∀ row ∈ result.rows, row.length = result.columns.length) := by
  obtain ⟨widths, lines, hlines, hlen, hcount, hlength⟩ :=
    tableLines_of_le formatDouble displayWidth h
  refine ⟨lines, hlines, hcount, ?_⟩
  have hone : (∃ n, ∀ line ∈ lines, line.length = n) ↔ ∃ n, ∀ k ∈ lines.map List.length, k = n := by
    simp only [List.forall_mem_map]
  rw [hone, hlength hplain]
  constructor
  · rintro ⟨n, hn⟩ row hrow
    have hfull := hn (1 + (widths.map (· + 3)).sum) (by simp)
    have hline := hn (1 + ((widths.take row.length).map (· + 3)).sum)
      (List.mem_append_left _ (List.mem_append_right _ (List.mem_map_of_mem hrow)))
    rw [← hlen, ← sum_take_eq_iff widths (by rw [hlen]; exact h row hrow)]
    omega
  · intro hrows
    refine ⟨1 + (widths.map (· + 3)).sum, fun k hk => ?_⟩
    rcases List.mem_append.1 hk with hk | hk
    · rcases List.mem_append.1 hk with hk | hk
      · exact List.eq_of_mem_replicate hk
      · obtain ⟨row, hrow, rfl⟩ := List.mem_map.1 hk
        rw [hrows row hrow, ← hlen, List.take_length]
    · exact List.mem_singleton.1 hk

/-- A result with no such row is printed. -/
theorem printResult_eq_ok (h : ¬result.Overruns) :
    ∃ text, printResult formatDouble displayWidth result = .ok text := by
  unfold printResult
  by_cases hsuccess : result.success = false
  · exact ⟨_, if_pos hsuccess⟩
  rw [if_neg hsuccess]
  by_cases hcolumns : result.columns = []
  · exact ⟨_, if_pos hcolumns⟩
  rw [if_neg hcolumns]
  have hrows : ∀ row ∈ result.rows, row.length ≤ result.columns.length := fun row hrow =>
    Nat.not_lt.1 fun hlt => h ⟨Bool.not_eq_false _ ▸ hsuccess, hcolumns, row, hrow, hlt⟩
  obtain ⟨widths, lines, hlines, -⟩ := tableLines_of_le formatDouble displayWidth hrows
  rw [hlines]
  exact ⟨_, rfl⟩

/-- **When the vector of the widths is written past its end**: a row is longer than the header. -/
theorem printResult_eq_error {f : Fault} :
    printResult formatDouble displayWidth result = .error f ↔
      f = .outOfBounds ∧ result.Overruns := by
  constructor
  · intro h
    have hoverruns : result.Overruns := by
      by_contra hfits
      obtain ⟨text, htext⟩ := printResult_eq_ok formatDouble displayWidth hfits
      rw [htext] at h
      cases h
    obtain ⟨hsuccess, hcolumns, row, hrow, hlt⟩ := id hoverruns
    rw [printResult, hsuccess, if_neg (by decide), if_neg hcolumns, tableLines, columnWidths,
      widenAll_of_lt formatDouble hrow (by rwa [List.length_map])] at h
    cases h
    exact ⟨rfl, hoverruns⟩
  · rintro ⟨rfl, hsuccess, hcolumns, row, hrow, hlt⟩
    rw [printResult, hsuccess, if_neg (by decide), if_neg hcolumns, tableLines, columnWidths,
      widenAll_of_lt formatDouble hrow (by rwa [List.length_map])]
    rfl

end Widths

end Prompt

end MicroSql
