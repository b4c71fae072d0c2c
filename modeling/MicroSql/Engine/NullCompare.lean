import MicroSql.Engine.Delete
import MicroSql.Executor.Truth
import MicroSql.Storage.RowTypes
import MicroSql.Table.Arrives

/-!
# Comparing a column with a literal

SELECT, DELETE and UPDATE go by the same condition.  `ChoosesRows` says that all three go by a
predicate on the rows; this is so exactly if the condition has its value on every row.  A
comparison of a column with a literal is meant to choose the rows whose value there is not NULL and
compares with the literal (`chosen`).  Equality does, the other five operators only if there is no
NULL: `<>` chooses the NULLs, and the four that ask for the order fail.
-/

namespace MicroSql

open Lib

/-! ### Statements that go by a predicate -/

/-- UPDATE comes to the row `row` and fails there. -/
def FailsAt (pr : ParseResult) (w : Engine) (t : TableSchema) (row : Row)
    (e : Failure ExecError) : Prop :=
  ∃ cs k slot s,
    Arrives (updateSlot (pageArray w.fs.limit) serializeRow pr t.columns) (w.pages t) cs k slot s ∧
    readSlotRow s.1 slot t.columns = .ok row ∧
    (updateSlot (pageArray w.fs.limit) serializeRow pr t.columns k s slot cs).1 = .error e

/-- `SELECT *`, DELETE and UPDATE under the condition of a statement go by `p`.  `SELECT *` does not
fail, and DELETE only at a row too many for its `int`.  DELETE removes and UPDATE replaces the rows
for which `p` holds and no others, on the rows that they have passed; if UPDATE fails, it does so at
a row for which `p` holds. -/
structure ChoosesRows (pr : ParseResult) (w : Engine) (t : TableSchema) (p : Row → Bool) :
    Prop where
  select : (execSelect (selectWhere pr) w).1 =
    .ok { columns := t.columnNames, rows := (w.rows t).filter p }
  delete : ∃ done rest,
    w.rows t = done ++ rest ∧
    (execDelete pr w).2.rows t = (done.filter fun row => !p row) ++ rest ∧
    if (w.rows t).countP p < 2 ^ 31 then
      rest = [] ∧ (execDelete pr w).1 = .ok ((w.rows t).countP p)
    else (execDelete pr w).1 = .error (.fault .signedOverflow)
  update : pr.statement.kind = .update → EncodesWithin pr w → ∃ done done' rest,
    w.rows t = done ++ rest ∧ (execUpdate pr w).2.rows t = done' ++ rest ∧
    List.Forall₂ (fun row row' =>
      if p row then rowFromUpdate row pr.statement.assignments pr t.columnNames = .ok row'
      else row' = row) done done' ∧
    match (execUpdate pr w).1 with
    | .ok n => rest = [] ∧ n = done.countP p
    | .error e => ∃ row ∈ w.rows t, p row = true ∧ FailsAt pr w t row e

section Rows

variable {w : Engine} {pr : ParseResult} {t : TableSchema} {p : Row → Bool}

/-- UPDATE as a map over rows on which the condition has a value. -/
theorem forall₂_choose {done done' : List Row}
    (hp : ∀ row ∈ done, whereMatches pr row t.columnNames = .ok (p row))
    (hall : List.Forall₂ (UpdatesTo pr t.columnNames) done done') :
    List.Forall₂ (fun row row' =>
      if p row then rowFromUpdate row pr.statement.assignments pr t.columnNames = .ok row'
      else row' = row) done done' := by
  induction hall with
  | nil => exact .nil
  | @cons row row' done done' hto _ ih =>
    have hrow := hp row List.mem_cons_self
    refine .cons ?_ (ih fun r hr => hp r (List.mem_cons_of_mem _ hr))
    rcases hto with ⟨hmatch, rfl⟩ | ⟨hmatch, hupd⟩
    · rw [hmatch] at hrow
      rw [← Except.ok.inj hrow]
      rfl
    · rw [hmatch] at hrow
      rw [← Except.ok.inj hrow]
      exact hupd

/-- An UPDATE that fails does so at a row for which the condition holds. -/
theorem update_failsAt (h : Reachable EncodesWithin w)
    (hfind : w.catalog.findTable pr.statement.tableName = some t)
    (hp : ∀ row ∈ w.rows t, whereMatches pr row t.columnNames = .ok (p row))
    (hkind : pr.statement.kind = .update) (hwithin : EncodesWithin pr w) {e : Failure ExecError}
    (herr : (execUpdate pr w).1 = .error e) :
    ∃ row ∈ w.rows t, p row = true ∧ FailsAt pr w t row e := by
  obtain ⟨-, hpages, hgood⟩ := h.good.stores hfind
  have hread := updateSlot_readOnly w.fs.limit serializeRow pr t.columns
  have hread' := updateSlot_readOnly w.fs.limit serializeWithin pr t.columns
  have hrun : (updateRows (pageArray w.fs.limit) serializeRow pr t.columns (w.pages t)).1 =
      .error e := ((h.good.runs_update serializeRow pr).ran_of_find hfind).1.symm.trans herr
  obtain ⟨cs, k, slot, ⟨q, count⟩, ha, hfail⟩ :=
    (rewritePages_eq_error hread updateSlot_keepsPages hpages).1 hrun
  -- the checks of `serializeWithin` do not fail, so it comes to the same slot
  have hne := hwithin.execUpdate_ne hkind
  rw [((h.good.runs_update serializeWithin pr).ran_of_find hfind).1] at hne
  have ha' := ha.of_guards (updateSlot_guards _ pr t.columns) hread' updateSlot_keepsPages hpages
    hne
  obtain ⟨b, hw⟩ := ha'.walked hread' (updateSlot_actsOnRow fitsSlots_serializeWithin) hpages
    hgood.pages hgood.keys
  rcases hw.good.slot_cases hw.lt_numSlots with ⟨hd, -⟩ | ⟨hd, -, row, -, -, hrow, hreads⟩
  · rw [updateSlot_of_deleted hd] at hfail
    cases hfail
  · have hmem : row ∈ w.rows t := by
      rw [Engine.rows, liveRows_at_slot hw.page (hw.slot_eq.symm.trans hrow)]
      simp
    refine ⟨row, hmem, ?_, cs, k, slot, _, ha, hreads, hfail⟩
    by_contra hnot
    have hmatch : whereMatches pr row (t.columns.map (·.name)) = .ok false := by
      rw [← Bool.eq_false_of_not_eq_true hnot]
      exact hp row hmem
    rw [updateSlot] at hfail
    dsimp only at hfail
    rw [if_neg (by simp [hd]), hreads, Prog.lift_ok_bind_apply, hmatch,
      Prog.lift_ok_bind_apply] at hfail
    cases hfail

/-- What is selected when the condition has a value on every row. -/
theorem selectFrom_choose (hp : ∀ row ∈ w.rows t, whereMatches pr row t.columnNames = .ok (p row)) :
    selectFrom (whereMatches pr · t.columnNames) ((w.rows t).map .ok) =
      .ok ((w.rows t).filter p) := by
  have hfilter : ∀ row ∈ w.rows t,
      decide (whereMatches pr row t.columnNames = .ok true) = p row := by
    intro row hrow
    rw [hp row hrow]
    cases p row <;> rfl
  refine selectFrom_eq_ok.2 ⟨?_, ?_⟩
  · intro read hread
    obtain ⟨row, hrow, rfl⟩ := List.mem_map.1 hread
    exact ⟨row, p row, rfl, hp row hrow⟩
  · rw [oks_map_ok]
    exact (List.filter_congr hfilter).symm

/-- DELETE when the condition has a value on every row. -/
theorem delete_choosesRows (h : Reachable EncodesWithin w)
    (hfind : w.catalog.findTable pr.statement.tableName = some t)
    (hp : ∀ row ∈ w.rows t, whereMatches pr row t.columnNames = .ok (p row)) :
    ∃ done rest,
      w.rows t = done ++ rest ∧
      (execDelete pr w).2.rows t = (done.filter fun row => !p row) ++ rest ∧
      if (w.rows t).countP p < 2 ^ 31 then
        rest = [] ∧ (execDelete pr w).1 = .ok ((w.rows t).countP p)
      else (execDelete pr w).1 = .error (.fault .signedOverflow) := by
  have hdelete : (execDelete pr w).1 = if (w.rows t).countP p < 2 ^ 31 then
      .ok ((w.rows t).countP p) else .error (.fault .signedOverflow) := by
    rw [h.good.delete_eq hfind, countFrom_of_selectFrom_ok (Nat.two_pow_pos 31)
      (selectFrom_choose hp), ← List.countP_eq_length_filter, Nat.zero_add]
  have hnot : ∀ row ∈ w.rows t,
      decide (whereMatches pr row t.columnNames ≠ .ok true) = !p row := by
    intro row hrow
    rw [hp row hrow]
    cases p row <;> rfl
  by_cases hlt : (w.rows t).countP p < 2 ^ 31
  · rw [if_pos hlt] at hdelete
    refine ⟨w.rows t, [], (List.append_nil _).symm, ?_, ?_⟩
    · rw [(delete_rows h hfind hdelete).2, List.append_nil]
      exact List.filter_congr hnot
    · rw [if_pos hlt]
      exact ⟨rfl, hdelete⟩
  · rw [if_neg hlt] at hdelete
    obtain ⟨done, rest, hrows, hleft⟩ := delete_stops h hfind hdelete
    refine ⟨done, rest, hrows, ?_, ?_⟩
    · rw [hleft, List.filter_congr fun row hrow => hnot row ?_]
      rw [hrows]
      exact List.mem_append_left _ hrow
    · rw [if_neg hlt]
      exact hdelete

/-- UPDATE when the condition has a value on every row. -/
theorem update_choosesRows (h : Reachable EncodesWithin w)
    (hfind : w.catalog.findTable pr.statement.tableName = some t)
    (hp : ∀ row ∈ w.rows t, whereMatches pr row t.columnNames = .ok (p row))
    (hkind : pr.statement.kind = .update) (hwithin : EncodesWithin pr w) :
    ∃ done done' rest,
      w.rows t = done ++ rest ∧ (execUpdate pr w).2.rows t = done' ++ rest ∧
      List.Forall₂ (fun row row' =>
        if p row then rowFromUpdate row pr.statement.assignments pr t.columnNames = .ok row'
        else row' = row) done done' ∧
      match (execUpdate pr w).1 with
      | .ok n => rest = [] ∧ n = done.countP p
      | .error e => ∃ row ∈ w.rows t, p row = true ∧ FailsAt pr w t row e := by
  rcases hrun : (execUpdate pr w).1 with e | n
  · obtain ⟨-, hpages, hgood⟩ := h.good.stores hfind
    obtain ⟨hr, hc⟩ := (h.good.runs_update serializeWithin pr).ran_of_find hfind
    rw [← hwithin.execUpdate_eq hkind] at hr hc
    have hrule : Prog.Spec _ (updateRows (pageArray w.fs.limit) serializeWithin pr t.columns) _ _ :=
      updateRows_rows fitsSlots_serializeWithin hpages hgood.pages hgood.keys
    obtain ⟨k, n, -, -, hdone⟩ := hrule.error rfl (Prod.ext (hr.symm.trans hrun) rfl)
    have hfails := update_failsAt h hfind hp hkind hwithin hrun
    refine ⟨liveRows t.columns ((w.pages t).take k), _, liveRows t.columns ((w.pages t).drop k),
      ?_, ?_, forall₂_choose ?_ hdone.done.updatesTo.1, hfails⟩
    · rw [← liveRows_append, List.take_append_drop, Engine.rows]
    · rw [← hdone.rest, ← liveRows_append, List.take_append_drop, Engine.rows, hc.pages_eq]
    · intro row hrow
      refine hp row ?_
      rw [Engine.rows, ← List.take_append_drop k (w.pages t), liveRows_append]
      exact List.mem_append_left _ hrow
  · obtain ⟨-, hall, hcount, -⟩ := update_rows h hkind hfind hwithin hrun
    refine ⟨w.rows t, _, [], (List.append_nil _).symm, (List.append_nil _).symm,
      forall₂_choose hp hall, rfl, ?_⟩
    rw [hcount]
    refine List.countP_congr fun row hrow => ?_
    rw [hp row hrow]
    simp

/-- **The three statements go by a predicate exactly if the condition has its value on every
row.** -/
theorem choosesRows_iff (h : Reachable EncodesWithin w)
    (hfind : w.catalog.findTable pr.statement.tableName = some t) :
    ChoosesRows pr w t p ↔
      ∀ row ∈ w.rows t, whereMatches pr row t.columnNames = .ok (p row) := by
  constructor
  · intro hchoose row hrow
    have hselect := hchoose.select
    rw [h.good.selectWhere hfind] at hselect
    obtain ⟨found, hfound, heq⟩ := bind_eq_ok.1 hselect
    obtain ⟨hall, hrows⟩ := selectFrom_eq_ok.1 hfound
    obtain ⟨_, m, hread, hm⟩ := hall _ (List.mem_map_of_mem hrow)
    cases hread
    have hsame : found = (w.rows t).filter p := congrArg Result.rows (Except.ok.inj heq)
    rw [hrows, oks_map_ok] at hsame
    -- the row is in both lists or in neither
    have hiff : decide (whereMatches pr row t.columnNames = .ok true) = true ↔ p row = true := by
      have hmem := iff_of_eq (congrArg (row ∈ ·) hsame)
      simpa only [List.mem_filter, hrow, true_and] using hmem
    have hm' : whereMatches pr row t.columnNames = .ok m := hm
    rw [hm'] at hiff ⊢
    refine congrArg Except.ok (Bool.eq_iff_iff.2 (Iff.trans ?_ hiff))
    simp
  · intro hp
    refine ⟨?_, delete_choosesRows h hfind hp, update_choosesRows h hfind hp⟩
    rw [h.good.selectWhere hfind, selectFrom_choose hp]
    rfl

end Rows

/-! ### Comparing a column with a literal -/

/-- A literal for an INTEGER, with or without a sign, or for a TEXT, and its value. -/
inductive IsLiteral : Tree → Value → Prop
  | int (n : Int64) : IsLiteral (.leaf (.literalInt n)) (.int n)
  | negative {n m : Int64} (h : flipSignValue (.int n) = .ok (.int m)) :
      IsLiteral (.unary .negate (.leaf (.literalInt n))) (.int m)
  | text (s : Str) : IsLiteral (.leaf (.literalText s)) (.text s)

/-- The value in column `k` is not NULL and compares with `v` as `op` says: in the order of the
integers, or byte by byte. -/
def chosen (op : BinaryOperator) (k : ℕ) (v : Value) (row : Row) : Bool :=
  decide (row[k]?.bind (compares op · v) = some true)

section Compare

variable {pr : ParseResult} {op : BinaryOperator} {name : Str} {lit : Tree} {u v : Value} {k : ℕ}
  {c : ColumnDefinition} {row : Row} {columns : List Str}

theorem IsLiteral.evalExpr (h : IsLiteral lit v) : lit.evalExpr row columns = .ok v := by
  cases h with
  | int n => rfl
  | negative h => exact h
  | text s => rfl

/-- The condition compares the value of the column with that of the literal. -/
theorem whereMatches_comparison (hop : op.isComparison = true)
    (hwhere : pr.Refers pr.statement.whereIndex (.binary op (.leaf (.columnRef [] name)) lit))
    (hlit : IsLiteral lit v) (hk : columns.idxOf? name = some k) (hu : row[k]? = some u) :
    whereMatches pr row columns = compareWhere op u v := by
  have hleft : (Tree.leaf (.columnRef [] name)).evalExpr row columns = .ok u := by
    rw [Tree.evalExpr, evalLeaf, if_pos rfl, columnValue, hk]
    dsimp only
    rw [hu]
  obtain ⟨expr, hnode, htree⟩ := hwhere
  have hindex := hnode.1
  rw [whereMatches, if_neg (by omega), hnode.expression, ok_bind, htree.evalWhere]
  cases op <;> cases hop <;> simp only [Tree.evalWhere, hleft, hlit.evalExpr, ok_bind]

/-- The operators choose what they should, but for a NULL: only `=` takes it to be different. -/
theorem compareWhere_eq_iff (hop : op.isComparison = true) (hlit : IsLiteral lit v)
    (hu : u.Typed c) (hv : v.Typed c) :
    compareWhere op u v = .ok (decide (compares op u v = some true)) ↔
      op = .equal ∨ u ≠ .null := by
  by_cases hnull : u = .null
  · subst hnull
    have hnone : compares op .null v = none := by
      cases hlit <;> cases op <;> cases hop <;> rfl
    rw [hnone]
    simp only [reduceCtorEq, decide_false, ne_eq, not_true_eq_false, or_false]
    constructor
    · intro hrun
      cases hlit <;> cases op <;> cases hop <;> first | rfl | cases hrun
    · rintro rfl
      cases hlit <;> rfl
  · refine iff_of_true ?_ (.inr hnull)
    obtain ⟨b, hb, hbool, hnan⟩ : ∃ b, compares op u v = some b ∧ u.isBool = false ∧
        exceedsNaN op u v = false := by
      cases hlit <;> cases u <;>
        first
        | exact absurd rfl hnull
        | (cases op <;> cases hop <;> exact ⟨_, rfl, rfl, rfl⟩)
        | (have htype := hu.symm.trans hv; cases htype)
    rw [compareWhere_of_compares hb, if_neg (by simp [hbool]), hnan, hb]
    cases b <;> rfl

end Compare

/-- A live row has in each column NULL or a value of its type. -/
theorem Engine.exists_typed_of_rows {w : Engine} (h : Reachable EncodesWithin w) {tableName : Str}
    {t : TableSchema} (hfind : w.catalog.findTable tableName = some t) {row : Row}
    (hrow : row ∈ w.rows t) {k : ℕ} {c : ColumnDefinition} (hc : t.columns[k]? = some c) :
    ∃ u, row[k]? = some u ∧ u.Typed c := by
  obtain ⟨-, -, hgood⟩ := h.good.stores hfind
  obtain ⟨bytes, henc⟩ := hgood.pages.encodes hrow
  have hlt : k < row.length := by
    rw [henc.length_eq]
    exact (List.getElem?_eq_some_iff.1 hc).1
  have hu : row[k]? = some row[k] := List.getElem?_eq_getElem hlt
  exact ⟨row[k], hu, (forall₂_getElem? henc.suits hu hc).typed⟩

/-- **A comparison chooses rows by their values exactly if no NULL is there, or it is `=`.** -/
theorem comparison_chooses_iff {w : Engine} (h : Reachable EncodesWithin w) {pr : ParseResult}
    {t : TableSchema} (hfind : w.catalog.findTable pr.statement.tableName = some t)
    {op : BinaryOperator} (hop : op.isComparison = true) {name : Str} {lit : Tree}
    (hwhere : pr.Refers pr.statement.whereIndex (.binary op (.leaf (.columnRef [] name)) lit))
    {v : Value} (hlit : IsLiteral lit v) {k : ℕ} (hk : t.columnNames.idxOf? name = some k)
    {c : ColumnDefinition} (hc : t.columns[k]? = some c) (hv : v.Typed c) :
    ChoosesRows pr w t (chosen op k v) ↔
      op = .equal ∨ ∀ row ∈ w.rows t, row[k]? ≠ some .null := by
  have hrow : ∀ row ∈ w.rows t, whereMatches pr row t.columnNames = .ok (chosen op k v row) ↔
      op = .equal ∨ row[k]? ≠ some .null := by
    intro row hrow
    obtain ⟨u, hu, htyped⟩ := Engine.exists_typed_of_rows h hfind hrow hc
    rw [whereMatches_comparison hop hwhere hlit hk hu, chosen, hu]
    simpa using compareWhere_eq_iff hop hlit htyped hv
  rw [choosesRows_iff h hfind]
  constructor
  · intro hall
    by_cases heq : op = .equal
    · exact .inl heq
    · refine .inr fun row hmem => ?_
      exact ((hrow row hmem).1 (hall row hmem)).resolve_left heq
  · rintro hcond row hmem
    exact (hrow row hmem).2 (hcond.imp id fun hall => hall row hmem)

/-- `SELECT * FROM t WHERE b > 25` -/
def selectAbove : ParseResult where
  expressions := [.columnRef [] (str "b"), .literalInt 25, .binary .greaterThan 0 1]
  statement := { kind := .select, tableName := str "t", whereIndex := 2 }

theorem selectAbove_refers : selectAbove.Refers selectAbove.statement.whereIndex
    (.binary .greaterThan (.leaf (.columnRef [] (str "b"))) (.leaf (.literalInt 25))) :=
  ⟨_, ⟨by decide, rfl⟩, .binary ⟨by decide, rfl⟩ ⟨by decide, rfl⟩ (.leaf rfl) (.leaf rfl)⟩

theorem comparison_chooses_iff_sample :
    ChoosesRows selectAbove sampleOne sampleTable (chosen .greaterThan 1 (.int 25)) ↔
      BinaryOperator.greaterThan = .equal ∨
        ∀ row ∈ sampleOne.rows sampleTable, row[1]? ≠ some .null := by
  have hfind : sampleOne.catalog.findTable selectAbove.statement.tableName = some sampleTable :=
    sampleOne_oneRow.find
  exact comparison_chooses_iff sampleOne_oneRow.reachable hfind rfl selectAbove_refers (.int 25)
    (by decide) rfl rfl

/-- `INSERT INTO t VALUES (1, NULL)` -/
def insertNullB : ParseResult := insertInto (str "t") [.literalInt 1, .literalNull []]

theorem insertNullB_oneRow : OneRow ((newEngine sampleTable).after insertNullB) sampleTable
    [.int 1, .null] [0, 1, 0, 0, 0, 0, 0, 0, 0, 1] :=
  oneRow (by decide) rfl rfl rfl (by decide) (by decide) (by decide)

/-- A row with NULL in the column makes the whole SELECT fail. -/
theorem null_breaks_comparison :
    ¬∀ w pr t op name lit v k c, Reachable anyStatement w →
      w.catalog.findTable pr.statement.tableName = some t →
      BinaryOperator.isComparison op = true →
      pr.Refers pr.statement.whereIndex (.binary op (.leaf (.columnRef [] name)) lit) →
      IsLiteral lit v → t.columnNames.idxOf? name = some k → t.columns[k]? = some c →
      v.Typed c → ChoosesRows pr w t (chosen op k v) := by
  intro hall
  have hone := insertNullB_oneRow
  have hfind : ((newEngine sampleTable).after insertNullB).catalog.findTable
      selectAbove.statement.tableName = some sampleTable := hone.find
  have hchoose := hall _ selectAbove sampleTable .greaterThan (str "b") _ (.int 25) 1 _
    (hone.reachable.mono fun _ _ _ => trivial) hfind rfl selectAbove_refers (.int 25) (by decide)
    rfl rfl
  have hrow := (choosesRows_iff hone.reachable hfind).1 hchoose [.int 1, .null]
    (by simp [hone.rows_eq])
  have hfails : whereMatches selectAbove [.int 1, .null] sampleTable.columnNames =
      .error (.error .typeMismatch) := by decide
  rw [hfails] at hrow
  cases hrow

end MicroSql
