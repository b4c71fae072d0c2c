import MicroSql.Relational.Faults

/-!
# Conditions and the commands that use them

SELECT and DELETE go by the rows that a condition chooses, and both come to every row: each
evaluates the condition on all of them or fails.  AND and OR evaluate both operands, so a compound
condition has a value on all rows exactly if both operands have.  Then SELECT counts by inclusion
and exclusion, and deleting with OR is deleting twice.
-/

namespace MicroSql

open Lib Engine

/-! ### Conditions on rows -/

/-- The condition has a value on every row. -/
def Decides (condition : Option Tree) (names : List Str) (rows : List Row) : Prop :=
  ∀ row ∈ rows, ∃ m, holds condition names row = .ok m

/-- The rows that a condition does not choose. -/
def Relation.otherRows (r : Relation) (condition : Option Tree) : List Row :=
  r.rows.filter fun row => !picked condition r.names row

theorem picked_of_holds {condition : Option Tree} {names : List Str} {row : Row} {m : Bool}
    (h : holds condition names row = .ok m) : picked condition names row = m := by
  rw [picked, h]
  cases m <;> rfl

section Operands

variable {p q : Tree} {names : List Str} {row : Row} {rows : List Row}

theorem holds_and : holds (some (.binary .and p q)) names row = (do
    let a ← holds (some p) names row
    let b ← holds (some q) names row
    return a && b) := rfl

theorem holds_or : holds (some (.binary .or p q)) names row = (do
    let a ← holds (some p) names row
    let b ← holds (some q) names row
    return a || b) := rfl

/-- AND has a value exactly if both operands have one, and then it is their conjunction. -/
theorem holds_and_eq_ok {m : Bool} : holds (some (.binary .and p q)) names row = .ok m ↔
    ∃ a b, holds (some p) names row = .ok a ∧ holds (some q) names row = .ok b ∧ (a && b) = m := by
  rw [holds_and]
  simp only [bind_eq_ok, pure_eq_ok, Except.ok.injEq, exists_and_left]

theorem holds_or_eq_ok {m : Bool} : holds (some (.binary .or p q)) names row = .ok m ↔
    ∃ a b, holds (some p) names row = .ok a ∧ holds (some q) names row = .ok b ∧ (a || b) = m := by
  rw [holds_or]
  simp only [bind_eq_ok, pure_eq_ok, Except.ok.injEq, exists_and_left]

theorem decides_and : Decides (some (.binary .and p q)) names rows ↔
    Decides (some p) names rows ∧ Decides (some q) names rows := by
  constructor
  · intro h
    constructor <;> intro row hrow <;> obtain ⟨m, hm⟩ := h row hrow <;>
      obtain ⟨a, b, ha, hb, -⟩ := holds_and_eq_ok.1 hm
    · exact ⟨a, ha⟩
    · exact ⟨b, hb⟩
  · rintro ⟨hp, hq⟩ row hrow
    obtain ⟨a, ha⟩ := hp row hrow
    obtain ⟨b, hb⟩ := hq row hrow
    exact ⟨a && b, holds_and_eq_ok.2 ⟨a, b, ha, hb, rfl⟩⟩

theorem decides_or : Decides (some (.binary .or p q)) names rows ↔
    Decides (some p) names rows ∧ Decides (some q) names rows := by
  constructor
  · intro h
    constructor <;> intro row hrow <;> obtain ⟨m, hm⟩ := h row hrow <;>
      obtain ⟨a, b, ha, hb, -⟩ := holds_or_eq_ok.1 hm
    · exact ⟨a, ha⟩
    · exact ⟨b, hb⟩
  · rintro ⟨hp, hq⟩ row hrow
    obtain ⟨a, ha⟩ := hp row hrow
    obtain ⟨b, hb⟩ := hq row hrow
    exact ⟨a || b, holds_or_eq_ok.2 ⟨a, b, ha, hb, rfl⟩⟩

section

variable (hp : Decides (some p) names rows) (hq : Decides (some q) names rows) (hrow : row ∈ rows)

include hp hq hrow

theorem picked_and : picked (some (.binary .and p q)) names row =
    (picked (some p) names row && picked (some q) names row) := by
  obtain ⟨a, ha⟩ := hp row hrow
  obtain ⟨b, hb⟩ := hq row hrow
  rw [picked_of_holds ha, picked_of_holds hb]
  exact picked_of_holds (holds_and_eq_ok.2 ⟨a, b, ha, hb, rfl⟩)

theorem picked_or : picked (some (.binary .or p q)) names row =
    (picked (some p) names row || picked (some q) names row) := by
  obtain ⟨a, ha⟩ := hp row hrow
  obtain ⟨b, hb⟩ := hq row hrow
  rw [picked_of_holds ha, picked_of_holds hb]
  exact picked_of_holds (holds_or_eq_ok.2 ⟨a, b, ha, hb, rfl⟩)

end

/-- Inclusion and exclusion. -/
theorem length_filter_and_or (f g : Row → Bool) (rows : List Row) :
    (rows.filter fun row => f row && g row).length +
        (rows.filter fun row => f row || g row).length =
      (rows.filter f).length + (rows.filter g).length := by
  induction rows with
  | nil => rfl
  | cons row rows ih =>
    simp only [List.filter_cons]
    cases f row <;> cases g row <;> simp <;> omega

/-- The rows of the first kind, and those of the second among the others. -/
theorem length_filter_or_add (f g : Row → Bool) (rows : List Row) :
    (rows.filter fun row => f row || g row).length =
      (rows.filter f).length + (rows.filter fun row => g row && !f row).length := by
  induction rows with
  | nil => rfl
  | cons row rows ih =>
    simp only [List.filter_cons]
    cases f row <;> cases g row <;> simp <;> omega

end Operands

/-! ### SELECT and DELETE -/

section Relation

variable {r : Relation} {columns : List Str} {condition : Option Tree}

/-- SELECT succeeds if the condition has a value on every row, and returns those that it
chooses. -/
theorem Relation.select_eq_ok {result : Result} : r.select columns condition = .ok result ↔
    Decides condition (resultNames columns r.names) r.rows ∧
      result = { columns := resultNames columns r.names
                 rows := r.rows.filter (picked condition (resultNames columns r.names))
                 message := countRows (rowCount
                  (r.rows.filter (picked condition (resultNames columns r.names)))) } := by
  have hdecided : Decided (holds condition (resultNames columns r.names)) (r.rows.map .ok) ↔
      Decides condition (resultNames columns r.names) r.rows := by
    constructor
    · intro h row hrow
      obtain ⟨row', m, heq, hm⟩ := h (.ok row) (List.mem_map_of_mem hrow)
      cases heq
      exact ⟨m, hm⟩
    · intro h read hread
      obtain ⟨row, hrow, rfl⟩ := List.mem_map.1 hread
      obtain ⟨m, hm⟩ := h row hrow
      exact ⟨row, m, rfl, hm⟩
  rw [Relation.select, bind_eq_ok]
  simp only [selectFrom_eq_ok, hdecided, oks_map_ok, pure_eq_ok, Except.ok.injEq]
  constructor
  · rintro ⟨rows, ⟨h, rfl⟩, rfl⟩
    exact ⟨h, rfl⟩
  · rintro ⟨h, rfl⟩
    exact ⟨_, ⟨h, rfl⟩, rfl⟩

/-- The rows that DELETE has visited. -/
theorem swept_deleteVisit {schema : Schema} {old rest new : List Row} {n : ℕ}
    (h : Swept (deleteVisit condition schema) old rest n new) :
    Decides condition (schema.map (·.name)) old ∧
      new = old.filter (fun row => !picked condition (schema.map (·.name)) row) ∧
      n = (old.filter (picked condition (schema.map (·.name)))).length := by
  induction h with
  | nil => exact ⟨fun _ hrow => (List.not_mem_nil hrow).elim, rfl, rfl⟩
  | @snoc old rest new n row c o _ hvisit ih =>
    obtain ⟨hold, rfl, rfl⟩ := ih
    rw [deleteVisit] at hvisit
    rcases hmatch : holds condition (schema.map (·.name)) row with e | m
    · rw [hmatch] at hvisit
      cases hvisit
    rw [hmatch] at hvisit
    cases hvisit
    have hpicked := picked_of_holds hmatch
    refine ⟨?_, ?_, ?_⟩
    · intro row' hrow'
      rcases List.mem_append.1 hrow' with hrow' | hrow'
      · exact hold row' hrow'
      · rw [List.mem_singleton.1 hrow']
        exact ⟨c, hmatch⟩
    · rw [List.filter_append, List.filter_singleton, hpicked]
      cases c <;> rfl
    · rw [List.filter_append, List.length_append, List.filter_singleton, hpicked]
      cases c <;> rfl

/-- If the condition has a value on every row, DELETE visits them all, up to the end of the
`int`. -/
theorem deleteSweeps_cases {schema : Schema} {rows new : List Row}
    {out : Except (Failure ExecError) ℕ}
    (h : Sweeps (deleteVisit condition schema) sweepLimits rows out new)
    (hdecides : Decides condition (schema.map (·.name)) rows) :
    ((rows.filter (picked condition (schema.map (·.name)))).length < 2 ^ 31 ∧
      out = .ok (rows.filter (picked condition (schema.map (·.name)))).length ∧
      new = rows.filter fun row => !picked condition (schema.map (·.name)) row) ∨
    (2 ^ 31 ≤ (rows.filter (picked condition (schema.map (·.name)))).length ∧
      out = .error (.fault .signedOverflow)) := by
  cases h with
  | done hswept hn =>
    obtain ⟨-, hnew, rfl⟩ := swept_deleteVisit hswept
    exact .inl ⟨Nat.lt_of_le_sub_one (Nat.two_pow_pos 31) hn, rfl, hnew⟩
  | @stopped old rest new _ _ row n _ e hrows hold _ hstop _ =>
    -- the visit of a row on which the condition has a value does not fail
    obtain ⟨m, hm⟩ := hdecides row (by simp [hrows])
    have hvisit : deleteVisit condition schema new row rest =
        .ok (m, if m then none else some row) := by
      rw [deleteVisit, hm]
      rfl
    cases hstop with
    | fails hfail =>
      rw [hvisit] at hfail
      cases hfail
    | full hfull =>
      rw [hvisit] at hfull
      cases m <;> cases hfull
    | tooMany hover hmost =>
      rw [hvisit] at hover
      cases hover
      obtain ⟨-, -, hn⟩ := swept_deleteVisit hold
      have hmany : n = 2 ^ 31 - 1 := hmost
      refine .inr ⟨?_, rfl⟩
      rw [hrows, List.filter_append, List.filter_cons_of_pos (picked_of_holds hm),
        List.length_append, List.length_cons, ← hn]
      omega

/-- A DELETE that succeeds has found a value on every row. -/
theorem decides_of_deleteSweeps {schema : Schema} {rows new : List Row} {n : ℕ}
    (h : Sweeps (deleteVisit condition schema) sweepLimits rows (.ok n) new) :
    Decides condition (schema.map (·.name)) rows := by
  cases h with
  | done hswept => exact (swept_deleteVisit hswept).1

end Relation

/-! ### On the engine -/

section Engine

variable {w : Engine} {pr : ParseResult} {table : Str} {condition : Option Tree} {r : Relation}

/-- Statements other than INSERT and UPDATE encode no rows. -/
theorem Reachable.step_of_kind (h : Reachable EncodesWithin w) {command : Command}
    (hc : Denotes pr command)
    (hkind : ¬(pr.statement.kind = .insert ∨ pr.statement.kind = .update)) :
    Reachable EncodesWithin (w.after pr) ∧
      Database.Step w.database command (MicroSql.execute pr w).1 (w.after pr).database := by
  have hwithin := h.encodesWithin hc fun hkind' => absurd hkind' hkind
  exact ⟨h.execute pr hwithin,
    h.good.execute_answers (fun _ hfind => h.good.withinOn hwithin hfind) hc⟩

/-- SELECT with a condition returns the rows that it chooses, if it has a value on all. -/
theorem Reachable.select_answers (h : Reachable EncodesWithin w) {columns : List Str}
    (hc : Denotes pr (.select table columns condition)) (hr : w.database table = some r) :
    (MicroSql.execute pr w).1 = resultOf (r.select columns condition) := by
  have hkind : pr.statement.kind = .select := by
    cases hc
    assumption
  obtain ⟨-, hstep⟩ := h.step_of_kind hc (by rw [hkind]; simp)
  generalize (w.after pr).database = db at hstep
  generalize (MicroSql.execute pr w).1 = out at hstep ⊢
  obtain ⟨hanswers⟩ := hstep
  rw [show (Command.select table columns condition).table = table from rfl, hr] at hanswers
  cases hanswers
  rfl

/-- How a DELETE with a condition that has a value on all rows ends. -/
theorem Reachable.delete_cases (h : Reachable EncodesWithin w)
    (hc : Denotes pr (.delete table condition)) (hr : w.database table = some r)
    (hdecides : Decides condition r.names r.rows) :
    ((r.pickedRows condition).length < 2 ^ 31 ∧
      (MicroSql.execute pr w).1 =
        .ok { message := countRows (r.pickedRows condition).length ++ str " deleted" } ∧
      (w.after pr).database =
        Function.update w.database table (some (r.withRows (r.otherRows condition)))) ∨
    (2 ^ 31 ≤ (r.pickedRows condition).length ∧
      (MicroSql.execute pr w).1 = .error .signedOverflow) := by
  have hkind : pr.statement.kind = .delete := by
    cases hc
    assumption
  obtain ⟨-, hstep⟩ := h.step_of_kind hc (by rw [hkind]; simp)
  generalize (w.after pr).database = db at hstep ⊢
  generalize (MicroSql.execute pr w).1 = out at hstep ⊢
  obtain ⟨hanswers⟩ := hstep
  rw [show (Command.delete table condition).table = table from rfl, hr] at hanswers
  cases hanswers with
  | delete hsweeps =>
    rcases deleteSweeps_cases hsweeps hdecides with ⟨hlt, rfl, rfl⟩ | ⟨hle, rfl⟩
    · exact .inl ⟨hlt, rfl, rfl⟩
    · exact .inr ⟨hle, rfl⟩

/-- DELETE with a condition that has a value on all rows removes those that it chooses, if it can
count them. -/
theorem Reachable.delete_answers (h : Reachable EncodesWithin w)
    (hc : Denotes pr (.delete table condition)) (hr : w.database table = some r)
    (hdecides : Decides condition r.names r.rows)
    (hcount : (r.pickedRows condition).length < 2 ^ 31) :
    (MicroSql.execute pr w).1 =
        .ok { message := countRows (r.pickedRows condition).length ++ str " deleted" } ∧
      (w.after pr).database =
        Function.update w.database table (some (r.withRows (r.otherRows condition))) := by
  rcases h.delete_cases hc hr hdecides with ⟨-, hanswer⟩ | ⟨hle, -⟩
  · exact hanswer
  · exact absurd hcount (Nat.not_lt.2 hle)

/-- The statement returned a result that says so. -/
def Succeeds (out : Except Fault Result) : Prop :=
  ∃ result, out = .ok result ∧ result.success = true

theorem succeeds_resultOf {answer : Except (Failure ExecError) Result} :
    Succeeds (resultOf answer) ↔ ∃ result, answer = .ok result ∧ result.success = true := by
  rcases answer with (e | f) | result
  · constructor
    · rintro ⟨result, hok, hsuccess⟩
      cases hok
      cases hsuccess
    · rintro ⟨_, ⟨⟩, -⟩
  · constructor <;> rintro ⟨_, ⟨⟩, -⟩
  · constructor
    · rintro ⟨result', hok, hsuccess⟩
      exact ⟨result', congrArg Except.ok (Except.ok.inj hok), hsuccess⟩
    · rintro ⟨result', hok, hsuccess⟩
      exact ⟨result', congrArg Except.ok (Except.ok.inj hok), hsuccess⟩

/-- When a SELECT with a condition succeeds, and what it returns. -/
theorem Reachable.select_succeeds (h : Reachable EncodesWithin w) {columns : List Str}
    (hc : Denotes pr (.select table columns condition)) (hr : w.database table = some r) :
    (Succeeds (MicroSql.execute pr w).1 ↔
      Decides condition (resultNames columns r.names) r.rows) ∧
      ∀ result, (MicroSql.execute pr w).1 = .ok result → result.success = true →
        result.rows = r.rows.filter (picked condition (resultNames columns r.names)) := by
  have hselect : ∀ result, r.select columns condition = .ok result ↔
      Decides condition (resultNames columns r.names) r.rows ∧ result = _ :=
    fun result => Relation.select_eq_ok
  rw [h.select_answers hc hr, succeeds_resultOf]
  constructor
  · constructor
    · rintro ⟨result, hok, -⟩
      exact ((hselect result).1 hok).1
    · intro hdecides
      exact ⟨_, (hselect _).2 ⟨hdecides, rfl⟩, rfl⟩
  · intro result hok hsuccess
    rcases hrun : r.select columns condition with (e | f) | result' <;> rw [hrun] at hok
    · cases hok
      cases hsuccess
    · cases hok
    · cases hok
      rw [((hselect result).1 hrun).2]

/-- When a DELETE succeeds. -/
theorem Reachable.delete_succeeds (h : Reachable EncodesWithin w)
    (hc : Denotes pr (.delete table condition)) (hr : w.database table = some r) :
    Succeeds (MicroSql.execute pr w).1 ↔
      Decides condition r.names r.rows ∧ (r.pickedRows condition).length < 2 ^ 31 := by
  constructor
  · intro hsuccess
    have hdecides : Decides condition r.names r.rows := by
      have hkind : pr.statement.kind = .delete := by
        cases hc
        assumption
      obtain ⟨-, hstep⟩ := h.step_of_kind hc (by rw [hkind]; simp)
      generalize (w.after pr).database = db at hstep
      generalize (MicroSql.execute pr w).1 = out at hstep hsuccess
      obtain ⟨hanswers⟩ := hstep
      rw [show (Command.delete table condition).table = table from rfl, hr] at hanswers
      cases hanswers with
      | @delete _ _ _ out _ hsweeps =>
        rw [succeeds_resultOf] at hsuccess
        obtain ⟨result, hok, -⟩ := hsuccess
        rcases out with e | n
        · cases hok
        · exact decides_of_deleteSweeps hsweeps
    rcases h.delete_cases hc hr hdecides with ⟨hlt, -⟩ | ⟨-, hfault⟩
    · exact ⟨hdecides, hlt⟩
    · obtain ⟨result, hok, -⟩ := hsuccess
      rw [hfault] at hok
      cases hok
  · rintro ⟨hdecides, hlt⟩
    rw [(h.delete_answers hc hr hdecides hlt).1]
    exact ⟨_, rfl, rfl⟩

end Engine

/-! ### A sample -/

/-- A statement on the sample table with a condition of this arena: `a = 1` and `b = 20`, and what
AND and OR make of them. -/
def sampleWhere (kind : StatementKind) (whereIndex : ℤ) : ParseResult where
  expressions := [.columnRef [] (str "a"), .literalInt 1, .binary .equal 0 1,
    .columnRef [] (str "b"), .literalInt 20, .binary .equal 3 4, .binary .and 2 5, .binary .or 2 5]
  statement := { kind := kind, tableName := str "t", whereIndex := whereIndex }

/-- `a = 1` -/
def sampleLeft : Tree := .binary .equal (.leaf (.columnRef [] (str "a"))) (.leaf (.literalInt 1))

/-- `b = 20` -/
def sampleRight : Tree := .binary .equal (.leaf (.columnRef [] (str "b"))) (.leaf (.literalInt 20))

theorem sampleWhere_hasNode {kind : StatementKind} {whereIndex : ℤ} (i : ℕ) {expr : Expression}
    (h : (sampleWhere kind whereIndex).expressions[i]? = some expr) :
    (sampleWhere kind whereIndex).HasNode i expr := ⟨Int.natCast_nonneg i, h⟩

theorem sampleWhere_left (kind : StatementKind) (whereIndex : ℤ) :
    (sampleWhere kind whereIndex).Refers 2 sampleLeft :=
  ⟨_, sampleWhere_hasNode 2 rfl, .binary (sampleWhere_hasNode 0 rfl) (sampleWhere_hasNode 1 rfl)
    (.leaf rfl) (.leaf rfl)⟩

theorem sampleWhere_right (kind : StatementKind) (whereIndex : ℤ) :
    (sampleWhere kind whereIndex).Refers 5 sampleRight :=
  ⟨_, sampleWhere_hasNode 5 rfl, .binary (sampleWhere_hasNode 3 rfl) (sampleWhere_hasNode 4 rfl)
    (.leaf rfl) (.leaf rfl)⟩

theorem sampleWhere_both (kind : StatementKind) (whereIndex : ℤ) :
    (sampleWhere kind whereIndex).Refers 6 (.binary .and sampleLeft sampleRight) := by
  obtain ⟨l, hl, htl⟩ := sampleWhere_left kind whereIndex
  obtain ⟨r, hr, htr⟩ := sampleWhere_right kind whereIndex
  exact ⟨_, sampleWhere_hasNode 6 rfl, .binary hl hr htl htr⟩

theorem sampleWhere_either (kind : StatementKind) (whereIndex : ℤ) :
    (sampleWhere kind whereIndex).Refers 7 (.binary .or sampleLeft sampleRight) := by
  obtain ⟨l, hl, htl⟩ := sampleWhere_left kind whereIndex
  obtain ⟨r, hr, htr⟩ := sampleWhere_right kind whereIndex
  exact ⟨_, sampleWhere_hasNode 7 rfl, .binary hl hr htl htr⟩

theorem sampleTwo_database : sampleTwo.database (str "t") =
    some ⟨sampleTable.columns, [[.int 1, .int 10], [.int 2, .int 20]]⟩ := by
  have hrows : liveRows sampleTable.columns (sampleTwo.pages sampleTable) = _ := sampleTwo_rows
  rw [Engine.database, tableAt_some sampleTwo_find, Option.map_some, StoredTable.relation, hrows]

/-! ### How commands compose -/

/-- **AND and OR in a SELECT.**  On every table that a run reaches, and for every list of columns
or `*`, a SELECT with `p AND q` succeeds exactly if those with `p` and with `q` both do, and so does
one with `p OR q`; the first then returns the rows of `p` that `q` chooses under the names of the
columns of the result, in their order, and the numbers of rows of the four add up. -/
theorem select_and_or {w : Engine} (h : Reachable EncodesWithin w) {table : Str} {r : Relation}
    (hr : w.database table = some r) {columns : List Str} {p q : Tree}
    {prP prQ prAnd prOr : ParseResult}
    (hp : Denotes prP (.select table columns (some p)))
    (hq : Denotes prQ (.select table columns (some q)))
    (hand : Denotes prAnd (.select table columns (some (.binary .and p q))))
    (hor : Denotes prOr (.select table columns (some (.binary .or p q)))) :
    (Succeeds (execute prAnd w).1 ↔ Succeeds (execute prP w).1 ∧ Succeeds (execute prQ w).1) ∧
    (Succeeds (execute prOr w).1 ↔ Succeeds (execute prP w).1 ∧ Succeeds (execute prQ w).1) ∧
    ∀ a b c d, (execute prP w).1 = .ok a → (execute prQ w).1 = .ok b →
      (execute prAnd w).1 = .ok c → (execute prOr w).1 = .ok d →
      a.success = true → b.success = true →
      c.rows = a.rows.filter (picked (some q) (resultNames columns r.names)) ∧
        c.rows.length + d.rows.length = a.rows.length + b.rows.length := by
  obtain ⟨hsp, hrp⟩ := h.select_succeeds hp hr
  obtain ⟨hsq, hrq⟩ := h.select_succeeds hq hr
  obtain ⟨hsand, hrand⟩ := h.select_succeeds hand hr
  obtain ⟨hsor, hror⟩ := h.select_succeeds hor hr
  refine ⟨by rw [hsand, hsp, hsq, decides_and], by rw [hsor, hsp, hsq, decides_or], ?_⟩
  intro a b c d ha hb hc hd hsa hsb
  have hdp := hsp.1 ⟨a, ha, hsa⟩
  have hdq := hsq.1 ⟨b, hb, hsb⟩
  have hsc : c.success = true := by
    obtain ⟨c', hc', hsuccess⟩ := hsand.2 (decides_and.2 ⟨hdp, hdq⟩)
    cases hc.symm.trans hc'
    exact hsuccess
  have hsd : d.success = true := by
    obtain ⟨d', hd', hsuccess⟩ := hsor.2 (decides_or.2 ⟨hdp, hdq⟩)
    cases hd.symm.trans hd'
    exact hsuccess
  rw [hrp a ha hsa, hrq b hb hsb, hrand c hc hsc, hror d hd hsd,
    List.filter_congr fun row hrow => picked_and hdp hdq hrow,
    List.filter_congr fun row hrow => picked_or hdp hdq hrow]
  constructor
  · rw [List.filter_filter]
    exact List.filter_congr fun row _ => Bool.and_comm _ _
  · exact length_filter_and_or _ _ _

theorem select_and_or_sample :
    (Succeeds (execute (sampleWhere .select 6) sampleTwo).1 ↔
      Succeeds (execute (sampleWhere .select 2) sampleTwo).1 ∧
        Succeeds (execute (sampleWhere .select 5) sampleTwo).1) ∧
    (Succeeds (execute (sampleWhere .select 7) sampleTwo).1 ↔
      Succeeds (execute (sampleWhere .select 2) sampleTwo).1 ∧
        Succeeds (execute (sampleWhere .select 5) sampleTwo).1) ∧
    ∀ a b c d, (execute (sampleWhere .select 2) sampleTwo).1 = .ok a →
      (execute (sampleWhere .select 5) sampleTwo).1 = .ok b →
      (execute (sampleWhere .select 6) sampleTwo).1 = .ok c →
      (execute (sampleWhere .select 7) sampleTwo).1 = .ok d → a.success = true → b.success = true →
      c.rows = a.rows.filter (picked (some sampleRight) [str "a", str "b"]) ∧
        c.rows.length + d.rows.length = a.rows.length + b.rows.length :=
  select_and_or sampleTwo_reachable sampleTwo_database
    (.select rfl .nil (.some (sampleWhere_left _ _)))
    (.select rfl .nil (.some (sampleWhere_right _ _)))
    (.select rfl .nil (.some (sampleWhere_both _ _)))
    (.select rfl .nil (.some (sampleWhere_either _ _)))

/-- **Deleting with OR is deleting twice.**  On every table that a run reaches, a DELETE with
`p OR q` that succeeds leaves what a DELETE with `p` and then one with `q` leave; these succeed, and
together they report as many rows, which an `int` can count. -/
theorem delete_or_twice {w : Engine} (h : Reachable EncodesWithin w) {table : Str} {r : Relation}
    (hr : w.database table = some r) {p q : Tree} {prP prQ prOr : ParseResult}
    (hp : Denotes prP (.delete table (some p))) (hq : Denotes prQ (.delete table (some q)))
    (hor : Denotes prOr (.delete table (some (.binary .or p q))))
    (hsuccess : Succeeds (execute prOr w).1) :
    ∃ m n : ℕ, m + n < 2 ^ 31 ∧
      (execute prP w).1 = .ok { message := countRows m ++ str " deleted" } ∧
      (execute prQ (w.after prP)).1 = .ok { message := countRows n ++ str " deleted" } ∧
      (execute prOr w).1 = .ok { message := countRows (m + n : ℕ) ++ str " deleted" } ∧
      ((w.after prP).after prQ).database = (w.after prOr).database := by
  obtain ⟨hdecides, hlt⟩ := (h.delete_succeeds hor hr).1 hsuccess
  obtain ⟨hdp, hdq⟩ := decides_or.1 hdecides
  have hpicked : ∀ row ∈ r.rows, picked (some (.binary .or p q)) r.names row =
      (picked (some p) r.names row || picked (some q) r.names row) := fun row hrow =>
    picked_or hdp hdq hrow
  have hcount : (r.pickedRows (some (.binary .or p q))).length =
      (r.pickedRows (some p)).length +
        ((r.withRows (r.otherRows (some p))).pickedRows (some q)).length := by
    have hsecond : (r.withRows (r.otherRows (some p))).pickedRows (some q) =
        r.rows.filter fun row => picked (some q) r.names row && !picked (some p) r.names row :=
      List.filter_filter
    rw [hsecond, Relation.pickedRows, List.filter_congr hpicked]
    exact length_filter_or_add _ _ _
  obtain ⟨houtOr, hdbOr⟩ := h.delete_answers hor hr hdecides hlt
  rw [hcount] at hlt houtOr
  obtain ⟨houtP, hdbP⟩ := h.delete_answers hp hr hdp (by omega)
  have hkind : prP.statement.kind = .delete := by
    cases hp
    assumption
  obtain ⟨hnext, -⟩ := h.step_of_kind hp (by rw [hkind]; simp)
  have hr' : (w.after prP).database table = some (r.withRows (r.otherRows (some p))) := by
    rw [hdbP, Function.update_self]
  have hdq' : Decides (some q) r.names (r.otherRows (some p)) := fun row hrow =>
    hdq row (List.mem_of_mem_filter hrow)
  obtain ⟨houtQ, hdbQ⟩ := hnext.delete_answers hq hr' hdq' (by omega)
  refine ⟨_, _, hlt, houtP, houtQ, houtOr, ?_⟩
  have hrows : (r.withRows (r.otherRows (some p))).otherRows (some q) =
      r.otherRows (some (.binary .or p q)) := by
    rw [Relation.otherRows, Relation.otherRows]
    refine List.filter_filter.trans (List.filter_congr fun row hrow => ?_)
    rw [hpicked row hrow, Bool.not_or, Bool.and_comm]
    rfl
  rw [hdbQ, hdbP, hdbOr, hrows, Function.update_idem]
  rfl

theorem delete_or_twice_sample :
    ∃ m n : ℕ, m + n < 2 ^ 31 ∧
      (execute (sampleWhere .delete 2) sampleTwo).1 =
        .ok { message := countRows m ++ str " deleted" } ∧
      (execute (sampleWhere .delete 5) (sampleTwo.after (sampleWhere .delete 2))).1 =
        .ok { message := countRows n ++ str " deleted" } ∧
      (execute (sampleWhere .delete 7) sampleTwo).1 =
        .ok { message := countRows (m + n : ℕ) ++ str " deleted" } ∧
      ((sampleTwo.after (sampleWhere .delete 2)).after (sampleWhere .delete 5)).database =
        (sampleTwo.after (sampleWhere .delete 7)).database := by
  have hor : Denotes (sampleWhere .delete 7)
      (.delete (str "t") (some (.binary .or sampleLeft sampleRight))) :=
    .delete rfl (.some (sampleWhere_either _ _))
  have hdecides : ∀ p ∈ [sampleLeft, sampleRight], Decides (some p)
      (sampleTable.columns.map (·.name)) [[.int 1, .int 10], [.int 2, .int 20]] := by
    intro p hp row hrow
    simp only [List.mem_cons, List.not_mem_nil, or_false] at hp hrow
    rcases hp with rfl | rfl <;> rcases hrow with rfl | rfl <;> exact ⟨_, rfl⟩
  have hsuccess := (sampleTwo_reachable.delete_succeeds hor sampleTwo_database).2
    ⟨decides_or.2 ⟨hdecides _ (by simp), hdecides _ (by simp)⟩,
      (List.length_filter_le _ _).trans_lt (by decide)⟩
  exact delete_or_twice sampleTwo_reachable sampleTwo_database
    (.delete rfl (.some (sampleWhere_left _ _))) (.delete rfl (.some (sampleWhere_right _ _))) hor
    hsuccess

end MicroSql
