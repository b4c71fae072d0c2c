import MicroSql.Executor.Ordered
import MicroSql.Relational.Refinement

/-!
# How the program can die

An exception that nothing catches ends the program.  On a database there are four kinds: an
overflow in an expression of the command, one of the count of the rows of a DELETE or an UPDATE, a
value that is not of the type of its column, and an INSERT that names more columns than it has
values.  By the refinement no statement of a run has any other: no page is read outside its bytes,
and no row outside its values.
-/

namespace MicroSql

open Lib Engine

/-- The expression overflows on the row. -/
def Tree.Overflows (t : Tree) (names : List Str) (row : Row) : Prop :=
  t.evalExpr row names = .error (.fault .signedOverflow)

/-- The condition overflows on the row. -/
def ConditionOverflows (condition : Option Tree) (names : List Str) (row : Row) : Prop :=
  holds condition names row = .error (.fault .signedOverflow)

/-- The condition is true on the row. -/
def picked (condition : Option Tree) (names : List Str) (row : Row) : Bool :=
  decide (holds condition names row = .ok true)

/-- The rows that a condition chooses. -/
def Relation.pickedRows (r : Relation) (condition : Option Tree) : List Row :=
  r.rows.filter (picked condition r.names)

/-- The exceptions that a command can raise on a relation, each with its cause. -/
inductive Raises : Command → Relation → Fault → Prop
  | select {table : Str} {columns : List Str} {condition : Option Tree} {r : Relation} {row : Row}
      (hrow : row ∈ r.rows)
      (h : ConditionOverflows condition (resultNames columns r.names) row) :
      Raises (.select table columns condition) r .signedOverflow
  | delete {table : Str} {condition : Option Tree} {r : Relation} {row : Row}
      (hrow : row ∈ r.rows) (h : ConditionOverflows condition r.names row) :
      Raises (.delete table condition) r .signedOverflow
  | deleteCount {table : Str} {condition : Option Tree} {r : Relation}
      (h : 2 ^ 31 ≤ (r.pickedRows condition).length) :
      Raises (.delete table condition) r .signedOverflow
  | updateCondition {table : Str} {assignments : List (Str × Tree)} {condition : Option Tree}
      {r : Relation} {row : Row} (hrow : row ∈ r.rows)
      (h : ConditionOverflows condition r.names row) :
      Raises (.update table assignments condition) r .signedOverflow
  | updateValue {table : Str} {assignments : List (Str × Tree)} {condition : Option Tree}
      {r : Relation} {row : Row} {a : Str × Tree} (hrow : row ∈ r.rows)
      (hmatch : holds condition r.names row = .ok true) (ha : a ∈ assignments)
      (h : a.2.Overflows r.names row) :
      Raises (.update table assignments condition) r .signedOverflow
  | updateType {table : Str} {assignments : List (Str × Tree)} {condition : Option Tree}
      {r : Relation} {row updated : Row} (hrow : row ∈ r.rows)
      (hmatch : holds condition r.names row = .ok true)
      (hupdated : updatedRow assignments r.names row = .ok updated)
      (h : ¬updated.Typed r.columns) :
      Raises (.update table assignments condition) r .badVariantAccess
  | updateCount {table : Str} {assignments : List (Str × Tree)} {condition : Option Tree}
      {r : Relation} (h : 2 ^ 31 ≤ (r.pickedRows condition).length) :
      Raises (.update table assignments condition) r .signedOverflow
  | insertValue {table : Str} {names : List Str} {values : List Tree} {r : Relation} {t : Tree}
      (ht : t ∈ values) (h : t.Overflows [] []) :
      Raises (.insert table names values) r .signedOverflow
  | insertType {table : Str} {names : List Str} {values : List Tree} {r : Relation} {row : Row}
      (hrow : insertedRow names values r.columns = .ok row) (h : ¬row.Typed r.columns) :
      Raises (.insert table names values) r .badVariantAccess
  | insertNames {table : Str} {names : List Str} {values : List Tree} {r : Relation}
      {c : ColumnDefinition} {i : ℕ} (hc : c ∈ r.columns) (hi : names.idxOf? c.name = some i)
      (h : values.length ≤ i) : Raises (.insert table names values) r .outOfBounds

/-! ### Expressions and rows -/

section Values

variable {columns : Schema} {f : Fault}

theorem holds_faults (condition : Option Tree) (names : List Str) (row : Row) :
    FaultsByOverflow (holds condition names row) := by
  cases condition with
  | none => exact .ok _
  | some t => exact t.evalWhere_faults row names

/-- A fault of a condition is an overflow. -/
theorem conditionOverflows_of_fault {condition : Option Tree} {names : List Str} {row : Row}
    (h : holds condition names row = .error (.fault f)) :
    f = .signedOverflow ∧ ConditionOverflows condition names row := by
  obtain rfl := holds_faults condition names row f h
  exact ⟨rfl, h⟩

theorem overflows_of_fault {t : Tree} {names : List Str} {row : Row}
    (h : t.evalExpr row names = .error (.fault f)) :
    f = .signedOverflow ∧ t.Overflows names row := by
  obtain rfl := t.evalExpr_faults row names f h
  exact ⟨rfl, h⟩

/-- A scan faults on some row that it reads. -/
theorem exists_of_selectFrom_error {p : Row → Expected ExecError Bool} {rows : List Row}
    {e : Failure ExecError} (h : selectFrom p (rows.map .ok) = .error e) :
    ∃ row ∈ rows, p row = .error e := by
  induction rows with
  | nil => cases h
  | cons row rows ih =>
    rcases hp : p row with e' | m
    · rw [selectFrom_cons_error hp] at h
      cases h
      exact ⟨row, List.mem_cons_self, hp⟩
    · rw [selectFrom_cons_ok hp] at h
      rcases hrest : selectFrom p (rows.map .ok) with e' | rest
      · rw [hrest] at h
        cases h
        obtain ⟨row', hrow', hfail⟩ := ih hrest
        exact ⟨row', List.mem_cons_of_mem _ hrow', hfail⟩
      · rw [hrest] at h
        cases h

/-- The row of an INSERT is not computed. -/
theorem raises_of_insertedRow {table : Str} {names : List Str} {values : List Tree} {r : Relation}
    (h : insertedRow names values r.columns = .error (.fault f)) :
    Raises (.insert table names values) r f := by
  unfold insertedRow at h
  by_cases hnames : names = []
  · rw [if_pos hnames] at h
    obtain ⟨before, t, after, rfl, -, ht⟩ := mapM_eq_error.1 h
    obtain ⟨rfl, hover⟩ := overflows_of_fault ht
    exact .insertValue (by simp) hover
  · rw [if_neg hnames] at h
    obtain ⟨before, c, after, hcolumns, -, hc⟩ := mapM_eq_error.1 h
    rw [givenTo] at hc
    cases hi : names.idxOf? c.name with
    | none =>
      rw [hi] at hc
      dsimp only at hc
      split at hc <;> cases hc
    | some i =>
      rw [hi] at hc
      dsimp only at hc
      cases ht : values[i]? with
      | none =>
        rw [ht] at hc
        cases hc
        exact .insertNames (by simp [hcolumns]) hi (List.getElem?_eq_none_iff.1 ht)
      | some t =>
        rw [ht] at hc
        obtain ⟨rfl, hover⟩ := overflows_of_fault hc
        exact .insertValue (List.mem_of_getElem? ht) hover

/-- The new row of an UPDATE is not computed. -/
theorem exists_of_updatedRow_fault {assignments : List (Str × Tree)} {names : List Str} {row : Row}
    (h : updatedRow assignments names row = .error (.fault f)) :
    ∃ a ∈ assignments, f = .signedOverflow ∧ a.2.Overflows names row := by
  suffices hfold : ∀ start : Row,
      assignments.foldlM (assigned names row) start = .error (.fault f) →
        ∃ a ∈ assignments, f = .signedOverflow ∧ a.2.Overflows names row from hfold row h
  clear h
  induction assignments with
  | nil =>
    intro start h
    cases h
  | cons a assignments ih =>
    intro start h
    rw [List.foldlM_cons] at h
    rcases hone : assigned names row start a with e | next
    · rw [hone] at h
      cases h
      rw [assigned] at hone
      cases hi : names.idxOf? a.1 with
      | none =>
        rw [hi] at hone
        cases hone
      | some i =>
        rw [hi] at hone
        rcases hv : a.2.evalExpr row names with e | v
        · rw [hv] at hone
          cases hone
          exact ⟨a, List.mem_cons_self, overflows_of_fault hv⟩
        · rw [hv] at hone
          cases hone
    · rw [hone] at h
      obtain ⟨b, hb, hover⟩ := ih next h
      exact ⟨b, List.mem_cons_of_mem a hb, hover⟩

/-- The check of a row faults on values of another type only. -/
theorem not_typed_of_checkRow {row : Row} (h : checkRow row columns = .error (.fault f)) :
    f = .badVariantAccess ∧ ¬row.Typed columns := by
  rw [checkRow] at h
  by_cases hlen : row.length = columns.length
  · rcases serializeRow_cases hlen with ⟨-, hrun⟩ | ⟨-, bytes, hrun⟩ | ⟨-, htyped, hrun⟩ <;>
      rw [hrun] at h <;> cases h
    exact ⟨rfl, htyped⟩
  · rw [serializeRow_of_length_ne hlen] at h
    cases h

end Values

/-! ### Commands -/

/-- A sweep that ends with an exception comes to a row whose visit raises it, or to one too many of
those that count. -/
theorem exists_of_sweeps_fault {visit : Visit (Failure ExecError) Row} {rows new : List Row}
    {f : Fault} {p : Row → Bool}
    (hcounts : ∀ before row after o, visit before row after = .ok (true, o) → p row = true)
    (h : Sweeps visit sweepLimits rows (.error (.fault f)) new) :
    (∃ before row after, row ∈ rows ∧ visit before row after = .error (.fault f)) ∨
      f = .signedOverflow ∧ 2 ^ 31 ≤ (rows.filter p).length := by
  obtain ⟨old, row, rest, n, done, rfl, hswept, -, hstop⟩ := h.exists_stopsAt
  generalize he : Failure.fault f = e at hstop
  cases hstop with
  | fails hfail =>
    subst he
    exact .inl ⟨_, row, _, by simp, hfail⟩
  | full => cases he
  | tooMany hvisit hn =>
    cases he
    have hle := hswept.le_countP hcounts
    have hmost : n = 2 ^ 31 - 1 := hn
    refine .inr ⟨rfl, ?_⟩
    rw [← List.countP_eq_length_filter, List.countP_append, List.countP_cons,
      if_pos (hcounts _ _ _ _ hvisit)]
    omega

theorem deleteVisit_counts {condition : Option Tree} {columns : Schema} {before after : List Row}
    {row : Row} {o : Option Row}
    (h : deleteVisit condition columns before row after = .ok (true, o)) :
    holds condition (columns.map (·.name)) row = .ok true := by
  obtain ⟨m, hm, h⟩ := bind_eq_ok.1 h
  cases h
  exact hm

theorem updateVisit_counts {assignments : List (Str × Tree)} {condition : Option Tree}
    {columns : Schema} {before after : List Row} {row : Row} {o : Option Row}
    (h : updateVisit assignments condition columns before row after = .ok (true, o)) :
    holds condition (columns.map (·.name)) row = .ok true := by
  obtain ⟨m, hm, h⟩ := bind_eq_ok.1 h
  cases m with
  | false => cases h
  | true => exact hm

/-- **The exceptions of the database.** -/
theorem Answers.raises {command : Command} {r r' : Option Relation} {f : Fault}
    (h : Answers command r (.error (.fault f)) r') : ∃ s, r = some s ∧ Raises command s f := by
  generalize hanswer : (Except.error (.fault f) : Except (Failure ExecError) Result) = answer at h
  cases h with
  | @select table columns condition r =>
    refine ⟨r, rfl, ?_⟩
    rw [Relation.select] at hanswer
    rcases hrows : selectFrom (holds condition (resultNames columns r.names))
      (r.rows.map .ok) with e | rows <;> rw [hrows] at hanswer <;> cases hanswer
    obtain ⟨row, hrow, hfail⟩ := exists_of_selectFrom_error hrows
    obtain ⟨rfl, hover⟩ := conditionOverflows_of_fault hfail
    exact .select hrow hover
  | @rejected table names values r e hcheck =>
    cases hanswer
    refine ⟨r, rfl, ?_⟩
    rw [checkInsert] at hcheck
    rcases hrow : insertedRow names values r.columns with e | row
    · rw [hrow] at hcheck
      cases hcheck
      exact raises_of_insertedRow hrow
    · rw [hrow, ok_bind] at hcheck
      split at hcheck
      · cases hcheck
      split at hcheck
      · cases hcheck
      rcases hrun : checkRow row r.columns with e | u <;> rw [hrun] at hcheck <;> cases hcheck
      obtain ⟨rfl, htyped⟩ := not_typed_of_checkRow hrun
      exact .insertType hrow htyped
  | @delete table condition r out rows hsweeps =>
    refine ⟨r, rfl, ?_⟩
    rcases out with e | n <;> cases hanswer
    rcases exists_of_sweeps_fault
      (fun _ _ _ _ hvisit => decide_eq_true (deleteVisit_counts hvisit)) hsweeps with
      ⟨before, row, after, hrow, hvisit⟩ | ⟨rfl, hmany⟩
    swap
    · exact .deleteCount hmany
    rw [deleteVisit] at hvisit
    rcases hmatch : holds condition (r.columns.map (·.name)) row with e | m <;>
      rw [hmatch] at hvisit <;> cases hvisit
    obtain ⟨rfl, hover⟩ := conditionOverflows_of_fault hmatch
    exact .delete hrow hover
  | @update table assignments condition r out rows hsweeps =>
    refine ⟨r, rfl, ?_⟩
    rcases out with e | n <;> cases hanswer
    rcases exists_of_sweeps_fault
      (fun _ _ _ _ hvisit => decide_eq_true (updateVisit_counts hvisit)) hsweeps with
      ⟨before, row, after, hrow, hvisit⟩ | ⟨rfl, hmany⟩
    swap
    · exact .updateCount hmany
    rw [updateVisit] at hvisit
    rcases hmatch : holds condition (r.columns.map (·.name)) row with e | m
    · rw [hmatch] at hvisit
      cases hvisit
      obtain ⟨rfl, hover⟩ := conditionOverflows_of_fault hmatch
      exact .updateCondition hrow hover
    rw [hmatch, ok_bind] at hvisit
    cases m with
    | false => cases hvisit
    | true =>
      simp only [Bool.not_true, Bool.false_eq_true, if_false] at hvisit
      rcases hupd : updatedRow assignments (r.columns.map (·.name)) row with e | updated
      · rw [hupd] at hvisit
        cases hvisit
        obtain ⟨a, ha, rfl, hover⟩ := exists_of_updatedRow_fault hupd
        exact .updateValue hrow hmatch ha hover
      rw [hupd, ok_bind] at hvisit
      split at hvisit
      · cases hvisit
      rcases hrun : checkRow updated r.columns with e | u <;> rw [hrun] at hvisit <;> cases hvisit
      obtain ⟨rfl, htyped⟩ := not_typed_of_checkRow hrun
      exact .updateType hrow hmatch hupd htyped
  | missing | inserted | full | created | duplicate | refused | dropped | unsupported =>
    cases hanswer

theorem Database.Step.raises {db db' : Database} {command : Command} {f : Fault}
    (h : Database.Step db command (.error f) db') :
    ∃ r, db command.table = some r ∧ Raises command r f := by
  generalize hout : (Except.error f : Except Fault Result) = out at h
  obtain ⟨hanswers⟩ := h
  rename_i answer r
  rcases answer with (e | f') | result <;> cases hout
  exact hanswers.raises

/-! ### Tables whose rows are short -/

theorem orError_fst (c : Prog Engine (Failure ExecError) Result) (w : Engine) :
    (orError c w).1 = resultOf (c w).1 := by
  unfold orError
  rcases c w with ⟨(e | f) | r, w'⟩ <;> rfl

/-- A statement that wraps the value of another one. -/
theorem Prog.bind_fst_congr {σ ε α β : Type} {c d : Prog σ ε α} {f : α → β} {s : σ}
    (h : (c s).1 = (d s).1) :
    ((do return f (← c) : Prog σ ε β) s).1 = ((do return f (← d) : Prog σ ε β) s).1 := by
  rw [Prog.bind_apply, Prog.bind_apply]
  rcases hc : c s with ⟨e | a, s'⟩ <;> rcases hd : d s with ⟨e' | a', s''⟩ <;> rw [hc, hd] at h <;>
    cases h <;> rfl

/-- Two statements that do the same on the pages return the same. -/
theorem Engine.RunsOn.fst_eq {w : Engine} {name : Str} {α : Type}
    {d d' : Schema → Prog (List (Block pageSize)) (Failure ExecError) α}
    {r r' : Except (Failure ExecError) α × Engine} (hr : RunsOn GoodTable w name d r)
    (hr' : RunsOn GoodTable w name d' r')
    (heq : ∀ t, w.catalog.findTable name = some t → d t.columns = d' t.columns) :
    r.1 = r'.1 := by
  cases hfind : w.catalog.findTable name with
  | none =>
    have hmissing : ∀ {d : Schema → Prog (List (Block pageSize)) (Failure ExecError) α} {r},
        RunsOn GoodTable w name d r → r.1 = .error (.error .tableSchemaNotFound) := by
      intro d r hr
      cases hr with
      | missing => rfl
      | ran hs =>
        rw [hs.find] at hfind
        cases hfind
    rw [hmissing hr, hmissing hr']
  | some t => rw [(hr.ran_of_find hfind).1, (hr'.ran_of_find hfind).1, heq t hfind]

/-- Where the rows are short, no statement encodes a long one. -/
theorem Reachable.encodesWithin {w : Engine} (h : Reachable EncodesWithin w) {pr : ParseResult}
    {command : Command} (hc : Denotes pr command)
    (hshort : pr.statement.kind = .insert ∨ pr.statement.kind = .update →
      ∀ t, w.catalog.findTable pr.statement.tableName = some t → ShortRows t.columns) :
    EncodesWithin pr w := by
  intro hbad
  have hwithin : ∀ t, w.catalog.findTable pr.statement.tableName = some t →
      WithinOn w.fs.limit pr ⟨t, w.pages t⟩ := fun t hfind =>
    ⟨fun hkind _ => hshort (.inl hkind) t hfind, fun hkind _ => hshort (.inr hkind) t hfind⟩
  have hsame : (executeWith serializeWithin pr w).1 = (MicroSql.execute pr w).1 := by
    rw [MicroSql.execute]
    unfold executeWith
    cases hkind : pr.statement.kind with
    | insert =>
      have hinsert : (execInsertWith serializeWithin pr w).1 = (execInsert pr w).1 :=
        RunsOn.fst_eq (h.good.runs_insert serializeWithin pr)
          (h.good.runs_insert serializeRow pr) fun t hfind =>
            insertRow_serialize_congr (hshort (.inl hkind) t hfind).serializeWithin_eq
      dsimp only
      rw [orError_fst, orError_fst, Prog.bind_fst_congr hinsert]
      rfl
    | update =>
      have hupdate : (execUpdateWith serializeWithin pr w).1 = (execUpdate pr w).1 :=
        RunsOn.fst_eq (h.good.runs_update serializeWithin pr)
          (h.good.runs_update serializeRow pr) fun t hfind =>
            updateRows_serialize_congr (hshort (.inr hkind) t hfind).serializeWithin_eq
      dsimp only
      rw [orError_fst, orError_fst, Prog.bind_fst_congr hupdate]
      rfl
    | _ => rfl
  have hstep := h.good.execute_answers hwithin hc
  rw [← hsame, hbad] at hstep
  obtain ⟨r, -, hraises⟩ := hstep.raises
  cases hraises

end MicroSql
