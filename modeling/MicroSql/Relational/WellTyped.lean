import MicroSql.Relational.Lookup
import MicroSql.Relational.Typing

/-!
# Commands whose expressions have types

A command is well typed under the columns of a table if its condition is, and if it computes for
every column a value of the column's type.  The rows that are stored have types, so such a command
never ends with a value that is not of its column, or with a column that is not there: what can
still happen is an overflow, a division by zero, a NULL in an operation, a constraint that the new
row violates, and a lack of room.
-/

namespace MicroSql

open Lib

/-! ### Well typed commands -/

/-- Every column has a value of its type, or is left out. -/
def GivesTyped (names : List Str) (values : List Tree) (columns : Schema) : Prop :=
  if names = [] then List.Forall₂ (fun t c => t.Types [] c.type) values columns
  else ∀ c ∈ columns, ∀ i, names.idxOf? c.name = some i →
    ∃ t, values[i]? = some t ∧ t.Types [] c.type

/-- The assignment is to a column, and has a value of its type. -/
def AssignsTyped (columns : Schema) (a : Str × Tree) : Prop :=
  ∃ i c, (columns.map (·.name)).idxOf? a.1 = some i ∧ columns[i]? = some c ∧
    a.2.Types columns c.type

namespace Command

/-- The expressions of the command have types under the columns of its table. -/
inductive WellTyped (columns : Schema) : Command → Prop
  | select {table : Str} {condition : Option Tree}
      (hcondition : ∀ t, condition = some t → t.Checks columns) :
      WellTyped columns (.select table [] condition)
  | insert {table : Str} {names : List Str} {values : List Tree}
      (hvalues : GivesTyped names values columns) : WellTyped columns (.insert table names values)
  | delete {table : Str} {condition : Option Tree}
      (hcondition : ∀ t, condition = some t → t.Checks columns) :
      WellTyped columns (.delete table condition)
  | update {table : Str} {assignments : List (Str × Tree)} {condition : Option Tree}
      (hassignments : ∀ a ∈ assignments, AssignsTyped columns a)
      (hcondition : ∀ t, condition = some t → t.Checks columns) :
      WellTyped columns (.update table assignments condition)

/-- The expressions that are evaluated on the rows of the table. -/
def trees : Command → List Tree
  | select _ _ condition | delete _ condition => condition.toList
  | update _ assignments condition => condition.toList ++ assignments.map (·.2)
  | _ => []

/-- A NULL is among the values that an expression of the command is built from. -/
def MeetsNull (command : Command) (r : Relation) : Prop :=
  (∃ row ∈ r.rows, ∃ t ∈ command.trees, t.MeetsNull r.names row) ∨
    ∃ table names values, command = .insert table names values ∧
      ∃ t ∈ values, t.MeetsNull [] []

/-- The errors that a well typed command may report wherever a NULL is. -/
def errors : Command → List ExecError
  | select .. | delete .. => [.divisionByZero]
  | insert .. => [.divisionByZero, .notNullViolation, .primaryKeyViolation, .internalError]
  | update .. => [.divisionByZero, .primaryKeyViolation, .internalError]
  | createTable .. | dropTable .. | unsupported .. => []

/-- How a well typed command can fail. -/
inductive TypedFailure (command : Command) (r : Relation) : Failure ExecError → Prop
  | overflow : TypedFailure command r (.fault .signedOverflow)
  | listed {e : ExecError} (h : e ∈ command.errors) : TypedFailure command r (.error e)
  | null (h : command.MeetsNull r) : TypedFailure command r (.error .typeMismatch)

end Command

/-! ### Conditions and rows -/

section Rows

variable {columns : Schema} {row : Row} {nulls : Prop}

theorem holds_settles {condition : Option Tree}
    (h : ∀ t, condition = some t → t.Checks columns) (hrow : row.Typed columns) :
    Settles (TypedFailure (∃ t ∈ condition.toList, t.MeetsNull (columns.map (·.name)) row))
      (fun _ => True) (holds condition (columns.map (·.name)) row) := by
  cases condition with
  | none => exact .ok trivial
  | some t => exact settles_of_imp (fun hnull => ⟨t, by simp, hnull⟩) ((h t rfl).evalWhere hrow)

/-- The values of an INSERT are those of a typed row. -/
theorem values_settle {values : List Tree}
    (h : List.Forall₂ (fun t c => t.Types [] c.type) values columns) :
    Settles (TypedFailure (∃ t ∈ values, t.MeetsNull [] [])) (fun row => Row.Typed row columns)
      (values.mapM fun t => t.evalExpr [] []) := by
  induction h with
  | nil => exact .ok .nil
  | @cons t c values columns ht _ ih =>
    rw [List.mapM_cons]
    refine (settles_of_imp (fun hnull => ⟨t, by simp, hnull⟩) (ht.evalExpr .nil)).bind
      fun v hv => ?_
    refine (settles_of_imp (fun ⟨u, hu, hnull⟩ => ⟨u, by simp [hu], hnull⟩) ih).bind
      fun row hrow => ?_
    exact .ok (.cons (Value.typed_iff.2 hv.1) hrow)

/-- How an INSERT can fail to make a row: a value that is left out is NULL. -/
inductive InsertFailure (nulls : Prop) : Failure ExecError → Prop
  | value {e : Failure ExecError} (h : TypedFailure nulls e) : InsertFailure nulls e
  | notNull : InsertFailure nulls (.error .notNullViolation)

theorem insertedRow_settles {names : List Str} {values : List Tree}
    (h : GivesTyped names values columns) :
    Settles (InsertFailure (∃ t ∈ values, t.MeetsNull [] [])) (fun row => row.Typed columns)
      (insertedRow names values columns) := by
  unfold GivesTyped at h
  unfold insertedRow
  split at h
  · next hnames =>
    rw [if_pos hnames]
    exact (values_settle h).mono (fun _ he => .value he) fun _ hrow => hrow
  · next hnames =>
    rw [if_neg hnames]
    have hall : ∀ c ∈ columns, Settles (InsertFailure (∃ t ∈ values, t.MeetsNull [] []))
        (fun v => v.Typed c) (givenTo names values c) := by
      intro c hc
      unfold givenTo
      cases hi : names.idxOf? c.name with
      | none =>
        dsimp only
        split
        · exact .error .notNull
        · exact .ok trivial
      | some i =>
        obtain ⟨t, ht, htypes⟩ := h c hc i hi
        dsimp only
        rw [ht]
        refine (settles_of_imp (fun hnull => ⟨t, List.mem_of_getElem? ht, hnull⟩)
          (htypes.evalExpr .nil)).mono (fun _ he => .value he) fun v hv => ?_
        exact Value.typed_iff.2 hv.1
    exact (Settles.mapM hall).mono (fun _ he => he) fun _ hrow => hrow.flip

/-- The row that an UPDATE makes of a typed row is typed. -/
theorem updatedRow_settles {assignments : List (Str × Tree)}
    (h : ∀ a ∈ assignments, AssignsTyped columns a) (hrow : row.Typed columns) :
    Settles (TypedFailure (∃ a ∈ assignments, a.2.MeetsNull (columns.map (·.name)) row))
      (fun updated => updated.Typed columns)
      (updatedRow assignments (columns.map (·.name)) row) := by
  refine Settles.foldlM (fun updated a ha hupdated => ?_) hrow
  obtain ⟨i, c, hi, hc, htypes⟩ := h a ha
  unfold assigned
  rw [hi]
  refine (settles_of_imp (fun hnull => ⟨a, ha, hnull⟩) (htypes.evalExpr hrow)).map fun v hv => ?_
  exact forall₂_set hupdated hc (Value.typed_iff.2 hv.1)

/-- A typed row is refused for its length only. -/
theorem checkRow_settles (h : row.Typed columns) :
    Settles (· = noRoom) (fun _ => True) (checkRow row columns) := by
  rw [checkRow]
  rcases serializeRow_cases h.length_eq with ⟨-, hrun⟩ | ⟨-, bytes, hrun⟩ | ⟨-, hne, -⟩
  · rw [hrun]
    exact .error rfl
  · rw [hrun]
    exact .ok trivial
  · exact absurd h hne

end Rows

/-! ### Answers -/

section Answers

variable {command : Command} {r : Relation} {r' : Option Relation}
  {answer : Except (Failure ExecError) Result}

/-- The failures of the expressions are among those of the command. -/
theorem TypedFailure.ofCommand {nulls : Prop} {e : Failure ExecError} (h : TypedFailure nulls e)
    (hdivision : .divisionByZero ∈ command.errors) (hnulls : nulls → command.MeetsNull r) :
    command.TypedFailure r e := by
  cases h with
  | divisionByZero => exact .listed hdivision
  | overflow => exact .overflow
  | null h => exact .null (hnulls h)

/-- A scan fails as its condition does. -/
theorem selectFrom_settles {F : Failure ExecError → Prop} {p : Row → Expected ExecError Bool}
    {rows : List Row} (h : ∀ row ∈ rows, Settles F (fun _ => True) (p row)) :
    Settles F (fun _ => True) (selectFrom p (rows.map .ok)) := by
  rcases hrun : selectFrom p (rows.map .ok) with e | found
  · obtain ⟨row, hrow, hfail⟩ := exists_of_selectFrom_error hrun
    have hsettles := h row hrow
    rw [hfail] at hsettles
    exact .error hsettles.of_error
  · exact .ok trivial

theorem select_settles {table : Str} {condition : Option Tree}
    (hcondition : ∀ t, condition = some t → t.Checks r.columns)
    (hrows : ∀ row ∈ r.rows, row.Typed r.columns) :
    Settles ((Command.select table [] condition).TypedFailure r) (fun _ => True)
      (r.select [] condition) := by
  refine Settles.bind (selectFrom_settles fun row hrow => ?_) fun rows _ => .ok trivial
  refine (holds_settles hcondition (hrows row hrow)).mono (fun e he => ?_) fun _ h => h
  exact he.ofCommand (by simp [Command.errors]) fun ⟨t, ht, hnull⟩ => .inl ⟨row, hrow, t, ht, hnull⟩

theorem checkInsert_settles (table : Str) {names : List Str} {values : List Tree}
    (hvalues : GivesTyped names values r.columns) :
    Settles ((Command.insert table names values).TypedFailure r) (fun _ => True)
      (checkInsert names values r) := by
  have hinserted : Settles ((Command.insert table names values).TypedFailure r)
      (fun row => Row.Typed row r.columns) (insertedRow names values r.columns) := by
    refine (insertedRow_settles hvalues).mono (fun e he => ?_) fun _ h => h
    cases he with
    | value he =>
      exact he.ofCommand (by simp [Command.errors]) fun hnull =>
        .inr ⟨table, names, values, rfl, hnull⟩
    | notNull => exact .listed (by simp [Command.errors])
  refine hinserted.bind fun row hrow => ?_
  rw [if_neg fun hcount => hcount.2 hrow.length_eq]
  split
  · exact .error (.listed (by simp [Command.errors]))
  · refine ((checkRow_settles hrow).mono (fun e he => ?_) fun _ h => h).map fun _ _ => trivial
    rw [he]
    exact .listed (by simp [Command.errors])

theorem deleteVisit_settles {table : Str} {condition : Option Tree}
    (hcondition : ∀ t, condition = some t → t.Checks r.columns) {row : Row} (hrow : row ∈ r.rows)
    (htyped : row.Typed r.columns) (before after : List Row) :
    Settles ((Command.delete table condition).TypedFailure r) (fun _ => True)
      (deleteVisit condition r.columns before row after) := by
  refine Settles.bind ((holds_settles hcondition htyped).mono (fun e he => ?_) fun _ h => h)
    fun m _ => .ok trivial
  exact he.ofCommand (by simp [Command.errors]) fun ⟨t, ht, hnull⟩ => .inl ⟨row, hrow, t, ht, hnull⟩

theorem updateVisit_settles {table : Str} {assignments : List (Str × Tree)}
    {condition : Option Tree} (hassignments : ∀ a ∈ assignments, AssignsTyped r.columns a)
    (hcondition : ∀ t, condition = some t → t.Checks r.columns) {row : Row} (hrow : row ∈ r.rows)
    (htyped : row.Typed r.columns) (before after : List Row) :
    Settles ((Command.update table assignments condition).TypedFailure r) (fun _ => True)
      (updateVisit assignments condition r.columns before row after) := by
  refine Settles.bind ((holds_settles hcondition htyped).mono (fun e he => ?_) fun _ h => h)
    fun m _ => ?_
  · exact he.ofCommand (by simp [Command.errors]) fun ⟨t, ht, hnull⟩ =>
      .inl ⟨row, hrow, t, List.mem_append_left _ ht, hnull⟩
  split
  · exact .ok trivial
  refine Settles.bind ((updatedRow_settles hassignments htyped).mono (fun e he => ?_)
    fun _ h => h) fun updated hupdated => ?_
  · refine he.ofCommand (by simp [Command.errors]) fun ⟨a, ha, hnull⟩ => ?_
    exact .inl ⟨row, hrow, a.2, List.mem_append_right _ (List.mem_map_of_mem ha), hnull⟩
  split
  · exact .error (.listed (by simp [Command.errors]))
  · refine ((checkRow_settles hupdated).mono (fun e he => ?_) fun _ h => h).map fun _ _ => trivial
    rw [he]
    exact .listed (by simp [Command.errors])

/-- An answer that is no error is a success. -/
theorem Answers.success {s : Option Relation} {result : Result}
    (h : Answers command s (.ok result) r') : result.success = true := by
  generalize hanswer : (.ok result : Except (Failure ExecError) Result) = answer at h
  cases h with
  | select =>
    obtain ⟨-, rfl⟩ := Relation.select_eq_ok.1 hanswer.symm
    rfl
  | @delete _ _ _ out | @update _ _ _ _ out =>
    rcases out with e | n <;> cases hanswer
    rfl
  | inserted | created | dropped =>
    cases hanswer
    rfl
  | missing | rejected | full | duplicate | refused | unsupported => cases hanswer

/-- **A well typed command fails as its expressions do, or for a constraint or room.** -/
theorem Answers.settles (h : Answers command (some r) answer r')
    (htyped : command.WellTyped r.columns) (hrows : ∀ row ∈ r.rows, row.Typed r.columns) :
    Settles (command.TypedFailure r) (fun _ => True) answer := by
  cases htyped with
  | select hcondition =>
    cases h with
    | select => exact select_settles hcondition hrows
  | @insert table names values hvalues =>
    cases h with
    | rejected hcheck =>
      have hsettles := checkInsert_settles table hvalues
      rw [hcheck] at hsettles
      exact .error hsettles.of_error
    | inserted => exact .ok trivial
    | full => exact .error (.listed (by simp [Command.errors]))
  | delete hcondition =>
    cases h with
    | delete hsweeps =>
      refine Settles.map (hsweeps.settles (fun row hrow before after =>
        deleteVisit_settles hcondition hrow (hrows row hrow) before after)
        (fun before row after y hvisit => ?_) .overflow) fun _ _ => trivial
      -- DELETE leaves nothing in the place of a row that counts
      obtain ⟨m, -, hvisit⟩ := bind_eq_ok.1 hvisit
      cases m <;> cases hvisit
  | update hassignments hcondition =>
    cases h with
    | update hsweeps =>
      exact Settles.map (hsweeps.settles (fun row hrow before after =>
        updateVisit_settles hassignments hcondition hrow (hrows row hrow) before after)
        (fun _ _ _ _ _ => .listed (by simp [Command.errors])) .overflow) fun _ _ => trivial

end Answers

/-! ### Statements -/

/-- The rows that an engine stores have types. -/
theorem Reachable.typed {w : Engine} (h : Reachable EncodesWithin w) {name : Str} {r : Relation}
    (hr : w.database name = some r) : ∀ row ∈ r.rows, row.Typed r.columns := by
  intro row hrow
  obtain ⟨bytes, hencodes⟩ := h.encodes hr hrow
  exact hencodes.suits.imp fun _ _ hsuits => hsuits.typed

/-- **A well typed statement does not go wrong.**  On every engine that a run reaches, take a
statement for a command that is well typed under the columns of its table.  It succeeds; or it ends
with an overflow; or it reports a division by zero, an INSERT or an UPDATE also a constraint that
the new row violates or a row that cannot be kept; or it reports a type mismatch, and a NULL is
among the values that it has met.  No other error is reported, and no other exception is raised. -/
theorem execute_wellTyped {w : Engine} (h : Reachable EncodesWithin w) {pr : ParseResult}
    {command : Command} (hc : Denotes pr command) (hwithin : EncodesWithin pr w) {r : Relation}
    (hr : w.database command.table = some r) (htyped : command.WellTyped r.columns) :
    Succeeds (execute pr w).1 ∨ (execute pr w).1 = .error .signedOverflow ∨
      ∃ e, (execute pr w).1 = .ok (makeError e) ∧
        (e ∈ command.errors ∨ e = .typeMismatch ∧ command.MeetsNull r) := by
  have hstep := h.good.execute_answers (fun t => h.good.withinOn hwithin) hc
  obtain ⟨answer, hout, hanswers⟩ := hstep.exists_answers
  rw [hr] at hanswers
  have hsettles := hanswers.settles htyped (h.typed hr)
  rw [hout]
  cases hsettles with
  | @ok result => exact .inl (succeeds_resultOf.2 ⟨result, rfl, hanswers.success⟩)
  | error hfails =>
    cases hfails with
    | overflow => exact .inr (.inl rfl)
    | @listed e he => exact .inr (.inr ⟨e, rfl, .inl he⟩)
    | null hnull => exact .inr (.inr ⟨_, rfl, .inr ⟨rfl, hnull⟩⟩)

theorem sampleKeyUpdate_wellTyped :
    (Command.update (str "t") [(str "b", .leaf (.literalInt 30))]
      (some (keyEquals (str "a") (.leaf (.literalInt 1))))).WellTyped sampleTable.columns := by
  have hname : (sampleTable.columns.map (·.name)).idxOf? (str "a") = some 0 := by decide
  have hcolumn : (Tree.leaf (.columnRef [] (str "a"))).Types sampleTable.columns _ :=
    .column hname rfl
  refine .update (fun a ha => ?_) fun t ht => ?_
  · cases List.mem_singleton.1 ha
    exact ⟨1, _, by decide, rfl, .int 30⟩
  · cases ht
    exact .equality (by decide) hcolumn (.int 1)

theorem execute_wellTyped_sample :
    (execute sampleKeyUpdate sampleTwo).1 ≠ .error .badVariantAccess ∧
      (execute sampleKeyUpdate sampleTwo).1 ≠ .error .outOfBounds := by
  rcases execute_wellTyped sampleTwo_reachable sampleKeyUpdate_denotes sampleKeyUpdate_within
    sampleTwo_database sampleKeyUpdate_wellTyped with ⟨result, hok, -⟩ | hover | ⟨e, hok, -⟩
  · rw [hok]
    exact ⟨nofun, nofun⟩
  · rw [hover]
    exact ⟨nofun, nofun⟩
  · rw [hok]
    exact ⟨nofun, nofun⟩

end MicroSql
