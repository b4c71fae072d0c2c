import MicroSql.Parser.Statements
import MicroSql.Parser.Sound
import MicroSql.Parser.Walk

/-!
# The indices of a statement

The indices that a statement parser stores refer to expressions of the arena.  Only `INSERT`
stores an index that it has not looked at.
-/

namespace MicroSql

open Lib Prog

/-- The index is one of an expression in the arena. -/
def ParseResult.InRange (r : ParseResult) (i : ℤ) : Prop := 0 ≤ i ∧ i < r.expressions.length

namespace Parser

/-- The index is that of a tree. -/
def Known (s : Parser) (i : ℤ) : Prop := ∃ t, s.result.Refers i t

theorem Known.inRange {s : Parser} {i : ℤ} (h : s.Known i) : s.result.InRange i := by
  obtain ⟨t, ht⟩ := h
  exact ⟨ht.nonneg, ht.lt_length⟩

theorem Known.extends {s s' : Parser} {i : ℤ}
    (hsub : s.result.expressions <+: s'.result.expressions)
    (h : s.Known i) : s'.Known i := by
  obtain ⟨t, ht⟩ := h
  exact ⟨t, ht.mono hsub⟩

/-- All indices of the statement are known; `missing` says whether values may be missing. -/
structure Indexed (missing : Prop) (s : Parser) : Prop where
  select : ∀ i ∈ s.result.statement.selectColumns, s.Known i
  values : ∀ i ∈ s.result.statement.insertValues, (missing ∧ i = -1) ∨ s.Known i
  assignments : ∀ a ∈ s.result.statement.assignments, s.Known a.2
  condition : s.result.statement.whereIndex = -1 ∨ s.Known s.result.statement.whereIndex

/-- The arena grows, and every new index of the statement is known. -/
theorem Indexed.grow {missing : Prop} {s s' : Parser} (h : Indexed missing s)
    (hsub : s.result.expressions <+: s'.result.expressions)
    (hselect : ∀ i ∈ s'.result.statement.selectColumns,
      i ∈ s.result.statement.selectColumns ∨ s'.Known i)
    (hvalues : ∀ i ∈ s'.result.statement.insertValues,
      i ∈ s.result.statement.insertValues ∨ (missing ∧ i = -1) ∨ s'.Known i)
    (hassignments : ∀ a ∈ s'.result.statement.assignments,
      a ∈ s.result.statement.assignments ∨ s'.Known a.2)
    (hcondition : s'.result.statement.whereIndex = s.result.statement.whereIndex ∨
      s'.result.statement.whereIndex = -1 ∨ s'.Known s'.result.statement.whereIndex) :
    Indexed missing s' := by
  have hknown : ∀ i, s.Known i → s'.Known i := fun i hi => hi.extends hsub
  refine ⟨fun i hi => ?_, fun i hi => ?_, fun a ha => ?_, ?_⟩
  · exact (hselect i hi).elim (fun hi => hknown i (h.select i hi)) id
  · exact (hvalues i hi).elim (fun hi => (h.values i hi).imp_right (hknown i)) id
  · exact (hassignments a ha).elim (fun ha => hknown _ (h.assignments a ha)) id
  · rcases hcondition with heq | hcondition
    · rw [heq]
      exact h.condition.imp_right (hknown _)
    · exact hcondition

/-- The function keeps the indices known. -/
def Keeps {α : Type} (missing : Prop) (c : Prog Parser Halt α) : Prop :=
  Spec (Indexed missing) c (fun _ => Indexed missing) fun _ _ => True

variable {inp : Input} {missing : Prop}

namespace Keeps

variable {α β : Type} {c : Prog Parser Halt α}

theorem pure (a : α) : Keeps missing (pure a) := Preserves.pure a

theorem fail : Keeps missing (.fail .outOfFuel : Prog Parser Halt α) := Preserves.fail _

theorem bind {k : α → Prog Parser Halt β} (hc : Keeps missing c)
    (hk : ∀ a, Keeps missing (k a)) : Keeps missing (c >>= k) := Preserves.bind hc hk

theorem ite {p : Prop} [Decidable p] {d : Prog Parser Halt α} (hc : Keeps missing c)
    (hd : Keeps missing d) : Keeps missing (if p then c else d) := Preserves.ite hc hd

theorem «when» {p : Prop} [Decidable p] {c : Prog Parser Halt Unit} (hc : Keeps missing c) :
    Keeps missing (when p c) := ite hc (pure ())

/-- A function that changes neither the statement nor the arena. -/
theorem of_same (h : ∀ s, (c s).2.result.statement = s.result.statement ∧
    (c s).2.result.expressions = s.result.expressions) : Keeps missing c := by
  refine Spec.intro (fun s a s' hs hc => ?_) fun _ _ _ _ _ => trivial
  obtain ⟨hstatement, hexpressions⟩ := h s
  rw [hc] at hstatement hexpressions
  refine hs.grow (by rw [hexpressions]) ?_ ?_ ?_ (.inl (by rw [hstatement])) <;>
    exact fun _ h => .inl (hstatement ▸ h)

/-- A function that sets other fields of the statement. -/
theorem setStatement {f : Statement → Statement}
    (hselect : ∀ st, (f st).selectColumns = st.selectColumns)
    (hvalues : ∀ st, (f st).insertValues = st.insertValues)
    (hassignments : ∀ st, (f st).assignments = st.assignments)
    (hcondition : ∀ st, (f st).whereIndex = st.whereIndex ∨ (f st).whereIndex = -1) :
    Keeps missing (setStatement f) := by
  intro s hs
  exact hs.grow List.prefix_rfl (fun i hi => .inl (hselect _ ▸ hi))
    (fun i hi => .inl (hvalues _ ▸ hi)) (fun a ha => .inl (hassignments _ ▸ ha))
    ((hcondition _).imp_right .inl)

end Keeps

theorem indexed_stable (missing : Prop) : Stable (Indexed missing) where
  position := fun s p h => Keeps.of_same (c := modify fun t => { t with position := p })
    (fun _ => ⟨rfl, rfl⟩) s h
  error := fun s text h => Keeps.of_same (c := setError text) (fun _ => ⟨rfl, rfl⟩) s h

theorem current_keeps : Keeps missing (current inp) := current_preserves

theorem advance_keeps : Keeps missing advance := (indexed_stable missing).advance

theorem setError_keeps (text : Str) : Keeps missing (setError text) :=
  (indexed_stable missing).setError text

theorem setErrorIfEmpty_keeps (text : Str) : Keeps missing (setErrorIfEmpty text) :=
  (indexed_stable missing).setErrorIfEmpty text

theorem currentIs_keeps (type : TokenType) : Keeps missing (currentIs inp type) :=
  currentIs_preserves type

theorem consume_keeps (type : TokenType) (name : Str) : Keeps missing (consume inp type name) :=
  (indexed_stable missing).consume type name

theorem consumeIdentifier_keeps (context : Str) : Keeps missing (consumeIdentifier inp context) :=
  (indexed_stable missing).consumeIdentifier context

theorem skipComma_keeps : Keeps missing (skipComma inp) := (indexed_stable missing).skipComma

/-! ### Expressions -/

/-- The index that `parseExpression` returns. -/
theorem parseExpression_index (fuel : ℕ) :
    Spec (Indexed missing) (parseExpression inp fuel)
      (fun i s => Indexed missing s ∧ (i = -1 ∨ s.Known i)) fun _ _ => True := by
  refine Spec.intro (fun s i s' hs h => ?_) fun _ _ _ _ _ => trivial
  have hgrow : ∀ {s'}, Extends s s' → Indexed missing s' := fun hext =>
    hs.grow hext.expressions (fun _ h => .inl (hext.statement ▸ h))
      (fun _ h => .inl (hext.statement ▸ h)) (fun _ h => .inl (hext.statement ▸ h))
      (.inl (by rw [hext.statement]))
  rcases parseExpression_sound fuel _ _ _ h with ⟨rfl, hmissing⟩ | hfound
  · exact ⟨hgrow hmissing.toExtends, .inl rfl⟩
  · obtain ⟨t, -, ht⟩ := hfound.derives
    exact ⟨hgrow hfound.toExtends, .inr ⟨t, ht⟩⟩

/-- An index that is stored by `f` unless it is `-1`. -/
theorem keeps_index {α : Type} {i : ℤ} {f : Statement → Statement} {k : Unit → Prog Parser Halt α}
    {d : Prog Parser Halt α}
    (hf : ∀ s : Parser, Indexed missing s → s.Known i →
      Indexed missing { s with result := { s.result with statement := f s.result.statement } })
    (hk : ∀ u, Keeps missing (k u)) (hd : Keeps missing d) :
    Spec (fun s => Indexed missing s ∧ (i = -1 ∨ s.Known i))
      (if i = -1 then d else setStatement f >>= k) (fun _ => Indexed missing) fun _ _ => True := by
  refine Spec.ite (fun _ s hs => hd s hs.1) fun hi s hs => ?_
  rw [setStatement_bind]
  exact hk () _ (hf s hs.1 (hs.2.resolve_left hi))

theorem requireExpression_index (fuel : ℕ) (context : Str) :
    Spec (Indexed missing) (requireExpression inp fuel context)
      (fun i s => Indexed missing s ∧ (i = -1 ∨ s.Known i)) fun _ _ => True := by
  refine Spec.bind (parseExpression_index fuel) fun i s hs => ?_
  rw [current_bind, bind_apply, when_apply]
  by_cases hi : i = -1
  · rw [if_pos hi]
    exact ⟨@setErrorIfEmpty_keeps missing _ s hs.1, .inl hi⟩
  · rw [if_neg hi]
    exact hs

theorem parseWhere_keeps (fuel : ℕ) : Keeps missing (parseWhere inp fuel) := by
  refine .bind (currentIs_keeps _) fun _ => .ite ?_ (.bind (.setStatement (fun _ => rfl)
    (fun _ => rfl) (fun _ => rfl) fun _ => .inr rfl) fun _ => .pure _)
  refine .bind advance_keeps fun _ => Spec.bind (requireExpression_index fuel _) fun i => ?_
  refine keeps_index (fun s hs hi => ?_) (fun _ => .pure _) (.pure _)
  exact hs.grow List.prefix_rfl (fun _ h => .inl h) (fun _ h => .inl h) (fun _ h => .inl h)
    (.inr (.inr (Known.extends (s := s) List.prefix_rfl hi)))

/-- Fields other than indices. -/
theorem setName_keeps {f : Statement → Statement}
    (hselect : ∀ st, (f st).selectColumns = st.selectColumns)
    (hvalues : ∀ st, (f st).insertValues = st.insertValues)
    (hassignments : ∀ st, (f st).assignments = st.assignments)
    (hcondition : ∀ st, (f st).whereIndex = st.whereIndex) : Keeps missing (setStatement f) :=
  .setStatement hselect hvalues hassignments fun st => .inl (hcondition st)

theorem parseTableName_keeps (context : Str) : Keeps missing (parseTableName inp context) := by
  refine .bind (consumeIdentifier_keeps _) fun name => ?_
  cases name with
  | none => exact .pure _
  | some name =>
    exact .bind (setName_keeps (fun _ => rfl) (fun _ => rfl) (fun _ => rfl) fun _ => rfl)
      fun _ => .pure _

/-! ### The statements -/

theorem selectList_keeps (fuel : ℕ) : ∀ rounds, Keeps missing (selectList inp fuel rounds)
  | 0 => .fail
  | rounds + 1 => by
    refine .bind current_keeps fun _ => .ite (.pure _) ?_
    refine Spec.bind (parseExpression_index fuel) fun i => ?_
    refine keeps_index (fun s hs hi => ?_)
      (fun _ => .bind skipComma_keeps fun _ => selectList_keeps fuel rounds)
      (.bind current_keeps fun _ => .bind (setErrorIfEmpty_keeps _) fun _ => .pure _)
    refine hs.grow List.prefix_rfl (fun j hj => ?_) (fun _ h => .inl h) (fun _ h => .inl h)
      (.inl rfl)
    rcases List.mem_append.1 hj with hj | hj
    · exact .inl hj
    · cases List.mem_singleton.1 hj
      exact .inr (Known.extends (s := s) List.prefix_rfl hi)

theorem selectColumns_keeps (fuel : ℕ) : Keeps missing (selectColumns inp fuel) :=
  .bind (currentIs_keeps _) fun _ => .ite (.bind advance_keeps fun _ => .bind current_keeps fun _ =>
    .ite (.pure _) (.bind (setError_keeps _) fun _ => .pure _)) (selectList_keeps fuel fuel)

theorem setKind_keeps (kind : StatementKind) :
    Keeps missing (setStatement fun s => { s with kind := kind }) :=
  setName_keeps (fun _ => rfl) (fun _ => rfl) (fun _ => rfl) fun _ => rfl

theorem parseSelect_keeps (fuel : ℕ) : Keeps missing (parseSelect inp fuel) :=
  .bind advance_keeps fun _ => .bind (setKind_keeps _) fun _ =>
    .bind (selectColumns_keeps fuel) fun _ => .ite (.bind (currentIs_keeps _) fun _ =>
      .ite (.bind advance_keeps fun _ => .bind (parseTableName_keeps _) fun _ =>
        .ite (.bind (parseWhere_keeps fuel) fun _ => .pure _) (.pure _)) (.pure _)) (.pure _)

theorem parseDelete_keeps (fuel : ℕ) : Keeps missing (parseDelete inp fuel) :=
  .bind advance_keeps fun _ => .bind (setKind_keeps _) fun _ =>
    .bind (consume_keeps _ _) fun _ => .ite (.bind (parseTableName_keeps _) fun _ =>
      .ite (.bind (parseWhere_keeps fuel) fun _ =>
        .ite (.bind (consume_keeps _ _) fun _ => .pure _) (.pure _)) (.pure _)) (.pure _)

theorem parseAssignment_keeps (fuel : ℕ) : Keeps missing (parseAssignment inp fuel) := by
  refine .bind (consumeIdentifier_keeps _) fun name => ?_
  cases name with
  | none => exact .pure _
  | some colName =>
    refine .bind (consume_keeps _ _) fun _ => .ite ?_ (.pure _)
    refine Spec.bind (requireExpression_index fuel _) fun i => ?_
    refine keeps_index (fun s hs hi => ?_) (fun _ => .pure _) (.pure _)
    refine hs.grow List.prefix_rfl (fun _ h => .inl h) (fun _ h => .inl h) (fun a ha => ?_)
      (.inl rfl)
    rcases List.mem_append.1 ha with ha | ha
    · exact .inl ha
    · cases List.mem_singleton.1 ha
      exact .inr (Known.extends (s := s) List.prefix_rfl hi)

theorem assignments_keeps (fuel : ℕ) : ∀ rounds, Keeps missing (assignments inp fuel rounds)
  | 0 => .fail
  | rounds + 1 =>
    .bind (currentIs_keeps _) fun _ => .ite (.bind advance_keeps fun _ =>
      .bind (parseAssignment_keeps fuel) fun _ => .ite (assignments_keeps fuel rounds) (.pure _))
      (.pure _)

theorem parseUpdate_keeps (fuel : ℕ) : Keeps missing (parseUpdate inp fuel) :=
  .bind advance_keeps fun _ => .bind (setKind_keeps _) fun _ =>
    .bind (parseTableName_keeps _) fun _ => .ite (.bind (consume_keeps _ _) fun _ =>
      .ite (.bind (parseAssignment_keeps fuel) fun _ => .ite (.bind (assignments_keeps fuel fuel)
        fun _ => .ite (.bind (parseWhere_keeps fuel) fun _ =>
          .ite (.bind (consume_keeps _ _) fun _ => .pure _) (.pure _)) (.pure _)) (.pure _))
        (.pure _)) (.pure _)

theorem columnConstraints_keeps (rounds : ℕ) (column : ColumnDefinition) :
    Keeps missing (columnConstraints inp rounds column) :=
  (indexed_stable missing).columnConstraints rounds column

theorem columnType_keeps : Keeps missing (columnType inp) := (indexed_stable missing).columnType

theorem columnDefinition_keeps (fuel : ℕ) : Keeps missing (columnDefinition inp fuel) := by
  refine .bind (consumeIdentifier_keeps _) fun name => ?_
  cases name with
  | none => exact .pure _
  | some name =>
    refine .bind columnType_keeps fun type => ?_
    cases type with
    | none => exact .pure _
    | some type =>
      exact .bind (columnConstraints_keeps _ _) fun _ => .bind (setName_keeps (fun _ => rfl)
        (fun _ => rfl) (fun _ => rfl) fun _ => rfl) fun _ => .pure _

theorem columnDefinitions_keeps (fuel : ℕ) :
    ∀ rounds, Keeps missing (columnDefinitions inp fuel rounds)
  | 0 => .fail
  | rounds + 1 =>
    .bind current_keeps fun _ => .ite (.pure _) (.bind (columnDefinition_keeps fuel) fun _ =>
      .ite (.bind skipComma_keeps fun _ => columnDefinitions_keeps fuel rounds) (.pure _))

theorem parseCreateTable_keeps (fuel : ℕ) : Keeps missing (parseCreateTable inp fuel) :=
  .bind advance_keeps fun _ => .bind (setKind_keeps _) fun _ =>
    .bind (parseTableName_keeps _) fun _ => .ite (.bind (consume_keeps _ _) fun _ =>
      .ite (.bind (columnDefinitions_keeps fuel fuel) fun _ => .ite (.bind advance_keeps fun _ =>
        .bind (consume_keeps _ _) fun _ => .pure _) (.pure _)) (.pure _)) (.pure _)

theorem parseCreateIndex_keeps : Keeps missing (parseCreateIndex inp) := by
  refine .bind advance_keeps fun _ => .bind (setKind_keeps _) fun _ =>
    .bind (consume_keeps _ _) fun _ => .ite (.bind (parseTableName_keeps _) fun _ =>
      .ite (.bind (consume_keeps _ _) fun _ => .ite (.bind (consumeIdentifier_keeps _)
        fun name => ?_) (.pure _)) (.pure _)) (.pure _)
  cases name with
  | none => exact .pure _
  | some name =>
    exact .bind (setName_keeps (fun _ => rfl) (fun _ => rfl) (fun _ => rfl) fun _ => rfl) fun _ =>
      .bind (consume_keeps _ _) fun _ => .ite (.bind (consume_keeps _ _) fun _ => .pure _) (.pure _)

theorem parseCreate_keeps (fuel : ℕ) : Keeps missing (parseCreate inp fuel) :=
  .bind advance_keeps fun _ => .bind current_keeps fun _ =>
    .ite (parseCreateTable_keeps fuel) (.ite parseCreateIndex_keeps (setError_keeps _))

theorem parseDrop_keeps : Keeps missing (parseDrop inp) :=
  .bind advance_keeps fun _ => .bind (setKind_keeps _) fun _ =>
    .bind (consume_keeps _ _) fun _ => .ite (.bind (parseTableName_keeps _) fun _ =>
      .ite (.bind (consume_keeps _ _) fun _ => .pure _) (.pure _)) (.pure _)

/-- No statement but an `INSERT` stores an index that is not known. -/
theorem parseStatement_keeps (fuel : ℕ) (hinsert : (inp.token 0).type ≠ .insert) :
    Spec (fun s => Indexed missing s ∧ s.position = 0) (parseStatement inp fuel)
      (fun _ => Indexed missing) fun _ _ => True := by
  intro s ⟨hs, hposition⟩
  unfold parseStatement
  rw [current_bind, hposition]
  cases htype : (inp.token 0).type
  case select => exact parseSelect_keeps fuel s hs
  case insert => exact absurd htype hinsert
  case create => exact parseCreate_keeps fuel s hs
  case update => exact parseUpdate_keeps fuel s hs
  case delete => exact parseDelete_keeps fuel s hs
  case drop => exact parseDrop_keeps s hs
  all_goals exact setError_keeps _ s hs

end Parser

end MicroSql
