import MicroSql.Parser.Statements

/-!
# Invariants of the statement parsers

The functions that parse a statement pass tokens, report errors, set fields of the statement and
call for expressions.  An invariant that each of these keeps is kept by the whole function; the
walk over the functions is made here, once for all invariants.
-/

namespace MicroSql

open Lib Prog

namespace Parser

/-- Neither the position nor the error matters to the invariant. -/
structure Stable (I : Parser → Prop) : Prop where
  position : ∀ s p, I s → I { s with position := p }
  error : ∀ s text, I s → I { s with result := { s.result with error := text } }

/-- Nor do the fields of the statement, apart from its kind. -/
structure StableFields (I : Parser → Prop) : Prop extends Stable I where
  statement : ∀ (s : Parser) (f : Statement → Statement), (∀ st, (f st).kind = st.kind) → I s →
    I { s with result := { s.result with statement := f s.result.statement } }

variable {inp : Input} {I : Parser → Prop}

/-! ### The small functions -/

theorem current_preserves : Preserves I (current inp) := .of_apply fun _ h => h

theorem currentIs_preserves (type : TokenType) : Preserves I (currentIs inp type) :=
  .of_apply fun _ h => h

theorem peekIs_preserves (type : TokenType) : Preserves I (peekIs inp type) :=
  .of_apply fun _ h => h

namespace Stable

variable (hI : Stable I)
include hI

theorem advance : Preserves I advance := .of_apply fun s h => hI.position s _ h

theorem setError (text : Str) : Preserves I (setError text) :=
  .of_apply fun s h => hI.error s text h

theorem setErrorIfEmpty (text : Str) : Preserves I (setErrorIfEmpty text) := by
  refine .of_apply fun s h => ?_
  rw [setErrorIfEmpty_apply]
  split
  · exact hI.error s text h
  · exact h

theorem consume (type : TokenType) (name : Str) : Preserves I (consume inp type name) :=
  .bind current_preserves fun _ => .ite (.bind hI.advance fun _ => .pure _)
    (.bind (hI.setError _) fun _ => .pure _)

theorem consumeIdentifier (context : Str) : Preserves I (consumeIdentifier inp context) :=
  .bind current_preserves fun _ => .ite (.bind hI.advance fun _ => .pure _)
    (.bind (hI.setError _) fun _ => .pure _)

theorem skipComma : Preserves I (skipComma inp) :=
  .bind (currentIs_preserves _) fun _ => .when hI.advance

/-- The semicolon of a statement. -/
theorem semicolon : Preserves I (do let _ ← Parser.consume inp .semicolon (str ";")) :=
  .bind (hI.consume _ _) fun _ => .pure _

theorem consumeBoth (first second : TokenType) : Preserves I (consumeBoth inp first second) :=
  .bind (currentIs_preserves _) fun _ => .bind (peekIs_preserves _) fun _ =>
    .ite (.bind hI.advance fun _ => .bind hI.advance fun _ => .pure _) (.pure _)

theorem columnConstraints : ∀ rounds column, Preserves I (columnConstraints inp rounds column)
  | 0, _ => .fail _
  | rounds + 1, _ =>
    .bind current_preserves fun _ => .ite (.bind (hI.consumeBoth _ _) fun _ =>
      .bind (hI.consumeBoth _ _) fun _ => columnConstraints rounds _) (.pure _)

theorem columnType : Preserves I (columnType inp) := by
  refine .bind current_preserves fun token => .bind (.of_apply fun _ h => h) fun _ => ?_
  cases token.type
  case text =>
    refine .bind (peekIs_preserves _) fun _ => .ite ?_ (.bind hI.advance fun _ => .pure _)
    refine .bind hI.advance fun _ => .bind hI.advance fun _ => .bind current_preserves fun _ =>
      .bind (.lift _) fun _ => .bind hI.advance fun _ => ?_
    exact .bind (hI.consume _ _) fun _ => .ite (.pure _) (.pure _)
  case integer | float | boolean => exact .bind hI.advance fun _ => .pure _
  all_goals exact .bind (hI.setError _) fun _ => .pure _

theorem requireExpression {fuel : ℕ} (hexpr : Preserves I (parseExpression inp fuel))
    (context : Str) : Preserves I (requireExpression inp fuel context) :=
  .bind hexpr fun _ => .bind current_preserves fun _ =>
    .bind (.when (hI.setErrorIfEmpty _)) fun _ => .pure _

end Stable

/-! ### The statements -/

/-- The function sets the kind of the statement, and keeps the invariant after that. -/
def Begins (I : Parser → Prop) (kind : StatementKind) (c : Prog Parser Halt Unit) : Prop :=
  ∃ rest, c = (do advance; setStatement fun s => { s with kind := kind }; rest) ∧
    Preserves I rest

/-- A function that sets the kind establishes what its setting establishes. -/
theorem Begins.spec {kind : StatementKind} {c : Prog Parser Halt Unit} (h : Begins I kind c)
    {P : Parser → Prop} (hP : ∀ s, P s → I
      { position := s.position + 1, result := { s.result with
        statement := { s.result.statement with kind := kind } } }) :
    Spec P c (fun _ => I) fun _ _ => True := by
  obtain ⟨rest, rfl, hrest⟩ := h
  exact fun s hs => hrest _ (hP s hs)

namespace StableFields

variable (hI : StableFields I)
include hI

theorem setStatement {f : Statement → Statement} (hf : ∀ st, (f st).kind = st.kind) :
    Preserves I (setStatement f) := .of_apply fun s h => hI.statement s f hf h

theorem parseTableName (context : Str) : Preserves I (parseTableName inp context) := by
  refine .bind (hI.consumeIdentifier _) fun name => ?_
  cases name with
  | none => exact .pure _
  | some name => exact .bind (hI.setStatement fun _ => rfl) fun _ => .pure _

/-! Statements without expressions -/

theorem insertName : Preserves I (insertName inp) :=
  .bind current_preserves fun _ => .bind (hI.setStatement fun _ => rfl) fun _ => hI.advance

theorem insertNames : ∀ rounds, Preserves I (insertNames inp rounds)
  | 0 => .fail _
  | rounds + 1 =>
    .bind current_preserves fun _ => .ite (.pure _) <| .bind hI.skipComma fun _ =>
      .bind hI.insertName fun _ => .bind hI.skipComma fun _ => insertNames rounds

theorem insertColumns (fuel : ℕ) : Preserves I (insertColumns inp fuel) :=
  .bind (currentIs_preserves _) fun _ => .ite (.bind hI.advance fun _ =>
    .bind hI.insertName fun _ => .bind (hI.insertNames fuel) fun _ => hI.consume _ _) (.pure _)

theorem columnDefinition (fuel : ℕ) : Preserves I (columnDefinition inp fuel) := by
  refine .bind (hI.consumeIdentifier _) fun name => ?_
  cases name with
  | none => exact .pure _
  | some name =>
    refine .bind hI.columnType fun type => ?_
    cases type with
    | none => exact .pure _
    | some type =>
      exact .bind (hI.columnConstraints _ _) fun _ => .bind (hI.setStatement fun _ => rfl)
        fun _ => .pure _

theorem columnDefinitions (fuel : ℕ) : ∀ rounds, Preserves I (columnDefinitions inp fuel rounds)
  | 0 => .fail _
  | rounds + 1 =>
    .bind current_preserves fun _ => .ite (.pure _) <| .bind (hI.columnDefinition fuel) fun _ =>
      .ite (.bind hI.skipComma fun _ => columnDefinitions fuel rounds) (.pure _)

theorem parseCreateTable (fuel : ℕ) : Begins I .createTable (parseCreateTable inp fuel) :=
  ⟨_, rfl, .guard (hI.parseTableName _) <| .guard (hI.consume _ _) <|
    .guard (hI.columnDefinitions fuel fuel) <| .bind hI.advance fun _ => hI.semicolon⟩

theorem parseCreateIndex : Begins I .createIndex (parseCreateIndex inp) := by
  refine ⟨_, rfl, .guard (hI.consume _ _) <| .guard (hI.parseTableName _) <|
    .guard (hI.consume _ _) <| .bind (hI.consumeIdentifier _) fun name => ?_⟩
  cases name with
  | none => exact .pure _
  | some name =>
    exact .bind (hI.setStatement fun _ => rfl) fun _ => .guard (hI.consume _ _) hI.semicolon

theorem parseDrop : Begins I .dropTable (parseDrop inp) :=
  ⟨_, rfl, .guard (hI.consume _ _) <| .guard (hI.parseTableName _) hI.semicolon⟩

/-! Statements with expressions -/

variable {fuel : ℕ} (hexpr : Preserves I (parseExpression inp fuel))
include hexpr

theorem parseWhere : Preserves I (parseWhere inp fuel) :=
  .bind (currentIs_preserves _) fun _ => .ite (.bind hI.advance fun _ =>
    .bind (hI.requireExpression hexpr _) fun _ => .ite (.pure _)
      (.bind (hI.setStatement fun _ => rfl) fun _ => .pure _))
    (.bind (hI.setStatement fun _ => rfl) fun _ => .pure _)

theorem selectList : ∀ rounds, Preserves I (selectList inp fuel rounds)
  | 0 => .fail _
  | rounds + 1 =>
    .bind current_preserves fun _ => .ite (.pure _) <| .bind hexpr fun _ =>
      .ite (.bind current_preserves fun _ => .bind (hI.setErrorIfEmpty _) fun _ => .pure _)
        (.bind (hI.setStatement fun _ => rfl) fun _ => .bind hI.skipComma fun _ =>
          selectList rounds)

theorem selectColumns : Preserves I (selectColumns inp fuel) :=
  .bind (currentIs_preserves _) fun _ => .ite (.bind hI.advance fun _ =>
    .bind current_preserves fun _ => .ite (.pure _) (.bind (hI.setError _) fun _ => .pure _))
    (hI.selectList hexpr fuel)

theorem parseSelect : Begins I .select (parseSelect inp fuel) :=
  ⟨_, rfl, .guard (hI.selectColumns hexpr) <| .guard (currentIs_preserves _) <|
    .bind hI.advance fun _ => .guard (hI.parseTableName _) <|
      .bind (hI.parseWhere hexpr) fun _ => .pure _⟩

theorem insertValue : Preserves I (insertValue inp fuel) :=
  .bind hexpr fun _ => hI.setStatement fun _ => rfl

theorem insertValues : ∀ rounds, Preserves I (insertValues inp fuel rounds)
  | 0 => .fail _
  | rounds + 1 =>
    .bind current_preserves fun _ => .ite (.pure _) <| .bind hI.skipComma fun _ =>
      .bind (hI.insertValue hexpr) fun _ => .bind hI.skipComma fun _ => insertValues rounds

theorem insertRow : Preserves I (insertRow inp fuel) :=
  .guard (currentIs_preserves _) <| .bind hI.advance fun _ =>
    .bind (hI.insertValue hexpr) fun _ => .bind (currentIs_preserves _) fun _ =>
      .bind (.when (.bind hI.advance fun _ => hI.insertValues hexpr fuel)) fun _ =>
        .guard (hI.consume _ _) hI.semicolon

theorem parseInsert : Begins I .insert (parseInsert inp fuel) :=
  ⟨_, rfl, .guard (hI.consume _ _) <| .guard (hI.parseTableName _) <|
    .guard (hI.insertColumns fuel) <| .guard (hI.consume _ _) (hI.insertRow hexpr)⟩

theorem parseDelete : Begins I .delete (parseDelete inp fuel) :=
  ⟨_, rfl, .guard (hI.consume _ _) <| .guard (hI.parseTableName _) <|
    .guard (hI.parseWhere hexpr) hI.semicolon⟩

theorem parseAssignment : Preserves I (parseAssignment inp fuel) := by
  refine .bind (hI.consumeIdentifier _) fun name => ?_
  cases name with
  | none => exact .pure _
  | some colName =>
    exact .bind (hI.consume _ _) fun _ => .ite (.bind (hI.requireExpression hexpr _) fun _ =>
      .ite (.pure _) (.bind (hI.setStatement fun _ => rfl) fun _ => .pure _)) (.pure _)

theorem assignments : ∀ rounds, Preserves I (assignments inp fuel rounds)
  | 0 => .fail _
  | rounds + 1 =>
    .bind (currentIs_preserves _) fun _ => .ite (.bind hI.advance fun _ =>
      .bind (hI.parseAssignment hexpr) fun _ => .ite (assignments rounds) (.pure _)) (.pure _)

theorem parseUpdate : Begins I .update (parseUpdate inp fuel) :=
  ⟨_, rfl, .guard (hI.parseTableName _) <| .guard (hI.consume _ _) <|
    .guard (hI.parseAssignment hexpr) <| .guard (hI.assignments hexpr fuel) <|
      .guard (hI.parseWhere hexpr) hI.semicolon⟩

end StableFields

end Parser

end MicroSql
