import MicroSql.Executor.Executor
import MicroSql.Storage.RowCodec

/-!
# Statements whose encodings fit into 16 bits

`execInsert` and `execUpdate` narrow the length of an encoded row to 16 bits.  With
`serializeWithin` for the encoder the executor checks that this loses nothing; apart from
the check it is the executor.  `EncodesWithin` says that the check never fails, so that
every row which the statement encodes takes at most 65535 bytes.
-/

namespace MicroSql

open Lib

/-- The outcome of the additional check when it fails. -/
abbrev tooLong : Failure ExecError := .fault .assertion

theorem serializeWithin_guards (row : Row) (columns : Schema) :
    (serializeWithin row columns).mapError internal = (serializeRow row columns).mapError internal ∨
      (serializeWithin row columns).mapError internal = .error tooLong := by
  unfold serializeWithin
  rcases serializeRow row columns with e | bytes
  · exact .inl rfl
  · rw [ok_bind]
    split
    · exact .inl rfl
    · exact .inr rfl

section

variable {σ : Type} (file : PageFile σ) (pr : ParseResult) (columns : Schema)

theorem insertRow_guards :
    Prog.Guards tooLong (insertRow file serializeWithin pr columns)
      (insertRow file serializeRow pr columns) := by
  refine Prog.Guards.bind (Prog.Guards.refl _ _) fun row => ?_
  refine Prog.Guards.bind (Prog.Guards.refl _ _) fun _ => ?_
  refine Prog.Guards.bind (Prog.Guards.refl _ _) fun _ => ?_
  exact Prog.Guards.bind (Prog.Guards.lift (serializeWithin_guards row columns)) fun _ =>
    Prog.Guards.refl _ _

theorem updateSlot_guards (pageIndex : ℕ) (s : Page × ℕ) (slot : ℕ) :
    Prog.Guards tooLong (updateSlot file serializeWithin pr columns pageIndex s slot)
      (updateSlot file serializeRow pr columns pageIndex s slot) := by
  refine Prog.Guards.ite (Prog.Guards.refl _ _) ?_
  refine Prog.Guards.bind (Prog.Guards.refl _ _) fun row => ?_
  refine Prog.Guards.bind (Prog.Guards.refl _ _) fun shouldUpdate => ?_
  refine Prog.Guards.ite (Prog.Guards.refl _ _) ?_
  refine Prog.Guards.bind (Prog.Guards.refl _ _) fun updated => ?_
  refine Prog.Guards.bind (Prog.Guards.refl _ _) fun _ => ?_
  exact Prog.Guards.bind (Prog.Guards.lift (serializeWithin_guards updated columns)) fun _ =>
    Prog.Guards.refl _ _

theorem updateRows_guards :
    Prog.Guards tooLong (updateRows file serializeWithin pr columns)
      (updateRows file serializeRow pr columns) := by
  refine Prog.Guards.bind (Prog.Guards.refl _ _) fun numPages =>
    Prog.Guards.foldlM (fun count pageIndex => ?_) _ _
  refine Prog.Guards.bind (Prog.Guards.refl _ _) fun page => ?_
  refine Prog.Guards.bind (Prog.Guards.foldlM (fun s slot => ?_) _ _) fun s =>
    Prog.Guards.refl _ _
  exact updateSlot_guards file pr columns pageIndex s slot

end

theorem execInsert_guards (pr : ParseResult) :
    Prog.Guards tooLong (execInsertWith serializeWithin pr) (execInsert pr) :=
  Prog.Guards.bind (Prog.Guards.refl _ _) fun schema => insertRow_guards _ pr schema.columns

theorem execUpdate_guards (pr : ParseResult) :
    Prog.Guards tooLong (execUpdateWith serializeWithin pr) (execUpdate pr) :=
  Prog.Guards.bind (Prog.Guards.refl _ _) fun schema => updateRows_guards _ pr schema.columns

theorem orError_guards {c d : Prog Engine (Failure ExecError) Result}
    (h : Prog.Guards tooLong c d) : Prog.Guards Fault.assertion (orError c) (orError d) := by
  intro w
  rcases h w with heq | hbad
  · rw [orError, orError, heq]
    exact .inl rfl
  · refine .inr ?_
    rw [orError, show c w = (.error tooLong, (c w).2) from Prod.ext hbad rfl]

theorem executeWith_guards (pr : ParseResult) :
    Prog.Guards Fault.assertion (executeWith serializeWithin pr) (execute pr) := by
  refine orError_guards ?_
  cases pr.statement.kind with
  | insert => exact Prog.Guards.bind (execInsert_guards pr) fun _ => Prog.Guards.refl _ _
  | update => exact Prog.Guards.bind (execUpdate_guards pr) fun _ => Prog.Guards.refl _ _
  | _ => exact Prog.Guards.refl _ _

/-- Every row that the statement encodes takes at most 65535 bytes. -/
def EncodesWithin (pr : ParseResult) (w : Engine) : Prop :=
  (executeWith serializeWithin pr w).1 ≠ .error .assertion

theorem EncodesWithin.eq {pr : ParseResult} {w : Engine} (h : EncodesWithin pr w) :
    execute pr w = executeWith serializeWithin pr w := ((executeWith_guards pr).eq h).symm

/-- A statement whose check fails fails. -/
theorem orError_tooLong {c : Prog Engine (Failure ExecError) Result} {w : Engine}
    (h : (c w).1 = .error tooLong) : (orError c w).1 = .error .assertion := by
  rw [orError, show c w = (.error tooLong, (c w).2) from Prod.ext h rfl]

theorem EncodesWithin.execUpdate_ne {pr : ParseResult} {w : Engine} (h : EncodesWithin pr w)
    (hkind : pr.statement.kind = .update) :
    (execUpdateWith serializeWithin pr w).1 ≠ .error tooLong := by
  intro hbad
  refine h ?_
  rw [executeWith, hkind]
  refine orError_tooLong ?_
  dsimp only
  rw [Prog.bind_error (Prod.ext hbad rfl)]

theorem EncodesWithin.execUpdate_eq {pr : ParseResult} {w : Engine} (h : EncodesWithin pr w)
    (hkind : pr.statement.kind = .update) :
    execUpdate pr w = execUpdateWith serializeWithin pr w :=
  ((execUpdate_guards pr).eq (h.execUpdate_ne hkind)).symm

theorem EncodesWithin.execInsert_ne {pr : ParseResult} {w : Engine} (h : EncodesWithin pr w)
    (hkind : pr.statement.kind = .insert) :
    (execInsertWith serializeWithin pr w).1 ≠ .error tooLong := by
  intro hbad
  refine h ?_
  rw [executeWith, hkind]
  refine orError_tooLong ?_
  dsimp only
  rw [Prog.bind_error (Prod.ext hbad rfl)]

theorem EncodesWithin.execInsert_eq {pr : ParseResult} {w : Engine} (h : EncodesWithin pr w)
    (hkind : pr.statement.kind = .insert) :
    execInsert pr w = execInsertWith serializeWithin pr w :=
  ((execInsert_guards pr).eq (h.execInsert_ne hkind)).symm

end MicroSql
