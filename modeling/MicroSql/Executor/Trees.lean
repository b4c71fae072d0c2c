import MicroSql.Ast.Tree
import MicroSql.Executor.Helpers

/-!
# The evaluators on trees

`evalExpr` and `evalWhere` follow indices into the arena; on the tree that a node stands for
they are structural recursions, and the bound on their depth does not matter.
-/

namespace MicroSql

open Lib

variable {pr : ParseResult} {row : Row} {columns : List Str}

/-- The value of a node without operands. -/
def evalLeaf (row : Row) (columns : List Str) : Expression → Expected ExecError Value
  | .literalBool b => .ok (.bool b)
  | .literalInt n => .ok (.int n)
  | .literalFloat d => .ok (.float d)
  | .literalText s => .ok (.text s)
  | .literalNull _ => .ok .null
  | .columnRef tablePrefix name =>
    if tablePrefix = [] then columnValue row columns name
    else .error (.error .notImplemented)
  | _ => .error (.error .invalidExpression)

namespace Tree

/-- `evalExpr` on a tree. -/
def evalExpr (row : Row) (columns : List Str) : Tree → Expected ExecError Value
  | leaf expr => evalLeaf row columns expr
  | binary op left right => do
    let a ← left.evalExpr row columns
    let b ← right.evalExpr row columns
    if op.isArithmetic then applyArithmetic a b op else .error (.error .invalidExpression)
  | unary op operand => do
    let value ← operand.evalExpr row columns
    match op with
    | .negate => flipSignValue value
    | .not => flipBoolValue value

/-- `evalWhere` on a tree. -/
def evalWhere (row : Row) (columns : List Str) : Tree → Expected ExecError Bool
  | binary op left right =>
    match op with
    | .and => do
      let a ← left.evalWhere row columns
      let b ← right.evalWhere row columns
      return a && b
    | .or => do
      let a ← left.evalWhere row columns
      let b ← right.evalWhere row columns
      return a || b
    | op => do
      let a ← left.evalExpr row columns
      let b ← right.evalExpr row columns
      compareWhere op a b
  | _ => .ok true

end Tree

namespace Unfolds

variable {expr : Expression} {t : Tree}

theorem evalExprFuel (h : Unfolds pr expr t) {fuel : ℕ} (hfuel : t.depth ≤ fuel) :
    evalExprFuel pr row columns fuel expr = t.evalExpr row columns := by
  induction h generalizing fuel with
  | @leaf expr hleaf =>
    obtain ⟨n, rfl⟩ : ∃ n, fuel = n + 1 := ⟨fuel - 1, by rw [Tree.depth] at hfuel; omega⟩
    cases expr with
    | binary => cases hleaf
    | unary => cases hleaf
    | _ => rfl
  | @binary op i j left right l r hi hj hl hr ihl ihr =>
    rw [Tree.depth] at hfuel
    obtain ⟨n, rfl⟩ : ∃ n, fuel = n + 1 := ⟨fuel - 1, by omega⟩
    rw [MicroSql.evalExprFuel, Tree.evalExpr, hi.expression, hj.expression, ok_bind,
      ihl (by omega)]
    rcases l.evalExpr row columns with e | a
    · rfl
    rw [ok_bind, ok_bind, ok_bind, ihr (by omega)]
  | @unary op i operand t hi ht ih =>
    rw [Tree.depth] at hfuel
    obtain ⟨n, rfl⟩ : ∃ n, fuel = n + 1 := ⟨fuel - 1, by omega⟩
    have hvalue := ih (show t.depth ≤ n by omega)
    cases op with
    | negate => simp only [MicroSql.evalExprFuel, Tree.evalExpr, hi.expression, ok_bind, hvalue]
    | not => simp only [MicroSql.evalExprFuel, Tree.evalExpr, hi.expression, ok_bind, hvalue]

/-- `evalExpr` on the arena is `evalExpr` on the tree. -/
theorem evalExpr (h : Unfolds pr expr t) :
    evalExpr pr row columns expr = t.evalExpr row columns :=
  h.evalExprFuel h.depth_le

theorem evalWhereFuel (h : Unfolds pr expr t) {fuel : ℕ} (hfuel : t.depth ≤ fuel) :
    evalWhereFuel pr row columns fuel expr = t.evalWhere row columns := by
  induction h generalizing fuel with
  | @leaf expr hleaf =>
    obtain ⟨n, rfl⟩ : ∃ n, fuel = n + 1 := ⟨fuel - 1, by rw [Tree.depth] at hfuel; omega⟩
    cases expr with
    | binary => cases hleaf
    | _ => rfl
  | @binary op i j left right l r hi hj hl hr ihl ihr =>
    rw [Tree.depth] at hfuel
    obtain ⟨n, rfl⟩ : ∃ n, fuel = n + 1 := ⟨fuel - 1, by omega⟩
    have hleft := ihl (show l.depth ≤ n by omega)
    have hright := ihr (show r.depth ≤ n by omega)
    cases op with
    | and =>
      simp only [MicroSql.evalWhereFuel, Tree.evalWhere, hi.expression, hj.expression, ok_bind,
        hleft, hright]
    | or =>
      simp only [MicroSql.evalWhereFuel, Tree.evalWhere, hi.expression, hj.expression, ok_bind,
        hleft, hright]
    | _ =>
      simp only [MicroSql.evalWhereFuel, Tree.evalWhere, hi.expression, hj.expression, ok_bind,
        hl.evalExpr, hr.evalExpr]
  | @unary op i operand t hi ht ih =>
    obtain ⟨n, rfl⟩ : ∃ n, fuel = n + 1 := ⟨fuel - 1, by rw [Tree.depth] at hfuel; omega⟩
    rfl

/-- `evalWhere` on the arena is `evalWhere` on the tree. -/
theorem evalWhere (h : Unfolds pr expr t) :
    evalWhere pr row columns expr = t.evalWhere row columns :=
  h.evalWhereFuel h.depth_le

end Unfolds

end MicroSql
