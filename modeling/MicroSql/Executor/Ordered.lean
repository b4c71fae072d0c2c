import MicroSql.Executor.Trees
import MicroSql.Lib.Forest

/-!
# Ordered arenas

An arena is ordered when each expression comes after its operands and is an operand of one other
at most.  Every index then stands for a tree, and both evaluators compute the value of that tree:
the recursion ends because the indices decrease.
-/

namespace MicroSql

open Lib

/-- The indices of the operands. -/
def Expression.operands : Expression → List ℤ
  | .binary _ leftIndex rightIndex => [leftIndex, rightIndex]
  | .unary _ operandIndex => [operandIndex]
  | _ => []

/-- The arena is topologically ordered, and a forest. -/
structure ParseResult.Ordered (pr : ParseResult) : Prop where
  binary : ∀ (i : ℕ) op l r, pr.expressions[i]? = some (.binary op l r) →
    (0 ≤ l ∧ l < i) ∧ (0 ≤ r ∧ r < i) ∧ l ≠ r
  unary : ∀ (i : ℕ) op j, pr.expressions[i]? = some (.unary op j) → 0 ≤ j ∧ j < i
  oneParent : ∀ (i k : ℕ) x y j, pr.expressions[i]? = some x → pr.expressions[k]? = some y →
    j ∈ x.operands → j ∈ y.operands → i = k

theorem ParseResult.ordered_of_forest {pr : ParseResult}
    (h : Forest Expression.operands pr.expressions) : pr.Ordered where
  binary := by
    intro i op l r hi
    have hnodup : [l, r].Nodup := h.nodup_kids (List.mem_of_getElem? hi)
    refine ⟨h.below i _ hi l (by simp [Expression.operands]),
      h.below i _ hi r (by simp [Expression.operands]), ?_⟩
    rintro rfl
    simp at hnodup
  unary := fun i op j hi => h.below i _ hi j (by simp [Expression.operands])
  oneParent := fun _ _ _ _ _ hi hk hx hy => h.parent_unique hi hk hx hy

/-! ### Trees -/

namespace ParseResult.Ordered

variable {pr : ParseResult}

/-- An index below that of a node is one of a node. -/
theorem hasNode_of_lt {i : ℕ} {expr : Expression} (hi : pr.expressions[i]? = some expr) {j : ℤ}
    (hj : 0 ≤ j ∧ j < i) : ∃ operand, pr.HasNode j operand := by
  obtain ⟨hlt, -⟩ := List.getElem?_eq_some_iff.1 hi
  have hlt' : j.toNat < pr.expressions.length := by omega
  exact ⟨_, hj.1, List.getElem?_eq_getElem hlt'⟩

/-- Every node stands for a tree, which is no deeper than there are nodes up to it. -/
theorem exists_tree (h : pr.Ordered) (i : ℕ) :
    ∀ expr, pr.expressions[i]? = some expr → ∃ t, Unfolds pr expr t ∧ t.depth ≤ i + 1 := by
  induction i using Nat.strong_induction_on with
  | _ i ih =>
    have hoperand : ∀ {expr}, pr.expressions[i]? = some expr → ∀ j : ℤ, 0 ≤ j ∧ j < i →
        ∃ operand t, pr.HasNode j operand ∧ Unfolds pr operand t ∧ t.depth ≤ i := by
      intro expr hi j hj
      obtain ⟨operand, hnode⟩ := hasNode_of_lt hi hj
      obtain ⟨t, ht, hdepth⟩ := ih j.toNat (by omega) operand hnode.2
      exact ⟨operand, t, hnode, ht, by omega⟩
    intro expr hi
    cases expr with
    | binary op l r =>
      obtain ⟨hl, hr, -⟩ := h.binary i op l r hi
      obtain ⟨left, lt, hleft, hlt, hldepth⟩ := hoperand hi l hl
      obtain ⟨right, rt, hright, hrt, hrdepth⟩ := hoperand hi r hr
      refine ⟨.binary op lt rt, .binary hleft hright hlt hrt, ?_⟩
      rw [Tree.depth]
      omega
    | unary op j =>
      obtain ⟨operand, t, hnode, ht, hdepth⟩ := hoperand hi j (h.unary i op j hi)
      refine ⟨.unary op t, .unary hnode ht, ?_⟩
      rw [Tree.depth]
      omega
    | _ => exact ⟨.leaf _, .leaf rfl, Nat.le_add_left 1 i⟩

end ParseResult.Ordered

/-! ### Faults of the evaluators -/

/-- The only fault is an overflow of signed arithmetic. -/
def FaultsByOverflow {E α : Type} (x : Expected E α) : Prop :=
  ∀ f, x = .error (.fault f) → f = .signedOverflow

namespace FaultsByOverflow

variable {E α β : Type}

theorem ok (a : α) : FaultsByOverflow (.ok a : Expected E α) := nofun

theorem error (e : E) : FaultsByOverflow (.error (.error e) : Expected E α) := nofun

theorem bind {x : Expected E α} {k : α → Expected E β} (hx : FaultsByOverflow x)
    (hk : ∀ a, FaultsByOverflow (k a)) : FaultsByOverflow (x >>= k) := by
  rcases x with e | a
  · intro f h
    cases h
    exact hx f rfl
  · exact hk a

theorem ite {p : Prop} [Decidable p] {x y : Expected E α} (hx : FaultsByOverflow x)
    (hy : FaultsByOverflow y) : FaultsByOverflow (if p then x else y) := by
  split
  · exact hx
  · exact hy

end FaultsByOverflow

section Faults

open FaultsByOverflow

theorem int64Result_faults (n : ℤ) : FaultsByOverflow (int64Result n) :=
  .ite (.ok _) fun f h => by cases h; rfl

theorem applyArithmetic_faults (a b : Value) (op : BinaryOperator) :
    FaultsByOverflow (applyArithmetic a b op) := by
  unfold applyArithmetic
  split
  case h_4 => exact .ite (.error _) (int64Result_faults _)
  all_goals
    first
    | exact int64Result_faults _
    | exact .ok _
    | exact .error _

theorem columnValue_faults (row : Row) (columns : List Str) (name : Str) :
    FaultsByOverflow (columnValue row columns name) := by
  unfold columnValue
  split
  · exact .error _
  · split
    · exact .error _
    · exact .ok _

theorem compareValues_faults (a b : Value) : FaultsByOverflow (compareValues a b) := by
  unfold compareValues
  split <;> first | exact .ok _ | exact .error _

theorem compareWhere_faults (op : BinaryOperator) (a b : Value) :
    FaultsByOverflow (compareWhere op a b) := by
  have hcompare : ∀ p : ℤ → Bool, FaultsByOverflow (do return p (← compareValues a b)) :=
    fun p => .bind (compareValues_faults a b) fun _ => .ok _
  cases op with
  | lessThan | lessThanOrEqual | greaterThan | greaterThanOrEqual => exact hcompare _
  | equal | notEqual => exact .ok _
  | is | isNot => exact .ite (.ok _) (.ite (.ok _) (.ok _))
  | _ => exact .error _

namespace Tree

variable (row : Row) (columns : List Str)

theorem evalExpr_faults (t : Tree) : FaultsByOverflow (t.evalExpr row columns) := by
  induction t with
  | leaf expr =>
    cases expr with
    | columnRef tablePrefix name => exact .ite (columnValue_faults _ _ _) (.error _)
    | literalInt | literalFloat | literalText | literalBool | literalNull => exact .ok _
    | _ => exact .error _
  | binary op l r ihl ihr =>
    exact .bind ihl fun _ => .bind ihr fun _ => .ite (applyArithmetic_faults _ _ _) (.error _)
  | unary op t ih =>
    refine .bind ih fun v => ?_
    cases op with
    | negate =>
      cases v with
      | int => exact int64Result_faults _
      | float => exact .ok _
      | _ => exact .error _
    | not =>
      cases v with
      | bool => exact .ok _
      | _ => exact .error _

theorem evalWhere_faults (t : Tree) : FaultsByOverflow (t.evalWhere row columns) := by
  induction t with
  | binary op l r ihl ihr =>
    cases op with
    | and | or => exact .bind ihl fun _ => .bind ihr fun _ => .ok _
    | _ =>
      exact .bind (evalExpr_faults row columns l) fun _ =>
        .bind (evalExpr_faults row columns r) fun _ => compareWhere_faults _ _ _
  | _ => exact .ok _

end Tree

end Faults

/-! ### The evaluators -/

/-- Both evaluators compute the value of the tree at every index, for every bound on the depth
of the recursion above the index, and never read outside the arena. -/
def ParseResult.EvaluatesTrees (pr : ParseResult) : Prop :=
  ∀ (i : ℕ) expr, pr.expressions[i]? = some expr → ∃ t, Unfolds pr expr t ∧
    ∀ row columns,
      (∀ fuel, i < fuel → evalExprFuel pr row columns fuel expr = t.evalExpr row columns) ∧
      (∀ fuel, i < fuel → evalWhereFuel pr row columns fuel expr = t.evalWhere row columns) ∧
      evalExpr pr row columns expr = t.evalExpr row columns ∧
      evalWhere pr row columns expr = t.evalWhere row columns ∧
      FaultsByOverflow (evalExpr pr row columns expr) ∧
      FaultsByOverflow (evalWhere pr row columns expr)

theorem ParseResult.Ordered.evaluatesTrees {pr : ParseResult} (h : pr.Ordered) :
    pr.EvaluatesTrees := by
  intro i expr hi
  obtain ⟨t, ht, hdepth⟩ := h.exists_tree i expr hi
  refine ⟨t, ht, fun row columns => ⟨fun fuel hfuel => ht.evalExprFuel (by omega),
    fun fuel hfuel => ht.evalWhereFuel (by omega), ht.evalExpr, ht.evalWhere, ?_, ?_⟩⟩
  · rw [ht.evalExpr]
    exact t.evalExpr_faults row columns
  · rw [ht.evalWhere]
    exact t.evalWhere_faults row columns

end MicroSql
