import MicroSql.Lib.Arena
import MicroSql.Ast.Statement

/-!
# Expressions as trees

The tree that an expression node stands for, with the operands in place of their indices.
-/

namespace MicroSql

open Lib

/-- An expression with its operands. -/
inductive Tree
  | leaf (expr : Expression)
  | binary (binaryOperator : BinaryOperator) (left right : Tree)
  | unary (unaryOperator : UnaryOperator) (operand : Tree)
  deriving DecidableEq, Repr

namespace Tree

/-- The number of nodes on a longest path from the root. -/
def depth : Tree → ℕ
  | leaf _ => 1
  | binary _ left right => max left.depth right.depth + 1
  | unary _ operand => operand.depth + 1

end Tree

/-- A node without operands. -/
def Expression.isLeaf : Expression → Bool
  | binary .. => false
  | unary .. => false
  | _ => true

/-- Index `i` refers to the node `expr`. -/
def ParseResult.HasNode (pr : ParseResult) (i : ℤ) (expr : Expression) : Prop :=
  0 ≤ i ∧ pr.expressions[i.toNat]? = some expr

theorem ParseResult.HasNode.expression {pr : ParseResult} {i : ℤ} {expr : Expression}
    (h : pr.HasNode i expr) {E : Type} : (pr.expression i : Expected E Expression) = .ok expr := by
  obtain ⟨hi, hexpr⟩ := h
  rw [ParseResult.expression, if_neg (by omega), hexpr]

/-- The node `expr` of the arena stands for a tree. -/
inductive Unfolds (pr : ParseResult) : Expression → Tree → Prop
  | leaf {expr : Expression} (h : expr.isLeaf = true) : Unfolds pr expr (.leaf expr)
  | binary {op : BinaryOperator} {i j : ℤ} {left right : Expression} {l r : Tree}
      (hi : pr.HasNode i left) (hj : pr.HasNode j right) (hl : Unfolds pr left l)
      (hr : Unfolds pr right r) : Unfolds pr (.binary op i j) (.binary op l r)
  | unary {op : UnaryOperator} {i : ℤ} {operand : Expression} {t : Tree}
      (hi : pr.HasNode i operand) (ht : Unfolds pr operand t) :
      Unfolds pr (.unary op i) (.unary op t)

namespace Unfolds

variable {pr : ParseResult} {expr : Expression} {t : Tree}

/-- A node stands for one tree. -/
theorem unique {t' : Tree} (h : Unfolds pr expr t) (h' : Unfolds pr expr t') : t = t' := by
  have hnode : ∀ {i e e'}, pr.HasNode i e → pr.HasNode i e' → e = e' := fun hi hi' =>
    Option.some.inj (hi.2.symm.trans hi'.2)
  induction h generalizing t' with
  | leaf hleaf =>
    cases h' with
    | leaf => rfl
    | binary => cases hleaf
    | unary => cases hleaf
  | binary hi hj hl hr ihl ihr =>
    cases h' with
    | leaf hleaf => cases hleaf
    | binary hi' hj' hl' hr' =>
      cases hnode hi hi'
      cases hnode hj hj'
      rw [ihl hl', ihr hr']
  | unary hi ht ih =>
    cases h' with
    | leaf hleaf => cases hleaf
    | unary hi' ht' =>
      cases hnode hi hi'
      rw [ih ht']

/-- A tree of depth two or more has an operand that is one less deep. -/
theorem exists_operand (h : Unfolds pr expr t) (hdepth : 2 ≤ t.depth) :
    ∃ i operand t', pr.HasNode i operand ∧ Unfolds pr operand t' ∧ t'.depth + 1 = t.depth := by
  cases h with
  | leaf => simp [Tree.depth] at hdepth
  | @binary op i j left right l r hi hj hl hr =>
    rcases Nat.le_total r.depth l.depth with hle | hle
    · exact ⟨i, left, l, hi, hl, by rw [Tree.depth, Nat.max_eq_left hle]⟩
    · exact ⟨j, right, r, hj, hr, by rw [Tree.depth, Nat.max_eq_right hle]⟩
  | @unary op i operand t hi ht => exact ⟨i, operand, t, hi, ht, rfl⟩

/-- The operands of a node are no deeper than the arena has nodes. -/
theorem depth_le_of_hasNode {i : ℤ} (hi : pr.HasNode i expr) (h : Unfolds pr expr t) :
    t.depth ≤ pr.expressions.length := by
  have hplace : ∀ {i e}, pr.HasNode i e → ∃ k : Fin pr.expressions.length,
      pr.expressions.get k = e := by
    rintro i e ⟨-, he⟩
    obtain ⟨hlt, hget⟩ := List.getElem?_eq_some_iff.1 he
    exact ⟨⟨i.toNat, hlt⟩, hget⟩
  have hdown : ∀ (k : Fin pr.expressions.length) (t : Tree),
      Unfolds pr (pr.expressions.get k) t → 2 ≤ t.depth →
      ∃ k' t', Unfolds pr (pr.expressions.get k') t' ∧ t'.depth + 1 = t.depth := by
    intro k t h hdepth
    obtain ⟨i, operand, t', hi, ht, heq⟩ := h.exists_operand hdepth
    obtain ⟨k', rfl⟩ := hplace hi
    exact ⟨k', t', ht, heq⟩
  obtain ⟨k, rfl⟩ := hplace hi
  have hcard := depth_le_card hdown (fun k t t' h h' => unique h h') h
  rwa [Fintype.card_fin] at hcard

/-- Any node is at most one deeper. -/
theorem depth_le (h : Unfolds pr expr t) : t.depth ≤ pr.expressions.length + 1 := by
  by_cases hdepth : 2 ≤ t.depth
  · obtain ⟨i, operand, t', hi, ht, heq⟩ := h.exists_operand hdepth
    have := ht.depth_le_of_hasNode hi
    omega
  · omega

end Unfolds

namespace ParseResult

variable {pr pr' : ParseResult} {i : ℤ} {t : Tree}

theorem HasNode.mono {expr : Expression} (hsub : pr.expressions <+: pr'.expressions)
    (h : pr.HasNode i expr) : pr'.HasNode i expr := by
  obtain ⟨rest, hrest⟩ := hsub
  obtain ⟨hlt, -⟩ := List.getElem?_eq_some_iff.1 h.2
  refine ⟨h.1, ?_⟩
  rw [← hrest, List.getElem?_append_left hlt]
  exact h.2

/-- Index `i` refers to a node that stands for the tree `t`. -/
def Refers (pr : ParseResult) (i : ℤ) (t : Tree) : Prop :=
  ∃ expr, pr.HasNode i expr ∧ Unfolds pr expr t

end ParseResult

/-- A node keeps its tree when the arena grows. -/
theorem Unfolds.mono {pr pr' : ParseResult} {expr : Expression} {t : Tree}
    (hsub : pr.expressions <+: pr'.expressions) (h : Unfolds pr expr t) :
    Unfolds pr' expr t := by
  induction h with
  | leaf hleaf => exact .leaf hleaf
  | binary hi hj _ _ ihl ihr => exact .binary (hi.mono hsub) (hj.mono hsub) ihl ihr
  | unary hi _ ih => exact .unary (hi.mono hsub) ih

namespace ParseResult.Refers

variable {pr pr' : ParseResult} {i j : ℤ} {t t' : Tree}

theorem mono (hsub : pr.expressions <+: pr'.expressions) (h : pr.Refers i t) :
    pr'.Refers i t := by
  obtain ⟨expr, hi, ht⟩ := h
  exact ⟨expr, hi.mono hsub, ht.mono hsub⟩

theorem nonneg (h : pr.Refers i t) : 0 ≤ i := by
  obtain ⟨_, hi, -⟩ := h
  exact hi.1

theorem lt_length (h : pr.Refers i t) : i < pr.expressions.length := by
  obtain ⟨_, hi, -⟩ := h
  obtain ⟨hlt, -⟩ := List.getElem?_eq_some_iff.1 hi.2
  have := hi.1
  omega

theorem unique (h : pr.Refers i t) (h' : pr.Refers i t') : t = t' := by
  obtain ⟨expr, hi, ht⟩ := h
  obtain ⟨expr', hi', ht'⟩ := h'
  cases Option.some.inj (hi.2.symm.trans hi'.2)
  exact ht.unique ht'

end ParseResult.Refers

end MicroSql
