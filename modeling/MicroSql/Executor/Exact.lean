import MicroSql.Executor.Trees

/-!
# Arithmetic on integers

An expression of integer literals, columns, the four operations and the sign has a value in ℤ,
whatever its size.  `evalExpr` computes on `int64_t` and asks only whether a divisor is zero, so
it finds that value as long as no operation that it reaches leaves the range.
-/

namespace MicroSql

open Lib

/-- The range of `int64_t`. -/
def IsInt64 (n : ℤ) : Prop := -2 ^ 63 ≤ n ∧ n < 2 ^ 63

instance (n : ℤ) : Decidable (IsInt64 n) := inferInstanceAs (Decidable (_ ∧ _))

/-- The operations of arithmetic. -/
inductive Arithmetic
  | add | subtract | multiply | divide
  deriving DecidableEq, Repr

namespace Arithmetic

/-- The operation as an operator of the syntax tree. -/
def binaryOperator : Arithmetic → BinaryOperator
  | add => .add
  | subtract => .subtract
  | multiply => .multiply
  | divide => .divide

/-- The result in ℤ.  Division truncates towards zero, and there is none by zero. -/
def exact (a b : ℤ) : Arithmetic → Option ℤ
  | add => some (a + b)
  | subtract => some (a - b)
  | multiply => some (a * b)
  | divide => if b = 0 then none else some (a.tdiv b)

theorem isArithmetic_binaryOperator (op : Arithmetic) : op.binaryOperator.isArithmetic = true := by
  cases op <;> rfl

/-- `applyArithmetic` has the exact result if there is one and it is in the range. -/
theorem applyArithmetic_int (op : Arithmetic) (a b : Int64) :
    applyArithmetic (.int a) (.int b) op.binaryOperator =
      match op.exact a.toInt b.toInt with
      | none => .error (.error .divisionByZero)
      | some n => int64Result n := by
  have hzero : b = 0 ↔ b.toInt = 0 := by rw [← Int64.toInt_inj, Int64.toInt_zero]
  cases op with
  | add => rfl
  | subtract => rfl
  | multiply => rfl
  | divide =>
    rw [binaryOperator, applyArithmetic, exact]
    by_cases hb : b = 0
    · rw [if_pos hb, if_pos (hzero.1 hb)]
    · rw [if_neg hb, if_neg (mt hzero.2 hb)]

end Arithmetic

theorem int64Result_eq_ok {n : ℤ} (h : IsInt64 n) :
    int64Result n = .ok (.int (Int64.ofInt n)) := if_pos h

theorem int64Result_eq_fault {n : ℤ} (h : ¬IsInt64 n) :
    int64Result n = .error (.fault .signedOverflow) := if_neg h

/-- A number in the range is kept by `int64_t`. -/
theorem IsInt64.toInt_ofInt {n : ℤ} (h : IsInt64 n) : (Int64.ofInt n).toInt = n :=
  Int64.toInt_ofInt_of_le h.1 h.2

/-- An expression of integers. -/
inductive IntTree
  | literal (n : Int64)
  | column (tablePrefix name : Str)
  | binary (op : Arithmetic) (left right : IntTree)
  | negate (operand : IntTree)
  deriving DecidableEq, Repr

namespace IntTree

variable (ns : List Int64) (columns : List Str)

/-- The nodes of the expression. -/
def toTree : IntTree → Tree
  | literal n => .leaf (.literalInt n)
  | column tablePrefix name => .leaf (.columnRef tablePrefix name)
  | binary op left right => .binary op.binaryOperator left.toTree right.toTree
  | negate operand => .unary .negate operand.toTree

/-- The value in ℤ on a row of integers, if there is one: there are no columns with the name of a
table before them, and no divisions by zero. -/
def exact : IntTree → Option ℤ
  | literal n => some n.toInt
  | column tablePrefix name =>
    if tablePrefix = [] then (columns.idxOf? name).bind fun i => (ns[i]?).map Int64.toInt else none
  | binary op left right => do op.exact (← left.exact) (← right.exact)
  | negate operand => do return -(← operand.exact)

/-- The operations that are reached from the left have their exact results, if any, in the range
of `int64_t`.  The right operand of an operation is reached if the left one has a value. -/
def Fits : IntTree → Prop
  | literal _ => True
  | column _ _ => True
  | binary op left right => left.Fits ∧ ((left.exact ns columns).isSome = true → right.Fits) ∧
      ∀ n ∈ (binary op left right).exact ns columns, IsInt64 n
  | negate operand => operand.Fits ∧ ∀ n ∈ (negate operand).exact ns columns, IsInt64 n

variable {ns columns}

/-- A column of a row of integers is an integer. -/
theorem columnValue_int (name : Str) :
    columnValue (ns.map .int) columns name =
      match (columns.idxOf? name).bind (ns[·]?) with
      | none => .error (.error .errorGettingData)
      | some n => .ok (.int n) := by
  unfold columnValue
  cases columns.idxOf? name with
  | none => rfl
  | some i =>
    dsimp only [Option.bind_some]
    rw [List.getElem?_map]
    cases ns[i]? with
    | none => rfl
    | some n => rfl

/-- What the evaluation of an expression comes to. -/
inductive Evaluates (result : Expected ExecError Value) : Option ℤ → Prop
  | value {n : ℤ} (h : IsInt64 n) (hok : result = .ok (.int (Int64.ofInt n))) :
      Evaluates result (some n)
  | rejected (e : ExecError) (herror : result = .error (.error e)) : Evaluates result none

theorem Evaluates.int64 {result : Expected ExecError Value} {n : Int64}
    (h : result = .ok (.int n)) : Evaluates result (some n.toInt) :=
  .value ⟨n.le_toInt, n.toInt_lt⟩ (by rw [h, Int64.ofInt_toInt])

theorem evaluates_column (tablePrefix name : Str) :
    Evaluates ((column tablePrefix name).toTree.evalExpr (ns.map .int) columns)
      ((column tablePrefix name).exact ns columns) := by
  rw [toTree, Tree.evalExpr, evalLeaf, exact]
  by_cases hprefix : tablePrefix = []
  · rw [if_pos hprefix, if_pos hprefix, columnValue_int]
    cases columns.idxOf? name with
    | none => exact .rejected _ rfl
    | some i =>
      rw [Option.bind_some, Option.bind_some]
      cases ns[i]? with
      | none => exact .rejected _ rfl
      | some n => exact .int64 rfl
  · rw [if_neg hprefix, if_neg hprefix]
    exact .rejected _ rfl

/-- The result of an operation whose exact result is in the range. -/
theorem evaluates_int64Result {n : ℤ} (h : IsInt64 n) : Evaluates (int64Result n) (some n) :=
  .value h (int64Result_eq_ok h)

/-- Without an overflow the evaluation finds the exact value, if there is one. -/
theorem Fits.evaluates {t : IntTree} (h : t.Fits ns columns) :
    Evaluates (t.toTree.evalExpr (ns.map .int) columns) (t.exact ns columns) := by
  induction t with
  | literal n => exact .int64 rfl
  | column tablePrefix name => exact evaluates_column tablePrefix name
  | binary op left right ihl ihr =>
    obtain ⟨hleft, hright, hrange⟩ := h
    rw [exact] at hrange ⊢
    rw [toTree, Tree.evalExpr]
    generalize left.exact ns columns = leftExact at *
    cases ihl hleft with
    | rejected e herror =>
      rw [herror]
      exact .rejected e rfl
    | @value a ha hok =>
      rw [hok]
      generalize right.exact ns columns = rightExact at *
      cases ihr (hright rfl) with
      | rejected e herror =>
        rw [ok_bind, herror]
        exact .rejected e rfl
      | @value b hb hok' =>
        rw [ok_bind, hok', ok_bind, if_pos op.isArithmetic_binaryOperator,
          op.applyArithmetic_int, ha.toInt_ofInt, hb.toInt_ofInt]
        change Evaluates _ (op.exact a b)
        have hrange' : ∀ n ∈ op.exact a b, IsInt64 n := hrange
        cases hexact : op.exact a b with
        | none => exact .rejected _ rfl
        | some n => exact evaluates_int64Result (hrange' n hexact)
  | negate operand ih =>
    obtain ⟨hoperand, hrange⟩ := h
    rw [exact] at hrange ⊢
    rw [toTree, Tree.evalExpr]
    generalize operand.exact ns columns = operandExact at *
    cases ih hoperand with
    | rejected e herror =>
      rw [herror]
      exact .rejected e rfl
    | @value a ha hok =>
      rw [hok, ok_bind]
      change Evaluates (int64Result (-(Int64.ofInt a).toInt)) _
      rw [ha.toInt_ofInt]
      exact evaluates_int64Result (hrange (-a) rfl)

/-- An operation that leaves the range ends the evaluation: nothing catches it. -/
theorem evalExpr_of_not_fits {t : IntTree} (h : ¬t.Fits ns columns) :
    t.toTree.evalExpr (ns.map .int) columns = .error (.fault .signedOverflow) := by
  induction t with
  | literal n => exact absurd trivial h
  | column tablePrefix name => exact absurd trivial h
  | binary op left right ihl ihr =>
    rw [toTree, Tree.evalExpr]
    by_cases hleft : left.Fits ns columns
    swap
    · rw [ihl hleft, error_bind]
    have hvalue := hleft.evaluates
    rw [Fits, exact] at h
    generalize left.exact ns columns = leftExact at *
    cases hvalue with
    | rejected e herror => exact absurd ⟨hleft, by simp, by simp⟩ h
    | @value a ha hok =>
      rw [hok, ok_bind]
      by_cases hright : right.Fits ns columns
      swap
      · rw [ihr hright, error_bind]
      have hvalue := hright.evaluates
      generalize right.exact ns columns = rightExact at *
      cases hvalue with
      | rejected e herror => exact absurd ⟨hleft, fun _ => hright, by simp⟩ h
      | @value b hb hok' =>
        rw [hok', ok_bind, if_pos op.isArithmetic_binaryOperator, op.applyArithmetic_int,
          ha.toInt_ofInt, hb.toInt_ofInt]
        -- both operands have values, so it is this operation that leaves the range
        have hrange : ¬∀ n ∈ op.exact a b, IsInt64 n := fun hrange =>
          h ⟨hleft, fun _ => hright, hrange⟩
        cases hexact : op.exact a b with
        | none => exact absurd (by simp [hexact]) hrange
        | some n =>
          refine int64Result_eq_fault fun hn => hrange fun m hm => ?_
          obtain rfl : n = m := Option.some.inj (hexact.symm.trans hm)
          exact hn
  | negate operand ih =>
    rw [toTree, Tree.evalExpr]
    by_cases hoperand : operand.Fits ns columns
    swap
    · rw [ih hoperand, error_bind]
    have hvalue := hoperand.evaluates
    rw [Fits, exact] at h
    generalize operand.exact ns columns = operandExact at *
    cases hvalue with
    | rejected e herror => exact absurd ⟨hoperand, by simp⟩ h
    | @value a ha hok =>
      rw [hok, ok_bind]
      change int64Result (-(Int64.ofInt a).toInt) = _
      rw [ha.toInt_ofInt]
      refine int64Result_eq_fault fun hn => h ⟨hoperand, fun m hm => ?_⟩
      obtain rfl : -a = m := Option.some.inj hm
      exact hn

end IntTree

/-- The result is the exact value or an error that the caller sees, and no operation on the way
to it has overflowed. -/
def ExactOrRejected (value : Option ℤ) (result : Expected ExecError Value) : Prop :=
  (∃ n : Int64, result = .ok (.int n) ∧ value = some n.toInt) ∨ ∃ e, result = .error (.error e)

theorem IntTree.Evaluates.exactOrRejected {value : Option ℤ} {result : Expected ExecError Value}
    (h : Evaluates result value) : ExactOrRejected value result := by
  cases h with
  | @value n hn hok => exact .inl ⟨Int64.ofInt n, hok, by rw [hn.toInt_ofInt]⟩
  | rejected e herror => exact .inr ⟨e, herror⟩

/-- **Integer expressions are exact or rejected** as long as no operation that is reached leaves
the range of `int64_t`. -/
theorem evalExpr_exactOrRejected_iff {pr : ParseResult} {expr : Expression} {t : IntTree}
    (h : Unfolds pr expr t.toTree) (ns : List Int64) (columns : List Str) :
    ExactOrRejected (t.exact ns columns) (evalExpr pr (ns.map .int) columns expr) ↔
      t.Fits ns columns := by
  rw [h.evalExpr]
  constructor
  · intro hexact
    by_contra hfits
    rw [IntTree.evalExpr_of_not_fits hfits] at hexact
    rcases hexact with ⟨n, hn, -⟩ | ⟨e, he⟩
    · cases hn
    · cases he
  · intro hfits
    exact hfits.evaluates.exactOrRejected

/-- The arena of `UPDATE t SET a = -(a / b);`. -/
def quotientParsed : ParseResult where
  expressions := [.columnRef [] (str "a"), .columnRef [] (str "b"), .binary .divide 0 1,
    .unary .negate 2]
  statement := { kind := .update, tableName := str "t", assignments := [(str "a", 3)] }

theorem evalExpr_exactOrRejected_quotient :
    ExactOrRejected (some 3) (evalExpr quotientParsed ([7, -2].map .int) [str "a", str "b"]
      (.unary .negate 2)) := by
  have hunfolds : Unfolds quotientParsed (.unary .negate 2)
      (IntTree.negate (.binary .divide (.column [] (str "a")) (.column [] (str "b")))).toTree :=
    .unary ⟨by decide, rfl⟩ (.binary ⟨by decide, rfl⟩ ⟨by decide, rfl⟩ (.leaf rfl) (.leaf rfl))
  refine (evalExpr_exactOrRejected_iff hunfolds [7, -2] [str "a", str "b"]).2 ?_
  exact ⟨⟨trivial, fun _ => trivial, by decide⟩, by decide⟩

/-- `2147483647 * 2147483647 * 3`, whose second product is beyond the range. -/
def tooLarge : IntTree :=
  .binary .multiply (.binary .multiply (.literal 2147483647) (.literal 2147483647)) (.literal 3)

/-- The arena of `UPDATE t SET a = 2147483647 * 2147483647 * 3;`. -/
def tooLargeParsed : ParseResult where
  expressions := [.literalInt 2147483647, .literalInt 2147483647, .binary .multiply 0 1,
    .literalInt 3, .binary .multiply 2 3]
  statement := { kind := .update, tableName := str "t", assignments := [(str "a", 4)] }

theorem tooLarge_unfolds : Unfolds tooLargeParsed (.binary .multiply 2 3) tooLarge.toTree := by
  refine .binary ⟨by decide, rfl⟩ ⟨by decide, rfl⟩ ?_ (.leaf rfl)
  exact .binary ⟨by decide, rfl⟩ ⟨by decide, rfl⟩ (.leaf rfl) (.leaf rfl)

theorem tooLarge_not_fits : ¬tooLarge.Fits [] [] := by
  rintro ⟨-, -, hrange⟩
  exact absurd (hrange _ rfl) (by decide)

/-- Nothing rejects a product that is too large. -/
theorem evalExpr_overflows :
    ¬ExactOrRejected (tooLarge.exact [] [])
      (evalExpr tooLargeParsed [] [] (.binary .multiply 2 3)) := by
  have hfault := IntTree.evalExpr_of_not_fits tooLarge_not_fits
  rw [List.map_nil] at hfault
  rw [tooLarge_unfolds.evalExpr, hfault]
  rintro (⟨n, hn, -⟩ | ⟨e, he⟩)
  · cases hn
  · cases he

end MicroSql
