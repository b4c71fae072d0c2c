import MicroSql.Executor.Trees

/-!
# The truth of conditions

What a boolean expression means on a row: comparisons of values of one type, combined by
AND, OR and NOT.  `evalWhere` decides AND and OR, and comparisons of expressions without
boolean operators; everything else that is a condition passes.
-/

namespace MicroSql

open Lib

/-! ### The meaning -/

/-- Whether two values of one type are equal. -/
def sameValue : Value → Value → Option Bool
  | .int a, .int b => some (decide (a = b))
  | .float a, .float b => some (a.eq b)
  | .text a, .text b => some (decide (a = b))
  | .bool a, .bool b => some (decide (a = b))
  | _, _ => none

/-- Whether a value is less than another one of its type.  FALSE is less than TRUE, and a NaN
is not less than anything, nor is anything less than it. -/
def lessValue : Value → Value → Option Bool
  | .int a, .int b => some (decide (a < b))
  | .float a, .float b => some (a.lt b)
  | .text a, .text b => some (decide (a < b))
  | .bool a, .bool b => some (!a && b)
  | _, _ => none

/-- What a comparison says about two values; nothing if they have different types or if one
of them is NULL. -/
def compares (op : BinaryOperator) (a b : Value) : Option Bool :=
  match op with
  | .equal => sameValue a b
  | .notEqual => do return !(← sameValue a b)
  | .lessThan => lessValue a b
  | .lessThanOrEqual => do return (← lessValue a b) || (← sameValue a b)
  | .greaterThan => lessValue b a
  | .greaterThanOrEqual => do return (← lessValue b a) || (← sameValue a b)
  | _ => none

/-- Apply a connective to two truth values. -/
def connect (f : Bool → Bool → Bool) : Value → Value → Option Value
  | .bool a, .bool b => some (.bool (f a b))
  | _, _ => none

/-- The value of a binary expression. -/
def combine (op : BinaryOperator) (a b : Value) : Option Value :=
  match op with
  | .and => connect (· && ·) a b
  | .or => connect (· || ·) a b
  | .add | .subtract | .multiply | .divide => (applyArithmetic a b op).toOption
  | op => (compares op a b).map .bool

/-- The value of a node without operands on a row of table `table`, unless it is NULL.  A column
may be qualified by the name of the table. -/
def leafValue (table : Str) (row : Row) (columns : List Str) : Expression → Option Value
  | .literalBool b => some (.bool b)
  | .literalInt n => some (.int n)
  | .literalFloat d => some (.float d)
  | .literalText s => some (.text s)
  | .columnRef tablePrefix name =>
    if tablePrefix = [] ∨ tablePrefix = table then
      (columnValue row columns name).toOption.filter (· ≠ .null)
    else none
  | _ => none

namespace Tree

/-- The value of an expression on a row, if it has one that is not NULL. -/
def value (table : Str) (row : Row) (columns : List Str) : Tree → Option Value
  | leaf expr => leafValue table row columns expr
  | binary op left right => do
    combine op (← left.value table row columns) (← right.value table row columns)
  | unary op operand => do
    let v ← operand.value table row columns
    match op with
    | .negate => (flipSignValue v).toOption
    | .not => (flipBoolValue v).toOption

/-- The truth value of a condition on a row, if it has one. -/
def truth (table : Str) (row : Row) (columns : List Str) (t : Tree) : Option Bool :=
  match t.value table row columns with
  | some (.bool b) => some b
  | _ => none

end Tree

/-! ### What `evalWhere` sees of it -/

/-- The operators that ask for the order of their operands. -/
def BinaryOperator.isOrder : BinaryOperator → Bool
  | .lessThan | .lessThanOrEqual | .greaterThan | .greaterThanOrEqual => true
  | _ => false

/-- The operators that compare their operands, without IS and IS NOT. -/
def BinaryOperator.isComparison : BinaryOperator → Bool
  | .equal | .notEqual | .lessThan | .lessThanOrEqual | .greaterThan | .greaterThanOrEqual => true
  | _ => false

/-- Not a column with the name of its table before it. -/
def Expression.isUnqualified : Expression → Bool
  | columnRef tablePrefix _ => decide (tablePrefix = [])
  | _ => true

/-- A value of type BOOLEAN. -/
def Value.isBool : Value → Bool
  | .bool _ => true
  | _ => false

/-- A double that is not a number. -/
def Value.isNaN : Value → Bool
  | .float d => d.isNaN
  | _ => false

/-- The comparison asks for something greater and meets a NaN, which for `compareValues` is
greater than everything. -/
def exceedsNaN (op : BinaryOperator) (a b : Value) : Bool :=
  (op == .greaterThan || op == .greaterThanOrEqual) && (a.isNaN || b.isNaN)

namespace Tree

/-- No operators but arithmetic, NOT and the sign, and no column that is qualified. -/
def isPlain : Tree → Bool
  | leaf expr => expr.isUnqualified
  | binary op left right => op.isArithmetic && left.isPlain && right.isPlain
  | unary _ operand => operand.isPlain

/-- The comparisons that are reached from the root through AND and OR have plain operands, and
none of them asks for the order of truth values. -/
def Comparable (table : Str) (row : Row) (columns : List Str) : Tree → Prop
  | binary op left right =>
    match op with
    | .and => left.Comparable table row columns ∧ right.Comparable table row columns
    | .or => left.Comparable table row columns ∧ right.Comparable table row columns
    | op => left.isPlain = true ∧ right.isPlain = true ∧
        ¬(op.isOrder = true ∧ (left.value table row columns).any Value.isBool = true)
  | _ => True

/-- The condition with TRUE in every place where `evalWhere` does not look: for a literal, a
column and a NOT that are reached from the root through AND and OR, and for a comparison by
`>` or `>=` with a NaN. -/
def seen (table : Str) (row : Row) (columns : List Str) : Tree → Tree
  | binary op left right =>
    match op with
    | .and => binary .and (left.seen table row columns) (right.seen table row columns)
    | .or => binary .or (left.seen table row columns) (right.seen table row columns)
    | op =>
      match left.value table row columns, right.value table row columns with
      | some a, some b =>
        if exceedsNaN op a b then leaf (.literalBool true) else binary op left right
      | _, _ => binary op left right
  | _ => leaf (.literalBool true)

end Tree

/-! ### Comparing values -/

section Values

variable {a b : Value} {e l g : Bool}

/-- Of two elements of an order one of the three is true. -/
theorem decide_trichotomy {α : Type} [LT α] [DecidableEq α] [DecidableLT α] {x y : α}
    (htri : x < y ∨ x = y ∨ y < x) (hasymm : ∀ {x y : α}, x < y → ¬y < x) :
    decide (x = y) = true ∧ decide (x < y) = false ∧ decide (y < x) = false ∨
      decide (x = y) = false ∧ decide (x < y) = true ∧ decide (y < x) = false ∨
      decide (x = y) = false ∧ decide (x < y) = false ∧ decide (y < x) = true := by
  have hirrefl : ∀ z : α, ¬z < z := fun z h => hasymm h h
  rcases htri with h | rfl | h
  · have hne : x ≠ y := fun heq => hirrefl y (heq ▸ h)
    simp [h, hne, hasymm h]
  · simp [hirrefl]
  · have hne : x ≠ y := fun heq => hirrefl y (heq ▸ h)
    simp [h, hne, hasymm h]

/-- Two doubles: one of the three, or none because of a NaN. -/
theorem Double.trichotomy (x y : Double) :
    (x.isNaN = true ∨ y.isNaN = true) ∧ x.eq y = false ∧ x.lt y = false ∧ y.lt x = false ∨
    (x.isNaN = false ∧ y.isNaN = false) ∧
      (x.eq y = true ∧ x.lt y = false ∧ y.lt x = false ∨
        x.eq y = false ∧ x.lt y = true ∧ y.lt x = false ∨
        x.eq y = false ∧ x.lt y = false ∧ y.lt x = true) := by
  unfold Double.eq Double.lt
  cases x.isNaN with
  | true => simp
  | false =>
    cases y.isNaN with
    | true => simp
    | false =>
      rcases lt_trichotomy x.key y.key with h | h | h
      · simp [h, h.ne, h.not_gt]
      · simp [h]
      · simp [h, h.ne', h.not_gt]

/-- Values that are neither truth values nor NaN are equal or one is less than the other. -/
theorem value_trichotomy (he : sameValue a b = some e) (hl : lessValue a b = some l)
    (hg : lessValue b a = some g) :
    (a.isNaN = true ∨ b.isNaN = true) ∧ e = false ∧ l = false ∧ g = false ∨
    (a.isNaN = false ∧ b.isNaN = false) ∧
      (e = true ∧ l = false ∧ g = false ∨ e = false ∧ l = true ∧ g = false ∨
        e = false ∧ l = false ∧ g = true) := by
  cases a <;> cases b <;> cases he <;> cases hl <;> cases hg
  case int.int.refl.refl.refl x y =>
    exact .inr ⟨⟨rfl, rfl⟩, decide_trichotomy (Std.lt_trichotomy x y) Int64.lt_asymm⟩
  case float.float.refl.refl.refl x y => exact Double.trichotomy x y
  case text.text.refl.refl.refl x y =>
    exact .inr ⟨⟨rfl, rfl⟩, decide_trichotomy (Std.lt_trichotomy x y) List.lt_asymm⟩
  case bool.bool.refl.refl.refl x y =>
    refine .inr ⟨⟨rfl, rfl⟩, ?_⟩
    cases x <;> cases y <;> decide

theorem eq_of_sameValue (h : sameValue a b = some e) : a.eq b = e := by
  cases a <;> cases b <;> cases h <;> rfl

/-- `compareValues` on values of one type that are not truth values. -/
theorem compareValues_eq (he : sameValue a b = some e) (hl : lessValue a b = some l)
    (hbool : a.isBool = false) :
    compareValues a b = .ok (if e = true then 0 else if l = true then -1 else 1) := by
  cases a <;> cases b <;> cases he <;> cases hl
  case int.int.refl.refl x y => simp [compareValues]
  case float.float.refl.refl x y =>
    rw [compareValues]
    cases x.eq y <;> rfl
  case text.text.refl.refl x y => simp [compareValues, compareText]
  case bool.bool.refl.refl x y => cases hbool

theorem compareValues_bool (hbool : a.isBool = true) :
    compareValues a b = .error (.error .typeMismatch) := by
  cases a <;> cases hbool
  cases b <;> rfl

end Values

/-- The order of two values as `evalWhere` asks for it. -/
theorem compareWhere_order {op : BinaryOperator} {a b : Value} {e l g : Bool}
    (hop : op.isOrder = true) (he : sameValue a b = some e) (hl : lessValue a b = some l)
    (hg : lessValue b a = some g) (hbool : a.isBool = false) {c : Bool}
    (hc : compares op a b = some c) :
    compareWhere op a b = .ok (if exceedsNaN op a b then true else c) := by
  have hcmp := compareValues_eq he hl hbool
  have htri := value_trichotomy he hl hg
  cases op <;> cases hop
  all_goals
    simp only [compares, he, hl, hg, Option.bind_eq_bind, Option.bind_some, Option.pure_def,
      Option.some.injEq] at hc
    subst hc
    rw [compareWhere, hcmp, ok_bind, pure_eq_ok]
    rcases htri with ⟨hnan, rfl, rfl, rfl⟩ | ⟨⟨ha, hb⟩, ⟨rfl, rfl, rfl⟩ | ⟨rfl, rfl, rfl⟩ |
      ⟨rfl, rfl, rfl⟩⟩ <;> simp [exceedsNaN, *]

/-- What `evalWhere` makes of a comparison that has a truth value: it does not order truth
values, and a NaN is greater than everything. -/
theorem compareWhere_of_compares {op : BinaryOperator} {a b : Value} {c : Bool}
    (hc : compares op a b = some c) :
    compareWhere op a b =
      if op.isOrder = true ∧ a.isBool = true then .error (.error .typeMismatch)
      else .ok (if exceedsNaN op a b then true else c) := by
  by_cases hop : op.isOrder = true
  · by_cases hbool : a.isBool = true
    · rw [if_pos ⟨hop, hbool⟩]
      cases op <;> cases hop <;> rw [compareWhere, compareValues_bool hbool] <;> rfl
    · rw [if_neg (fun h => hbool h.2)]
      obtain ⟨e, l, g, he, hl, hg⟩ : ∃ e l g, sameValue a b = some e ∧ lessValue a b = some l ∧
          lessValue b a = some g := by
        cases a <;> cases b <;>
          first | exact ⟨_, _, _, rfl, rfl, rfl⟩ | cases op <;> cases hop <;> cases hc
      exact compareWhere_order hop he hl hg (by simpa using hbool) hc
  · rw [if_neg (fun h => hop h.1)]
    cases op with
    | equal => simp [compareWhere, exceedsNaN, eq_of_sameValue hc]
    | notEqual =>
      obtain ⟨e, he, heq⟩ := Option.bind_eq_some_iff.1 hc
      cases heq
      simp [compareWhere, exceedsNaN, eq_of_sameValue he]
    | lessThan => exact absurd rfl hop
    | lessThanOrEqual => exact absurd rfl hop
    | greaterThan => exact absurd rfl hop
    | greaterThanOrEqual => exact absurd rfl hop
    | _ => cases hc

/-! ### Operands -/

namespace Tree

variable {table : Str} {row : Row} {columns : List Str} {t l r : Tree} {op : BinaryOperator}
  {b c : Bool}

theorem value_leaf {expr : Expression} {v : Value} (hplain : expr.isUnqualified = true)
    (h : leafValue table row columns expr = some v) : evalLeaf row columns expr = .ok v := by
  cases expr with
  | columnRef tablePrefix name =>
    obtain rfl : tablePrefix = [] := of_decide_eq_true hplain
    rw [leafValue, if_pos (.inl rfl)] at h
    rw [evalLeaf, if_pos rfl]
    exact toOption_eq_some (Option.filter_eq_some_iff.1 h).1
  | literalNull s => cases h
  | star => cases h
  | binary => cases h
  | unary => cases h
  | _ =>
    cases h
    rfl

theorem isUnqualified_of_evalLeaf {expr : Expression} {v : Value}
    (h : evalLeaf row columns expr = .ok v) : expr.isUnqualified = true := by
  cases expr with
  | columnRef tablePrefix name =>
    by_cases hprefix : tablePrefix = []
    · exact decide_eq_true hprefix
    · rw [evalLeaf, if_neg hprefix] at h
      cases h
  | _ => rfl

theorem value_binary {v : Value} (h : (binary op l r).value table row columns = some v) :
    ∃ x y, l.value table row columns = some x ∧ r.value table row columns = some y ∧
      combine op x y = some v := by
  obtain ⟨x, hx, h⟩ := Option.bind_eq_some_iff.1 h
  obtain ⟨y, hy, h⟩ := Option.bind_eq_some_iff.1 h
  exact ⟨x, y, hx, hy, h⟩

/-- A plain operand is evaluated to its value. -/
theorem evalExpr_of_value {v : Value} (hplain : t.isPlain = true)
    (h : t.value table row columns = some v) : t.evalExpr row columns = .ok v := by
  induction t generalizing v with
  | leaf expr => exact value_leaf hplain h
  | binary op l r ihl ihr =>
    simp only [isPlain, Bool.and_eq_true] at hplain
    obtain ⟨⟨hop, hl⟩, hr⟩ := hplain
    obtain ⟨x, y, hx, hy, h⟩ := value_binary h
    rw [evalExpr, ihl hl hx, ok_bind, ihr hr hy, ok_bind, if_pos hop]
    cases op <;> cases hop <;> exact toOption_eq_some h
  | unary op operand ih =>
    obtain ⟨x, hx, h⟩ := Option.bind_eq_some_iff.1 h
    rw [evalExpr, ih hplain hx, ok_bind]
    cases op <;> exact toOption_eq_some h

/-- An operand with a boolean operator in it is not evaluated. -/
theorem isPlain_of_evalExpr {v : Value} (h : t.evalExpr row columns = .ok v) :
    t.isPlain = true := by
  induction t generalizing v with
  | leaf expr => exact isUnqualified_of_evalLeaf h
  | binary op l r ihl ihr =>
    obtain ⟨x, hx, h⟩ := bind_eq_ok.1 h
    obtain ⟨y, hy, h⟩ := bind_eq_ok.1 h
    by_cases hop : op.isArithmetic = true
    · rw [isPlain, hop, ihl hx, ihr hy]
      rfl
    · rw [if_neg hop] at h
      cases h
  | unary op operand ih =>
    obtain ⟨x, hx, -⟩ := bind_eq_ok.1 h
    exact ih hx

theorem evalExpr_eq_ok {v v' : Value} (h : t.value table row columns = some v) :
    t.evalExpr row columns = .ok v' ↔ t.isPlain = true ∧ v' = v := by
  constructor
  · intro h'
    have hplain := isPlain_of_evalExpr h'
    rw [evalExpr_of_value hplain h] at h'
    exact ⟨hplain, (Except.ok.inj h').symm⟩
  · rintro ⟨hplain, rfl⟩
    exact evalExpr_of_value hplain h

/-- Arithmetic has no truth values. -/
theorem int64Result_isBool {n : ℤ} {v : Value} (h : int64Result n = .ok v) : v.isBool = false := by
  unfold int64Result at h
  split at h
  · cases h
    rfl
  · cases h

theorem applyArithmetic_isBool {x y v : Value} (h : applyArithmetic x y op = .ok v) :
    v.isBool = false := by
  unfold applyArithmetic at h
  split at h
  case h_4 =>
    split at h
    · cases h
    · exact int64Result_isBool h
  case h_1 | h_2 | h_3 => exact int64Result_isBool h
  case h_10 => cases h
  all_goals
    cases h
    rfl

/-! ### Conditions -/

theorem truth_eq_some :
    t.truth table row columns = some b ↔ t.value table row columns = some (.bool b) := by
  unfold truth
  split
  · rename_i v
    rw [v]
    simp
  · rename_i hno
    constructor
    · intro h
      cases h
    · intro h
      exact absurd h (hno b)

theorem truth_connect {f : Bool → Bool → Bool} (hop : ∀ x y, combine op x y = connect f x y) :
    (binary op l r).truth table row columns = some b ↔
      ∃ x y, l.truth table row columns = some x ∧ r.truth table row columns = some y ∧
        b = f x y := by
  simp only [truth_eq_some]
  constructor
  · intro h
    obtain ⟨x, y, hx, hy, h⟩ := value_binary h
    rw [hop] at h
    cases x <;> cases y <;> cases h
    exact ⟨_, _, hx, hy, rfl⟩
  · rintro ⟨x, y, hx, hy, rfl⟩
    rw [value, hx, hy]
    exact hop _ _

/-- A condition by one operator is a comparison, or a connection of two conditions. -/
theorem isComparison_of_truth (h : (binary op l r).truth table row columns = some b) :
    op = .and ∨ op = .or ∨ op.isComparison = true := by
  obtain ⟨x, y, -, -, h⟩ := value_binary (truth_eq_some.1 h)
  have harith : ∀ op, (applyArithmetic x y op).toOption ≠ some (.bool b) := fun op hop =>
    Bool.noConfusion (applyArithmetic_isBool (toOption_eq_some hop))
  cases op with
  | and => exact .inl rfl
  | or => exact .inr (.inl rfl)
  | add => exact absurd h (harith .add)
  | subtract => exact absurd h (harith .subtract)
  | multiply => exact absurd h (harith .multiply)
  | divide => exact absurd h (harith .divide)
  | is => cases h
  | isNot => cases h
  | _ => exact .inr (.inr rfl)

theorem truth_comparison (hop : op.isComparison = true) :
    (binary op l r).truth table row columns = some b ↔
      ∃ x y, l.value table row columns = some x ∧ r.value table row columns = some y ∧
        compares op x y = some b := by
  have hcombine : ∀ x y, combine op x y = (compares op x y).map .bool := by
    intro x y
    cases op <;> cases hop <;> rfl
  rw [truth_eq_some]
  constructor
  · intro h
    obtain ⟨x, y, hx, hy, h⟩ := value_binary h
    rw [hcombine] at h
    obtain ⟨c, hc, h⟩ := Option.map_eq_some_iff.1 h
    cases h
    exact ⟨x, y, hx, hy, hc⟩
  · rintro ⟨x, y, hx, hy, hc⟩
    rw [value, hx, hy]
    exact (hcombine x y).trans (by rw [hc]; rfl)

/-- A comparison is decided if its operands are plain and it does not order truth values. -/
theorem evalWhere_comparison (hop : op.isComparison = true)
    (h : (binary op l r).truth table row columns = some b) :
    (binary op l r).evalWhere row columns = .ok c ↔ (binary op l r).Comparable table row columns ∧
      ((binary op l r).seen table row columns).truth table row columns = some c := by
  obtain ⟨x, y, hx, hy, hc⟩ := (truth_comparison hop).1 h
  have heval : (binary op l r).evalWhere row columns = (do
      let a ← l.evalExpr row columns
      let b ← r.evalExpr row columns
      compareWhere op a b) := by
    cases op <;> cases hop <;> rfl
  have hcomparable : (binary op l r).Comparable table row columns ↔
      l.isPlain = true ∧ r.isPlain = true ∧ ¬(op.isOrder = true ∧ x.isBool = true) := by
    cases op <;> cases hop <;> simp only [Comparable, hx, Option.any_some]
  -- asking for something greater than a NaN, or for a NaN that is greater, is seen as true
  have hseen : ((binary op l r).seen table row columns).truth table row columns =
      some (if exceedsNaN op x y then true else b) := by
    have heq : (binary op l r).seen table row columns =
        if exceedsNaN op x y then leaf (.literalBool true) else binary op l r := by
      cases op <;> cases hop <;> simp only [seen, hx, hy]
    rw [heq]
    by_cases hnan : exceedsNaN op x y = true
    · rw [if_pos hnan, if_pos hnan]
      rfl
    · rw [if_neg hnan, if_neg hnan, h]
  rw [heval, hcomparable, hseen, bind_eq_ok]
  constructor
  · rintro ⟨v, hv, h⟩
    obtain ⟨v', hv', h⟩ := bind_eq_ok.1 h
    obtain ⟨hl, rfl⟩ := (evalExpr_eq_ok hx).1 hv
    obtain ⟨hr, rfl⟩ := (evalExpr_eq_ok hy).1 hv'
    rw [compareWhere_of_compares hc] at h
    by_cases hbool : op.isOrder = true ∧ v.isBool = true
    · rw [if_pos hbool] at h
      cases h
    · rw [if_neg hbool] at h
      exact ⟨⟨hl, hr, hbool⟩, congrArg some (Except.ok.inj h)⟩
  · rintro ⟨⟨hl, hr, hbool⟩, h⟩
    refine ⟨x, evalExpr_of_value hl hx, ?_⟩
    rw [evalExpr_of_value hr hy, ok_bind, compareWhere_of_compares hc, if_neg hbool,
      Option.some.inj h]

/-- Two conditions are decided together. -/
theorem evalWhere_connect {f : Bool → Bool → Bool} (hop : ∀ x y, combine op x y = connect f x y)
    {l' r' : Tree} {p q : Prop}
    (hl : ∀ {c}, l.evalWhere row columns = .ok c ↔ p ∧ l'.truth table row columns = some c)
    (hr : ∀ {c}, r.evalWhere row columns = .ok c ↔ q ∧ r'.truth table row columns = some c) :
    (do
      let a ← l.evalWhere row columns
      let b ← r.evalWhere row columns
      return f a b : Expected ExecError Bool) = .ok c ↔
    (p ∧ q) ∧ (binary op l' r').truth table row columns = some c := by
  rw [truth_connect hop, bind_eq_ok]
  constructor
  · rintro ⟨a, ha, h⟩
    obtain ⟨b, hb, h⟩ := bind_eq_ok.1 h
    obtain ⟨hp, ha⟩ := hl.1 ha
    obtain ⟨hq, hb⟩ := hr.1 hb
    exact ⟨⟨hp, hq⟩, a, b, ha, hb, (Except.ok.inj h).symm⟩
  · rintro ⟨⟨hp, hq⟩, a, b, ha, hb, rfl⟩
    refine ⟨a, hl.2 ⟨hp, ha⟩, ?_⟩
    rw [hr.2 ⟨hq, hb⟩]
    rfl

/-- What `evalWhere` returns for a condition that has a truth value. -/
theorem evalWhere_eq_ok (h : t.truth table row columns = some b) :
    t.evalWhere row columns = .ok c ↔
      t.Comparable table row columns ∧
        (t.seen table row columns).truth table row columns = some c := by
  -- what is neither a comparison nor AND or OR passes
  have hpass : ∀ {c : Bool}, (Except.ok true : Expected ExecError Bool) = .ok c ↔
      True ∧ (leaf (.literalBool true)).truth table row columns = some c := by
    intro c
    rw [true_and, truth_eq_some]
    cases c <;> simp [value, leafValue]
  induction t generalizing b c with
  | leaf expr => exact hpass
  | unary op operand => exact hpass
  | binary op l r ihl ihr =>
    rcases isComparison_of_truth h with rfl | rfl | hop
    · obtain ⟨x, y, hx, hy, -⟩ := (truth_connect fun _ _ => rfl).1 h
      exact evalWhere_connect (fun _ _ => rfl) (ihl hx) (ihr hy)
    · obtain ⟨x, y, hx, hy, -⟩ := (truth_connect fun _ _ => rfl).1 h
      exact evalWhere_connect (fun _ _ => rfl) (ihl hx) (ihr hy)
    · exact evalWhere_comparison hop h

end Tree

/-! ### What `evalWhere` promises -/

/-- **When conditions follow boolean logic.**  For a condition that has a truth value on a row,
`evalWhere` returns it exactly if it can decide the comparisons and if the condition keeps its
truth value when TRUE stands in all places where `evalWhere` does not look. -/
theorem evalWhere_truth_iff {pr : ParseResult} {row : Row} {columns : List Str}
    {expr : Expression} {t : Tree} (h : Unfolds pr expr t) {b : Bool}
    (ht : t.truth pr.statement.tableName row columns = some b) :
    evalWhere pr row columns expr = .ok b ↔
      t.Comparable pr.statement.tableName row columns ∧
        (t.seen pr.statement.tableName row columns).truth pr.statement.tableName row columns =
          some b := by
  rw [h.evalWhere]
  exact Tree.evalWhere_eq_ok ht

/-- `a = 1 AND NOT FALSE` -/
def sampleCondition : ParseResult where
  expressions := [.columnRef [] (str "a"), .literalInt 1, .binary .equal 0 1, .literalBool false,
    .unary .not 3, .binary .and 2 4]
  statement := { kind := .select, tableName := str "t", whereIndex := 5 }

/-- The tree of its condition, `a = 1 AND NOT FALSE`. -/
def sampleTree : Tree :=
  .binary .and (.binary .equal (.leaf (.columnRef [] (str "a"))) (.leaf (.literalInt 1)))
    (.unary .not (.leaf (.literalBool false)))

theorem sampleTree_unfolds : Unfolds sampleCondition (.binary .and 2 4) sampleTree :=
  .binary ⟨by decide, rfl⟩ ⟨by decide, rfl⟩
    (.binary ⟨by decide, rfl⟩ ⟨by decide, rfl⟩ (.leaf rfl) (.leaf rfl))
    (.unary ⟨by decide, rfl⟩ (.leaf rfl))

theorem evalWhere_truth_iff_sample :
    evalWhere sampleCondition [.int 1] [str "a"] (.binary .and 2 4) = .ok true ↔
      sampleTree.Comparable (str "t") [.int 1] [str "a"] ∧
        (sampleTree.seen (str "t") [.int 1] [str "a"]).truth (str "t") [.int 1] [str "a"] =
          some true :=
  evalWhere_truth_iff sampleTree_unfolds (by decide)

/-- `NOT TRUE` passes. -/
theorem not_true_passes :
    ¬∀ pr row columns expr t b, Unfolds pr expr t →
      t.truth pr.statement.tableName row columns = some b →
      evalWhere pr row columns expr = .ok b := by
  intro hall
  let pr : ParseResult :=
    { expressions := [.literalBool true, .unary .not 0]
      statement := { kind := .delete, tableName := str "t", whereIndex := 1 } }
  have htree : Unfolds pr (.unary .not 0) (.unary .not (.leaf (.literalBool true))) :=
    .unary ⟨by decide, rfl⟩ (.leaf rfl)
  have hfalse := hall pr [] [] _ _ false htree rfl
  cases hfalse

end MicroSql
