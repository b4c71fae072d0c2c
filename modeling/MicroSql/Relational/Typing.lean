import MicroSql.Relational.Rows

/-!
# Types of expressions

A discipline that the program does not check: an expression has a type under the columns of a
table, and a condition compares for order only what is of one type that has one.  The evaluation
of a typed expression gives a value of its type or NULL.  It fails by a division by zero, an
overflow or a NULL only.
-/

namespace MicroSql

open Lib

/-- NULL, or a value of the type. -/
def Value.Of (v : Value) (type : DataType) : Prop :=
  match v with
  | .null => True
  | .int _ => type = .integer
  | .float _ => type = .float
  | .text _ => type = .text
  | .bool _ => type = .boolean

theorem Value.typed_iff {v : Value} {c : ColumnDefinition} : v.Typed c ↔ v.Of c.type := by
  cases v <;> exact Iff.rfl

/-- The operator takes two values of the type, and gives one. -/
def BinaryOperator.Takes : BinaryOperator → DataType → Prop
  | .add, type => type ≠ .boolean
  | .subtract, type | .multiply, type | .divide, type => type = .integer ∨ type = .float
  | _, _ => False

namespace Tree

/-- The type of an expression on the rows of a table. -/
inductive Types (columns : Schema) : Tree → DataType → Prop
  | bool (b : Bool) : Types columns (.leaf (.literalBool b)) .boolean
  | int (n : Int64) : Types columns (.leaf (.literalInt n)) .integer
  | float (d : Double) : Types columns (.leaf (.literalFloat d)) .float
  | text (s : Str) : Types columns (.leaf (.literalText s)) .text
  | null (s : Str) (type : DataType) : Types columns (.leaf (.literalNull s)) type
  | column {name : Str} {i : ℕ} {c : ColumnDefinition}
      (hi : (columns.map (·.name)).idxOf? name = some i) (hc : columns[i]? = some c) :
      Types columns (.leaf (.columnRef [] name)) c.type
  | arithmetic {op : BinaryOperator} {left right : Tree} {type : DataType} (hop : op.Takes type)
      (hl : Types columns left type) (hr : Types columns right type) :
      Types columns (.binary op left right) type
  | negate {operand : Tree} {type : DataType} (htype : type = .integer ∨ type = .float)
      (h : Types columns operand type) : Types columns (.unary .negate operand) type
  | not {operand : Tree} (h : Types columns operand .boolean) :
      Types columns (.unary .not operand) .boolean

/-- A condition whose operands have types. -/
inductive Checks (columns : Schema) : Tree → Prop
  | and {left right : Tree} (hl : Checks columns left) (hr : Checks columns right) :
      Checks columns (.binary .and left right)
  | or {left right : Tree} (hl : Checks columns left) (hr : Checks columns right) :
      Checks columns (.binary .or left right)
  | equality {op : BinaryOperator} {left right : Tree} {a b : DataType}
      (hop : op ∈ [BinaryOperator.equal, .notEqual, .is, .isNot]) (hl : left.Types columns a)
      (hr : right.Types columns b) : Checks columns (.binary op left right)
  | order {op : BinaryOperator} {left right : Tree} {type : DataType}
      (hop : op ∈ [BinaryOperator.lessThan, .lessThanOrEqual, .greaterThan, .greaterThanOrEqual])
      (htype : type ≠ .boolean) (hl : left.Types columns type) (hr : right.Types columns type) :
      Checks columns (.binary op left right)
  /-- what is not a binary expression is not evaluated -/
  | leaf (expr : Expression) : Checks columns (.leaf expr)
  | unary (op : UnaryOperator) (operand : Tree) : Checks columns (.unary op operand)

/-- A NULL is among the values that the expression is built from. -/
def MeetsNull (names : List Str) (row : Row) : Tree → Prop
  | .leaf expr => evalLeaf row names expr = .ok .null
  | .binary _ left right => left.MeetsNull names row ∨ right.MeetsNull names row
  | .unary _ operand => operand.MeetsNull names row

end Tree

/-- How the evaluation of what is typed can fail. -/
inductive TypedFailure (nulls : Prop) : Failure ExecError → Prop
  | divisionByZero : TypedFailure nulls (.error .divisionByZero)
  | overflow : TypedFailure nulls (.fault .signedOverflow)
  | null (h : nulls) : TypedFailure nulls (.error .typeMismatch)

theorem settles_of_imp {α : Type} {nulls nulls' : Prop} {P : α → Prop} {x : Expected ExecError α}
    (himp : nulls → nulls') (h : Settles (TypedFailure nulls) P x) :
    Settles (TypedFailure nulls') P x := by
  refine h.mono (fun e he => ?_) fun _ ha => ha
  cases he with
  | divisionByZero => exact .divisionByZero
  | overflow => exact .overflow
  | null h => exact .null (himp h)

/-! ### Operators -/

section Operators

variable {v w : Value} {type : DataType} {nulls : Prop}

theorem int64Result_settles (n : ℤ) :
    Settles (TypedFailure nulls) (fun u => u.Of .integer ∧ (u = .null → nulls))
      (int64Result n) := by
  rw [int64Result]
  split
  · exact .ok ⟨rfl, fun h => by cases h⟩
  · exact .error .overflow

theorem applyArithmetic_null (v : Value) (op : BinaryOperator) :
    applyArithmetic v .null op = .error (.error .typeMismatch) := by
  cases v <;> cases op <;> rfl

theorem applyArithmetic_settles {op : BinaryOperator} (hop : op.Takes type) (hv : v.Of type)
    (hw : w.Of type) (hvnull : v = .null → nulls) (hwnull : w = .null → nulls) :
    Settles (TypedFailure nulls) (fun u => u.Of type ∧ (u = .null → nulls))
      (applyArithmetic v w op) := by
  cases v with
  | null => exact .error (.null (hvnull rfl))
  | bool b =>
    obtain rfl : type = .boolean := hv
    cases op <;> simp [BinaryOperator.Takes] at hop
  | int a =>
    obtain rfl : type = .integer := hv
    cases w with
    | null =>
      rw [applyArithmetic_null]
      exact .error (.null (hwnull rfl))
    | int b =>
      cases op with
      | add | subtract | multiply => exact int64Result_settles _
      | divide =>
        rw [applyArithmetic]
        split
        · exact .error .divisionByZero
        · exact int64Result_settles _
      | _ => exact hop.elim
    | _ => cases hw
  | float a =>
    obtain rfl : type = .float := hv
    cases w with
    | null =>
      rw [applyArithmetic_null]
      exact .error (.null (hwnull rfl))
    | float b =>
      cases op with
      | add | subtract | multiply | divide => exact .ok ⟨rfl, fun h => by cases h⟩
      | _ => exact hop.elim
    | _ => cases hw
  | text a =>
    obtain rfl : type = .text := hv
    cases w with
    | null =>
      rw [applyArithmetic_null]
      exact .error (.null (hwnull rfl))
    | text b =>
      cases op with
      | add => exact .ok ⟨rfl, fun h => by cases h⟩
      | _ => simp [BinaryOperator.Takes] at hop
    | _ => cases hw

theorem flipSignValue_settles (htype : type = .integer ∨ type = .float) (hv : v.Of type)
    (hvnull : v = .null → nulls) :
    Settles (TypedFailure nulls) (fun u => u.Of type ∧ (u = .null → nulls)) (flipSignValue v) := by
  cases v with
  | null => exact .error (.null (hvnull rfl))
  | int a =>
    obtain rfl : type = .integer := hv
    exact int64Result_settles _
  | float a =>
    obtain rfl : type = .float := hv
    exact .ok ⟨rfl, fun h => by cases h⟩
  | text s =>
    obtain rfl : type = .text := hv
    simp at htype
  | bool b =>
    obtain rfl : type = .boolean := hv
    simp at htype

theorem flipBoolValue_settles (hv : v.Of .boolean) (hvnull : v = .null → nulls) :
    Settles (TypedFailure nulls) (fun u => u.Of .boolean ∧ (u = .null → nulls))
      (flipBoolValue v) := by
  cases v with
  | null => exact .error (.null (hvnull rfl))
  | bool b => exact .ok ⟨rfl, fun h => by cases h⟩
  | _ => cases hv

theorem compareValues_settles (htype : type ≠ .boolean) (hv : v.Of type) (hw : w.Of type)
    (hvnull : v = .null → nulls) (hwnull : w = .null → nulls) :
    Settles (TypedFailure nulls) (fun _ => True) (compareValues v w) := by
  cases v with
  | null => exact .error (.null (hvnull rfl))
  | bool b => exact absurd hv htype
  | int a =>
    obtain rfl : type = .integer := hv
    cases w with
    | null => exact .error (.null (hwnull rfl))
    | int b => exact .ok trivial
    | _ => cases hw
  | float a =>
    obtain rfl : type = .float := hv
    cases w with
    | null => exact .error (.null (hwnull rfl))
    | float b => exact .ok trivial
    | _ => cases hw
  | text a =>
    obtain rfl : type = .text := hv
    cases w with
    | null => exact .error (.null (hwnull rfl))
    | text b => exact .ok trivial
    | _ => cases hw

/-- The operators that compare for equality have a value on everything. -/
theorem compareWhere_settles_equality {op : BinaryOperator}
    (hop : op ∈ [BinaryOperator.equal, .notEqual, .is, .isNot]) :
    Settles (TypedFailure nulls) (fun _ => True) (compareWhere op v w) := by
  simp only [List.mem_cons, List.not_mem_nil, or_false] at hop
  rcases hop with rfl | rfl | rfl | rfl
  · exact .ok trivial
  · exact .ok trivial
  all_goals
    rw [compareWhere]
    split
    · exact .ok trivial
    split <;> exact .ok trivial

theorem compareWhere_settles_order {op : BinaryOperator}
    (hop : op ∈ [BinaryOperator.lessThan, .lessThanOrEqual, .greaterThan, .greaterThanOrEqual])
    (htype : type ≠ .boolean) (hv : v.Of type) (hw : w.Of type) (hvnull : v = .null → nulls)
    (hwnull : w = .null → nulls) :
    Settles (TypedFailure nulls) (fun _ => True) (compareWhere op v w) := by
  have hcompare := compareValues_settles htype hv hw hvnull hwnull
  simp only [List.mem_cons, List.not_mem_nil, or_false] at hop
  rcases hop with rfl | rfl | rfl | rfl <;> exact hcompare.bind fun _ _ => .ok trivial

/-- A comparison evaluates its operands. -/
theorem evalWhere_compare {op : BinaryOperator} {left right : Tree} {row : Row} {names : List Str}
    (hop : op ≠ .and ∧ op ≠ .or) : (Tree.binary op left right).evalWhere row names = (do
      let a ← left.evalExpr row names
      let b ← right.evalExpr row names
      compareWhere op a b) := by
  cases op with
  | and => exact absurd rfl hop.1
  | or => exact absurd rfl hop.2
  | _ => rfl

end Operators

/-! ### Expressions and conditions -/

section Trees

variable {columns : Schema} {row : Row} {t : Tree} {type : DataType}

theorem Row.Typed.getElem? (h : row.Typed columns) {i : ℕ} {c : ColumnDefinition}
    (hc : columns[i]? = some c) : ∃ v, row[i]? = some v ∧ v.Of c.type := by
  obtain ⟨hi, rfl⟩ := List.getElem?_eq_some_iff.1 hc
  have hlt : i < row.length := h.length_eq ▸ hi
  exact ⟨row[i], List.getElem?_eq_getElem hlt, Value.typed_iff.1 (h.get hlt hi)⟩

/-- **A typed expression does not go wrong.** -/
theorem Tree.Types.evalExpr (h : t.Types columns type) (hrow : row.Typed columns) :
    Settles (TypedFailure (t.MeetsNull (columns.map (·.name)) row))
      (fun v => v.Of type ∧ (v = .null → t.MeetsNull (columns.map (·.name)) row))
      (t.evalExpr row (columns.map (·.name))) := by
  induction h with
  | bool | int | float | text => exact .ok ⟨rfl, fun h => by cases h⟩
  | null => exact .ok ⟨trivial, fun _ => rfl⟩
  | @column name i c hi hc =>
    obtain ⟨v, hv, hof⟩ := hrow.getElem? hc
    have heval : evalLeaf row (columns.map (·.name)) (.columnRef [] name) = .ok v := by
      rw [evalLeaf, if_pos rfl, columnValue, hi]
      dsimp only
      rw [hv]
    rw [Tree.evalExpr, heval]
    exact .ok ⟨hof, fun hnull => heval.trans (congrArg _ hnull)⟩
  | @arithmetic op left right type hop _ _ ihl ihr =>
    rw [Tree.evalExpr]
    refine (settles_of_imp .inl ihl).bind fun a ha => ?_
    refine (settles_of_imp .inr ihr).bind fun b hb => ?_
    have harithmetic : op.isArithmetic = true := by
      cases op <;> first | rfl | exact hop.elim
    rw [if_pos harithmetic]
    exact applyArithmetic_settles hop ha.1 hb.1 (fun hnull => .inl (ha.2 hnull))
      fun hnull => .inr (hb.2 hnull)
  | negate htype _ ih =>
    exact ih.bind fun a ha => flipSignValue_settles htype ha.1 ha.2
  | not _ ih =>
    exact ih.bind fun a ha => flipBoolValue_settles ha.1 ha.2

/-- Nor does a condition whose operands have types. -/
theorem Tree.Checks.evalWhere (h : t.Checks columns) (hrow : row.Typed columns) :
    Settles (TypedFailure (t.MeetsNull (columns.map (·.name)) row)) (fun _ => True)
      (t.evalWhere row (columns.map (·.name))) := by
  induction h with
  | and _ _ ihl ihr | or _ _ ihl ihr =>
    refine (settles_of_imp .inl ihl).bind fun a _ => ?_
    exact (settles_of_imp .inr ihr).bind fun b _ => .ok trivial
  | @equality op left right a b hop hl hr =>
    have hcompares : op ≠ .and ∧ op ≠ .or := by
      constructor <;> rintro rfl <;> exact absurd hop (by decide)
    rw [evalWhere_compare hcompares]
    refine (settles_of_imp .inl (hl.evalExpr hrow)).bind fun a _ => ?_
    refine (settles_of_imp .inr (hr.evalExpr hrow)).bind fun b _ => ?_
    exact compareWhere_settles_equality hop
  | @order op left right type hop htype hl hr =>
    have hcompares : op ≠ .and ∧ op ≠ .or := by
      constructor <;> rintro rfl <;> exact absurd hop (by decide)
    rw [evalWhere_compare hcompares]
    refine (settles_of_imp .inl (hl.evalExpr hrow)).bind fun a ha => ?_
    refine (settles_of_imp .inr (hr.evalExpr hrow)).bind fun b hb => ?_
    exact compareWhere_settles_order hop htype ha.1 hb.1 (fun hnull => .inl (ha.2 hnull))
      fun hnull => .inr (hb.2 hnull)
  | leaf | unary => exact .ok trivial

end Trees

end MicroSql
