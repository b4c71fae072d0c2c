import Mathlib.Algebra.Group.Nat.Defs
import Mathlib.Data.Int.Notation
import Mathlib.Tactic.Common

/-!
# Byte strings, doubles and failures

The vocabulary every part of the engine shares.  A `std::string` is a string of
bytes, a `double` is its bit pattern, and a call of a function that returns a
`std::expected` has three ways to end: with a value, with the error it returns,
or not at all (an exception that nothing catches, or undefined behaviour).
-/

namespace MicroSql

/-- `std::string`: a string of bytes. -/
abbrev Str : Type := List UInt8

/-- The bytes of a string literal. -/
def str (s : String) : Str := s.toUTF8.data.toList

/-- The ways in which a call ends without returning. -/
inductive Fault
  /-- `std::get` on another alternative: an exception that nothing catches -/
  | badVariantAccess
  /-- an index outside a vector, or a pointer read or written outside its object -/
  | outOfBounds
  /-- signed arithmetic outside the range of its type -/
  | signedOverflow
  /-- a recursion that never ends -/
  | stackOverflow
  /-- an exception of `std::stoi` that nothing catches -/
  | uncaughtException
  /-- a variable read before it is given a value -/
  | uninitialized
  /-- a check that is no part of the program: see `serializeWithin` -/
  | assertion
  deriving DecidableEq, Repr

/-- Why a call returned no value: the error it returned, or a fault. -/
inductive Failure (E : Type)
  | error (e : E)
  | fault (f : Fault)
  deriving DecidableEq, Repr

/-- `std::expected<α, E>`, with the calls that do not return added. -/
abbrev Expected (E α : Type) : Type := Except (Failure E) α

/-- Translate the error of a failed call; a fault stays a fault. -/
def Failure.map {E E' : Type} (f : E → E') : Failure E → Failure E'
  | .error e => .error (f e)
  | .fault x => .fault x

/-! ### Doubles -/

/-- `double`, by its 64 bits.  Comparisons are those of IEEE 754; arithmetic is
that of `Float`. -/
structure Double where
  bits : UInt64
  deriving DecidableEq, Repr

namespace Double

/-- The bits below the sign bit. -/
def magnitude (x : Double) : ℕ := x.bits.toNat % 2 ^ 63

/-- Exponent bits all one and a fraction that is not zero. -/
def isNaN (x : Double) : Bool := decide (0x7FF0000000000000 < x.magnitude)

/-- The position of a double that is not a NaN on the number line; both zeros
are at the same place. -/
def key (x : Double) : ℤ :=
  if x.bits.toNat < 2 ^ 63 then (x.magnitude : ℤ) else -(x.magnitude : ℤ)

/-- `==` on doubles. -/
def eq (x y : Double) : Bool := !x.isNaN && !y.isNaN && decide (x.key = y.key)

/-- `<` on doubles. -/
def lt (x y : Double) : Bool := !x.isNaN && !y.isNaN && decide (x.key < y.key)

/-- The double as a `Float`. -/
def toFloat (x : Double) : Float := Float.ofBits x.bits

/-- The double that has the bits of a `Float`. -/
def ofFloat (x : Float) : Double := ⟨x.toBits⟩

/-- `+` on doubles. -/
def add (x y : Double) : Double := ofFloat (x.toFloat + y.toFloat)

/-- `-` on doubles. -/
def sub (x y : Double) : Double := ofFloat (x.toFloat - y.toFloat)

/-- `*` on doubles. -/
def mul (x y : Double) : Double := ofFloat (x.toFloat * y.toFloat)

/-- `/` on doubles. -/
def div (x y : Double) : Double := ofFloat (x.toFloat / y.toFloat)

/-- Unary minus flips the sign bit. -/
def neg (x : Double) : Double := ⟨x.bits ^^^ 0x8000000000000000⟩

end Double

end MicroSql
