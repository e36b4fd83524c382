import TensorProgram.Inference.Check

/-!
# Arithmetic on sizes and offsets

Sizes are unsigned and offsets are signed 64-bit numbers.  An operation whose
exact result has no place in its range is a fault and not a wrapped number.
Only the two conversions wrap: `Offset.ofSize` reads the bits of a size as an
offset and `Offset.toSize` reads them back.
-/

namespace TensorProgram.Inference

namespace Size

/-- All sizes are below `2 ^ 64`. -/
def limit : Nat :=
  0x10000000000000000

/-- The result of an operation, if it has a place in the range of sizes. -/
def bounded (operation : Arithmetic) (n : Nat) : Check Nat :=
  if n < limit then .ok n else .error (.fault (.overflow operation))

def add (m n : Nat) : Check Nat :=
  bounded .add (m + n)

def mul (m n : Nat) : Check Nat :=
  bounded .multiply (m * n)

def sub (m n : Nat) : Check Nat :=
  if n ≤ m then .ok (m - n) else .error (.fault .negativeSize)

def div (m n : Nat) : Check Nat :=
  if n = 0 then .error (.fault .divisionByZero) else .ok (m / n)

def mod (m n : Nat) : Check Nat :=
  if n = 0 then .error (.fault .remainderByZero) else .ok (m % n)

/-- The product of extents, taken from the first on. -/
def product (extents : List Nat) : Check Nat :=
  extents.foldlM mul 1

end Size

namespace Offset

/-- All offsets are at least `-2 ^ 63` and below `2 ^ 63`. -/
def limit : Int :=
  0x8000000000000000

/-- The result of an operation, if it has a place in the range of offsets. -/
def bounded (operation : Arithmetic) (x : Int) : Check Int :=
  if -limit ≤ x ∧ x < limit then .ok x else .error (.fault (.overflow operation))

def add (x y : Int) : Check Int :=
  bounded .add (x + y)

def sub (x y : Int) : Check Int :=
  bounded .subtract (x - y)

def mul (x y : Int) : Check Int :=
  bounded .multiply (x * y)

/-- The quotient, rounded toward zero. -/
def div (x y : Int) : Check Int :=
  if y = 0 then .error (.fault .divisionByZero) else bounded .divide (x.tdiv y)

/-- The offset with the bits of a size. -/
def ofSize (n : Nat) : Int :=
  Int.bmod n Size.limit

/-- The size with the bits of an offset. -/
def toSize (x : Int) : Nat :=
  (x % Size.limit).toNat

end Offset

end TensorProgram.Inference
