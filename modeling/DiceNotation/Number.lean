import DiceNotation.Whole
import DiceNotation.Decimal.Shortest

/-!
# Numbers of the arithmetic language

A number is a whole number or a double.  Two whole numbers are combined exactly, and it is an error
if the answer does not fit; as soon as one of them is a double the answer is one.  Division of whole
numbers stays whole when it is exact.

## Comparison

Numbers are compared as doubles, so a whole number equals the double of the same value.  Above
`2^53` neighbouring whole numbers may be the same double, and then they compare as equal.

## Text

A number is written without an exponent, so that it can be read back as part of a dice code.  A
double is written with the fewest digits that read back, and zero without a sign.

* `Number.add`, `Number.sub`, `Number.mul`, `Number.div`, `Number.pow`, `Number.neg`.
* `Number.compare?`, and `==` on numbers.
* `Number.text`.
-/

namespace DiceNotation

/-- A whole number or a double. -/
inductive Number where
  | int (n : Int)
  | float (x : Float)

namespace Number

/-- Why an operation has no answer. -/
inductive Fault where
  | zeroDivision
  | overflow
  deriving DecidableEq, Repr

/-- The message of a fault. -/
def Fault.message : Fault → String
  | .zeroDivision => "cannot divide by zero"
  | .overflow => "arithmetic overflow"

/-- The nearest double. -/
def toFloat : Number → Float
  | .int n => Float.ofInt n
  | .float x => x

/-- Whether a number is zero, of either sign. -/
def isZero : Number → Bool
  | .int n => n == 0
  | .float x => x == 0.0

/-- A whole number as an answer, if it is in the range. -/
def ofInt (n : Int) : Except Fault Number :=
  if Whole.fits n then .ok (.int n) else .error .overflow

theorem ofInt_of_fits {n : Int} (h : Whole.fits n = true) : ofInt n = .ok (.int n) := by
  rw [ofInt, if_pos h]

theorem ofInt_of_not_fits {n : Int} (h : Whole.fits n = false) : ofInt n = .error .overflow := by
  rw [ofInt, h, if_neg Bool.false_ne_true]

/-- The sum of two numbers. -/
def add : Number → Number → Except Fault Number
  | .int x, .int y => ofInt (x + y)
  | a, b => .ok (.float (a.toFloat + b.toFloat))

/-- The difference of two numbers. -/
def sub : Number → Number → Except Fault Number
  | .int x, .int y => ofInt (x - y)
  | a, b => .ok (.float (a.toFloat - b.toFloat))

/-- The product of two numbers. -/
def mul : Number → Number → Except Fault Number
  | .int x, .int y => ofInt (x * y)
  | a, b => .ok (.float (a.toFloat * b.toFloat))

/-- The quotient of two numbers, whole if both are and it is exact. -/
def div (a b : Number) : Except Fault Number :=
  if b.isZero then .error .zeroDivision
  else match a, b with
    | .int x, .int y =>
      if x % y = 0 then ofInt (x / y) else .ok (.float (Float.ofInt x / Float.ofInt y))
    | a, b => .ok (.float (a.toFloat / b.toFloat))

/-- The power of an integer, unless it is certain to be out of range.  No base but `0`, `1` and `-1`
has a power with an exponent of 64 or more in the range, and those three only depend on whether the
exponent is zero, odd or even. -/
def intPow? (x : Int) (y : Nat) : Option Int :=
  if y < 64 then some (Int.pow x y)
  else if x.natAbs ≤ 1 then some (if y % 2 = 0 then x * x else x)
  else none

/-- The power of two numbers.  Whole exponents of at least `2^32` are refused for every base. -/
def pow : Number → Number → Except Fault Number
  | .int x, .int (.ofNat y) =>
    if y < 4294967296 then
      match intPow? x y with
      | some n => ofInt n
      | none => .error .overflow
    else .error .overflow
  | a, b =>
    if a.isZero && b.toFloat < 0.0 then .error .zeroDivision
    else .ok (.float (Float.pow a.toFloat b.toFloat))

/-- The negative of a number. -/
def neg : Number → Except Fault Number
  | .int n => ofInt (-n)
  | .float x => .ok (.float (-x))

/-- Numbers are equal when their doubles are, so NaN differs from itself. -/
instance : BEq Number := ⟨fun a b => a.toFloat == b.toFloat⟩

/-- The order of two numbers, which NaN has with none. -/
def compare? (a b : Number) : Option Ordering :=
  let x := a.toFloat
  let y := b.toFloat
  if x < y then some .lt
  else if y < x then some .gt
  else if x == y then some .eq
  else none

/-- The text of a double. -/
def floatText (x : Float) : Text :=
  let bits := x.toBits.toNat
  let sign : Text := if bits < Nat.pow 2 63 then [] else ['-']
  match Decimal.Binary.ofBits? bits with
  | none => if bits % Nat.pow 2 52 = 0 then sign ++ ['i', 'n', 'f'] else ['N', 'a', 'N']
  | some b =>
    if b.mantissa = 0 then ['0']
    else
      let (d, p) := b.shortest
      sign ++ Decimal.positional d p

/-- The text of a number. -/
def text : Number → Text
  | .int n => Whole.render n
  | .float x => floatText x

end Number

end DiceNotation
