import DiceNotation.Text.Basic

/-!
# The shortest decimal that reads back

A finite double is `m * 2^q` with natural `m`.  The reals that round to it form an interval around
it: half a step on each side, except that below a power of two the steps are half as long.  The ends
belong to the interval exactly when `m` is even, because ties round to even.

Its shortest text is found on decimal grids.  On the grid of the multiples of `10^p` the value has a
neighbour on either side, and if any point of the grid lies in the interval then one of these two
does.  So the grids are tried from the coarsest to the finest, and the first with a hit has the
fewest digits; of two hits the nearer is taken, and the upper one when they are equally near.

No grid finer than `10^min q 0` is ever needed, since the value itself lies on that one.  All
comparisons are made between natural numbers, after both sides have been multiplied by the powers of
two and ten that would otherwise be in denominators.

* `Binary`, `Binary.ofBits?`: a positive double taken apart.
* `Binary.shortest`: the digits and the exponent of ten.
* `positional`: these written without an exponent.
-/

namespace DiceNotation.Decimal

/-- The positive number `mantissa * 2 ^ exponent`.  It is `tight` when the next smaller double is
half as far away as the next greater one. -/
structure Binary where
  mantissa : Nat
  exponent : Int
  tight : Bool
  deriving DecidableEq, Repr

/-- The magnitude of the double with the given bits, if it is finite. -/
def Binary.ofBits? (bits : Nat) : Option Binary :=
  let biased : Nat := bits / Nat.pow 2 52 % Nat.pow 2 11
  let fraction : Nat := bits % Nat.pow 2 52
  if biased = 2047 then none
  else if biased = 0 then some ⟨fraction, -1074, false⟩
  else some ⟨Nat.pow 2 52 + fraction, (biased : Int) - 1075, fraction == 0 && biased != 1⟩

namespace Binary

variable (b : Binary)

/-- The factor on the side of the value when it is compared on the grid of `10^p`. -/
def valueScale (p : Int) : Nat := Nat.pow 2 (b.exponent - 2).toNat * Nat.pow 10 (-p).toNat

/-- The factor on the side of the grid when the value is compared on the grid of `10^p`. -/
def gridScale (p : Int) : Nat := Nat.pow 2 (2 - b.exponent).toNat * Nat.pow 10 p.toNat

/-- Whether `d * 10^p` rounds to the value.  Distances are in quarters of a step. -/
def roundsTo (d : Nat) (p : Int) : Bool :=
  let point := d * b.gridScale p
  let low := (4 * b.mantissa - if b.tight then 1 else 2) * b.valueScale p
  let high := (4 * b.mantissa + 2) * b.valueScale p
  if b.mantissa % 2 = 0 then decide (low ≤ point) && decide (point ≤ high)
  else decide (low < point) && decide (point < high)

/-- The point of the grid of `10^p` that rounds to the value and is nearest to it. -/
def hit? (p : Int) : Option Nat :=
  let value := 4 * b.mantissa * b.valueScale p
  let grid := b.gridScale p
  let below := value / grid
  match b.roundsTo below p, b.roundsTo (below + 1) p with
  | true, true => some (if 2 * (value % grid) < grid then below else below + 1)
  | true, false => some below
  | false, true => some (below + 1)
  | false, false => none

/-- The first hit on the grids from `10^p` on, each ten times finer than the one before. -/
def firstHit (p : Int) : Nat → Nat × Int
  | 0 => (4 * b.mantissa * b.valueScale p / b.gridScale p, p)
  | steps + 1 =>
    match b.hit? p with
    | some d => (d, p)
    | none => firstHit (p - 1) steps

/-- An exponent of ten whose power is above the value. -/
def startExponent : Int :=
  let bits := (Nat.log2 b.mantissa : Int) + 1 + b.exponent
  if 0 ≤ bits then bits * 31 / 100 + 1 else bits * 30 / 100 + 2

/-- The digits and the exponent of ten of the shortest decimal that reads back. -/
def shortest : Nat × Int :=
  b.firstHit b.startExponent (b.startExponent - min b.exponent 0 + 1).toNat

end Binary

/-- The number `d * 10^p` without an exponent: zeros fill the places before or behind the digits. -/
def positional (d : Nat) (p : Int) : Text :=
  let digits := Nat.toDigits 10 d
  if 0 ≤ p then digits ++ List.replicate p.toNat '0'
  else
    let places := (-p).toNat
    if digits.length ≤ places then
      '0' :: '.' :: (List.replicate (places - digits.length) '0' ++ digits)
    else
      digits.take (digits.length - places) ++ '.' :: digits.drop (digits.length - places)

end DiceNotation.Decimal
