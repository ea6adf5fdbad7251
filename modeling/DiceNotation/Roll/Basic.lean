import DiceNotation.Dice.Total
import DiceNotation.Reduction

/-!
# Rolls

A roll is dice together with the reduction that makes a number of them.  Not every reduction gives a
number, and one that does may leave the range of whole numbers; `total` tells the two apart, while
`result` only says whether there is a number.

A roll that selects faces by rank has *resonances*: how often each of the faces from one to ten
repeats.
-/

namespace DiceNotation

/-- Dice, and the reduction of their faces. -/
structure Roll where
  reduction : Reduction
  dice : Dice
  deriving DecidableEq, Repr

namespace Roll

/-- The roll of a blank segment. -/
def empty : Roll := ⟨.nothing, .empty⟩

/-- The number that the reduction gives, if it gives one. -/
def total (r : Roll) : Except RollError (Option Int) :=
  match r.reduction with
  | .sum => r.dice.sum
  | .max => r.dice.max
  | .min => r.dice.min
  | .nothing => .ok none
  | .amount => .ok r.dice.id
  | .successes => r.dice.successes
  | .ranks first others => do
    let n ← r.dice.select (first :: others)
    return some n

/-- The number of a roll, where a total that is out of range counts as none. -/
def result (r : Roll) : Option Int :=
  match r.total with
  | .ok n => n
  | .error _ => none

/-- The number that stands for the roll in further text. -/
def value (r : Roll) : Int := r.result.getD 0

/-- How often a face repeats, if it shows at all. -/
def repeats (faces : List Int) (face : Int) : Option (Int × Nat) :=
  if 0 < faces.count face then some (face, faces.count face - 1) else none

/-- The resonances of a roll that selects by rank, by ascending faces. -/
def resonances (r : Roll) : Option (List (Int × Nat)) :=
  if r.reduction.isSelector then
    some ([1, 2, 3, 4, 5, 6, 7, 8, 9, 10].filterMap (repeats r.dice.faces))
  else none

@[simp] theorem total_empty : empty.total = .ok none := rfl

/-- The result is the number of the total. -/
theorem result_of_total {r : Roll} {n : Option Int} (h : r.total = .ok n) : r.result = n := by
  rw [result, h]

end Roll

end DiceNotation
