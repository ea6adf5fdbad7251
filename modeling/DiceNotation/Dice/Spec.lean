import DiceNotation.Amount

/-!
# Specifications of rolls

A specification says everything that is needed to roll: nothing in it is left to a default of a
session.

The highest face values explode, as many of them as `explosion` says.  The threshold is the lowest
of these.  If it is not above the least face then every face would explode, and then none does.
-/

namespace DiceNotation.Dice

/-- What to roll, and what to do with the faces. -/
structure Spec where
  amount : Amount
  /-- The least face of a die. -/
  min : Int := 1
  /-- The greatest face of a die. -/
  sides : Int
  /-- This many lowest faces are dropped, or highest ones if it is negative. -/
  rerolls : Int := 0
  sort : Bool := false
  /-- This many of the highest face values roll another die. -/
  explosion : Int := 0
  /-- The least face that counts as a success. -/
  difficulty : Option Int := none
  /-- Whether ones count against successes. -/
  oneBehaviour : Bool := false
  deriving DecidableEq, Repr

namespace Spec

/-- The lowest of the face values that are to explode, found without leaving the range of whole
numbers. -/
def threshold (s : Spec) : Int := Whole.clamp (Whole.clamp (s.sides + 1) - s.explosion)

/-- The least face value that explodes, if any does. -/
def explosionThreshold? (s : Spec) : Option Int :=
  if 0 < s.explosion ∧ s.min < s.threshold then some s.threshold else none

/-- There is a threshold if some face values are to explode and some are not. -/
theorem explosionThreshold?_eq_some_iff {s : Spec} {t : Int} :
    s.explosionThreshold? = some t ↔ 0 < s.explosion ∧ s.min < s.threshold ∧ s.threshold = t := by
  unfold explosionThreshold?
  split
  · next h => rw [Option.some_inj]; exact ⟨fun ht => ⟨h.1, h.2, ht⟩, fun ht => ht.2.2⟩
  · next h => exact ⟨fun ht => absurd ht (by simp), fun ht => absurd ⟨ht.1, ht.2.1⟩ h⟩

end Spec

end DiceNotation.Dice
