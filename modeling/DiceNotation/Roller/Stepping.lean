import DiceNotation.Roller.Basic

/-!
# Faces in steps

A stepping roller goes round the faces between the bounds in equal steps.  Its counter runs over
all integers and is reduced to the bounds when a face is asked for, so that dice of different
sizes share one counter.
-/

namespace DiceNotation

/-- The counter, and what is added to it for every face. -/
structure Stepping where
  counter : Int
  step : Int
  deriving DecidableEq, Repr

namespace Stepping

/-- The face that the counter is at. -/
def roll (lo hi : Int) (r : Stepping) : Int × Stepping :=
  let span := max 1 (hi - lo + 1)
  ((r.counter - 1) % span + lo, { r with counter := r.counter + r.step })

instance : Roller Stepping where
  roll := roll
  length_rollMany _ lo hi := length_drawEach (roll lo hi) _

/-- The faces of a stepping roller lie within the bounds. -/
theorem roll_mem_bounds {lo hi : Int} (h : lo ≤ hi) (r : Stepping) :
    lo ≤ (roll lo hi r).1 ∧ (roll lo hi r).1 ≤ hi := by
  have hpos : (0 : Int) < max 1 (hi - lo + 1) := by omega
  have h₁ := Int.emod_nonneg (r.counter - 1) (Int.ne_of_gt hpos)
  have h₂ := Int.emod_lt_of_pos (r.counter - 1) hpos
  show lo ≤ (r.counter - 1) % max 1 (hi - lo + 1) + lo ∧
    (r.counter - 1) % max 1 (hi - lo + 1) + lo ≤ hi
  omega

end Stepping

end DiceNotation
