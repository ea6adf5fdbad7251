import DiceNotation.Roller.Basic

/-!
# Faces given in advance

A scripted roller replays a list of faces, whatever the bounds are.  When the list is used up it
goes on with the lower bound.
-/

namespace DiceNotation

/-- The faces that are still to come. -/
structure Scripted where
  faces : List Int
  deriving DecidableEq, Repr

namespace Scripted

/-- The next face of the script. -/
def roll (lo _hi : Int) (r : Scripted) : Int × Scripted :=
  match r.faces with
  | [] => (lo, r)
  | face :: faces => (face, ⟨faces⟩)

instance : Roller Scripted where
  roll := roll
  length_rollMany _ lo hi := length_drawEach (roll lo hi) _

/-- How many faces of the script are left. -/
def remaining (r : Scripted) : Nat := r.faces.length

end Scripted

end DiceNotation
