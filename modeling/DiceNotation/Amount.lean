import DiceNotation.Whole

/-!
# Amounts

The amount of a dice code says where its faces come from: so many dice are rolled, the faces are
listed, or those of an earlier roll are used once more.
-/

namespace DiceNotation

/-- Where the faces of a roll come from. -/
inductive Amount where
  /-- This many dice are rolled; a negative count negates the result. -/
  | count (n : Int)
  /-- These are the faces. -/
  | faces (l : List Int)
  /-- The faces of the `n`-th latest roll that had any, the latest being the first. -/
  | back (n : Nat)
  deriving DecidableEq, Repr

namespace Amount

/-- The text of an amount as it stands in a dice code. -/
def text : Amount → Text
  | count n => Whole.render n
  | faces l => '[' :: Text.join ',' (l.map Whole.render) ++ [']']
  | back n => List.replicate n '-'

end Amount

end DiceNotation
