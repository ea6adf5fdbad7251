import DiceNotation.Whole

/-!
# Reductions

A reduction makes one number of the faces of a roll.  A dice code asks for one by the letter at its
end, or by the list of ranks at its start.
-/

namespace DiceNotation

/-- How faces become one number. -/
inductive Reduction where
  /-- The sum of the faces. -/
  | sum
  /-- The highest face. -/
  | max
  /-- The lowest face. -/
  | min
  /-- No number at all. -/
  | nothing
  /-- The amount that was asked for, whatever the faces. -/
  | amount
  /-- The number of faces that reach the difficulty. -/
  | successes
  /-- The sum of the faces at these ranks of the ascending order, of which there is at least one. -/
  | ranks (first : Int) (others : List Int)
  deriving DecidableEq, Repr

namespace Reduction

/-- The reduction that a letter at the end of a code asks for. -/
def ofSuffix? : Char → Option Reduction
  | 'g' => some sum
  | 'h' => some max
  | 'l' => some min
  | '~' => some nothing
  | '=' => some amount
  | _ => none

/-- The reduction by a list of ranks, if there is one in it. -/
def ofRanks? : List Int → Option Reduction
  | [] => none
  | first :: others => some (ranks first others)

/-- The ranks of a reduction that selects by rank. -/
def ranks? : Reduction → Option (List Int)
  | ranks first others => some (first :: others)
  | _ => none

/-- Whether a reduction selects by rank. -/
def isSelector (r : Reduction) : Bool := r.ranks?.isSome

/-- What a reduction is called; ranks are written as at the start of a code. -/
def text : Reduction → Text
  | sum => "sum".toList
  | max => "max".toList
  | min => "min".toList
  | nothing => "none".toList
  | amount => "id".toList
  | successes => "threshold".toList
  | ranks first others => Text.join ',' ((first :: others).map Whole.render) ++ ['@']

@[simp] theorem ranks?_ranks (first : Int) (others : List Int) :
    ranks? (ranks first others) = some (first :: others) := rfl

/-- A reduction has ranks exactly if it was made of them. -/
theorem ranks?_eq_some_iff {r : Reduction} {l : List Int} :
    r.ranks? = some l ↔ ofRanks? l = some r := by
  constructor
  · intro h
    cases r with
    | ranks first others => cases h; rfl
    | _ => exact absurd h (by simp [ranks?])
  · intro h
    cases l with
    | nil => exact absurd h (by simp [ofRanks?])
    | cons first others => cases h; rfl

end Reduction

end DiceNotation
