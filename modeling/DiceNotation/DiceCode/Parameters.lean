import DiceNotation.Amount
import DiceNotation.DiceCode.Key
import DiceNotation.Reduction

/-!
# The parameters of a dice code

A dice code makes a list of *settings*, each of one key.  The keys that no setting names have the
values of a code that does not mention them: nothing is dropped, sorted or exploded, and sides,
reduction and difficulty are left open.  Only the amount has no such value, so there are no
parameters without one.

The parameters look a key up in the list of settings.  They depend on the settings and not on their
order, as long as no key is set twice.
-/

namespace DiceNotation.DiceCode

/-- One parameter with its value. -/
inductive Setting where
  | amount (a : Amount)
  | sides (n : Int)
  | rerolls (n : Int)
  | sort
  | explosion (n : Int)
  | reduction (r : Reduction)
  | difficulty (n : Int)
  | oneBehaviour (on : Bool)
  deriving DecidableEq, Repr

namespace Setting

/-- The parameter that is set. -/
def key : Setting → Key
  | amount _ => .amount
  | sides _ => .sides
  | rerolls _ => .rerolls
  | sort => .sort
  | explosion _ => .explosion
  | reduction _ => .reduction
  | difficulty _ => .difficulty
  | oneBehaviour _ => .oneBehaviour

/-- The amount, if that is what is set. -/
def amount? : Setting → Option Amount
  | amount a => some a
  | _ => none

/-- The number of sides, if that is what is set. -/
def sides? : Setting → Option Int
  | sides n => some n
  | _ => none

/-- The number of faces to drop, if that is what is set. -/
def rerolls? : Setting → Option Int
  | rerolls n => some n
  | _ => none

/-- The number of exploding faces, if that is what is set. -/
def explosion? : Setting → Option Int
  | explosion n => some n
  | _ => none

/-- The reduction, if that is what is set. -/
def reduction? : Setting → Option Reduction
  | reduction r => some r
  | _ => none

/-- The difficulty, if that is what is set. -/
def difficulty? : Setting → Option Int
  | difficulty n => some n
  | _ => none

/-- Whether ones count against successes, if that is what is set. -/
def oneBehaviour? : Setting → Option Bool
  | oneBehaviour on => some on
  | _ => none

end Setting

/-- What a dice code asks for. -/
structure Parameters where
  amount : Amount
  sides : Option Int := none
  /-- This many lowest faces are dropped, or highest ones if it is negative. -/
  rerolls : Int := 0
  sort : Bool := false
  /-- This many of the highest face values roll another die. -/
  explosion : Int := 0
  reduction : Option Reduction := none
  difficulty : Option Int := none
  oneBehaviour : Bool := false
  deriving DecidableEq, Repr

/-- The parameters that the settings make, if one of them is the amount. -/
def Parameters.ofSettings? (l : List Setting) : Option Parameters :=
  (l.findSome? Setting.amount?).map fun amount =>
    { amount
      sides := l.findSome? Setting.sides?
      rerolls := (l.findSome? Setting.rerolls?).getD 0
      sort := l.contains .sort
      explosion := (l.findSome? Setting.explosion?).getD 0
      reduction := l.findSome? Setting.reduction?
      difficulty := l.findSome? Setting.difficulty?
      oneBehaviour := (l.findSome? Setting.oneBehaviour?).getD false }

end DiceNotation.DiceCode
