import DiceNotation.Reduction

/-!
# The configuration of a session

A configuration fills in what dice codes leave open, and bounds what one request can cost.  It never
changes during a session.
-/

namespace DiceNotation

/-- The settings of a session. -/
structure Config where
  /-- The sides of dice when a code names none. -/
  defaultSides : Int := 10
  /-- The reduction when a code with sides names none. -/
  defaultReduction : Reduction := .nothing
  /-- How many dice one request may roll, if that is bounded. -/
  maxRolls : Option Nat := some 10000
  historyCapacity : Nat := 100
  backCapacity : Nat := 5
  /-- How deep groups may nest, and rolls that triggers start. -/
  maxDepth : Nat := 100
  /-- How many defines one resolution may expand. -/
  maxExpansions : Nat := 1000
  permissions : List String := []
  deriving DecidableEq, Repr

namespace Config

/-- The permission to raise the limits of triggers. -/
def administrator : String := "Administrator"

/-- Whether the limits of triggers may be raised. -/
def isAdministrator (c : Config) : Bool := c.permissions.contains administrator

end Config

end DiceNotation
