/-!
# What triggers leave behind

Triggers set flags and numbers that stay until they are set again or all are reset together.  Some
change what later triggers or descriptions do; the others are only kept for whoever asks.
-/

namespace DiceNotation

/-- How the latest project went. -/
structure ProjectRecord where
  iterations : Nat := 0
  total : Int := 0
  goal : Int
  /-- One line for every roll. -/
  log : List String := []
  deriving DecidableEq, Repr

/-- The two ways of describing rolls that can be switched on and off. -/
inductive Toggle where
  /-- By the result alone. -/
  | ignore
  /-- With the log. -/
  | verbose
  deriving DecidableEq, Repr

/-- The flags and numbers set by triggers. -/
structure Flags where
  /-- The bound on the rolls of a project. -/
  max : Option Int := none
  shift : Option Int := none
  /-- Whether loops and projects may go on for longer. -/
  limitBreak : Bool := false
  /-- Whether that was asked for without permission. -/
  rightsViolation : Bool := false
  /-- Whether rolls are described by their results alone. -/
  ignore : Bool := false
  /-- Whether rolls are described with their logs. -/
  verbose : Bool := false
  project : Option ProjectRecord := none
  deriving DecidableEq, Repr

namespace Flags

/-- The flags after a way of describing rolls was switched. -/
def switch (which : Toggle) (on : Bool) (flags : Flags) : Flags :=
  match which with
  | .ignore => { flags with ignore := on }
  | .verbose => { flags with verbose := on }

/-- The flags after it was asked to raise the limits, by someone who may do so or not. -/
def breakLimits (permitted : Bool) (flags : Flags) : Flags :=
  if permitted then { flags with limitBreak := true }
  else { flags with rightsViolation := true }

end Flags

end DiceNotation
