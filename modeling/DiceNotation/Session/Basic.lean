import DiceNotation.Config
import DiceNotation.Cup
import DiceNotation.Defines
import DiceNotation.Flags
import DiceNotation.History
import DiceNotation.Roll.Describe

/-!
# Sessions

A session holds everything that the rolls of one user share: the defines, what triggers have left
behind, the history, and the cup with the dice.

## Turns

A *turn* is a computation in a session.  It ends with a value, or early for one of three reasons:
it has failed, a trigger has produced the final message, or the chain of triggers that start one
another has reached the length that it was allowed.  However it ends, there is a session
afterwards, which holds what was done up to then.

The depth counts the evaluations that are under way.  It is zero between turns, because `deeper`
takes back what it adds whichever way the inner turn ends (`depth_deeper`).

* `Session`, `Session.describe`, `Session.define`, `Session.switch`, `Session.resetFlags`.
* `Halt`, `Turn`: how turns end, and turns.
* `Turn.ofExcept`, `Turn.withCup`, `Turn.record`, `Turn.deeper`: the turns that others are made of.
-/

namespace DiceNotation

/-- The state that the rolls of one user share. -/
structure Session (ρ : Type) where
  config : Config
  defines : Defines := .empty
  flags : Flags := {}
  history : History
  cup : Cup ρ
  /-- How many evaluations are under way. -/
  depth : Nat := 0

namespace Session

/-- A session in which nothing has happened. -/
def start {ρ : Type} (config : Config) (roller : ρ) : Session ρ where
  config
  history := { capacity := config.historyCapacity, backCapacity := config.backCapacity }
  cup := { budget := config.maxRolls, roller }

/-- The description of a roll that the flags ask for. -/
def describe {ρ : Type} (s : Session ρ) (r : Roll) : String :=
  if s.flags.ignore then r.terse
  else if s.flags.verbose then r.verbose
  else r.simple

/-- The session after the defines of some pairs were set. -/
def define {ρ : Type} (s : Session ρ) (pairs : List (Text × Text)) : Session ρ :=
  { s with defines := s.defines.insertAll pairs }

/-- The session after a way of describing rolls was switched. -/
def switch {ρ : Type} (s : Session ρ) (which : Toggle) (on : Bool) : Session ρ :=
  { s with flags := s.flags.switch which on }

/-- The session without anything that triggers have set. -/
def resetFlags {ρ : Type} (s : Session ρ) : Session ρ := { s with flags := {} }

end Session

/-- Why a turn ends early. -/
inductive Halt where
  /-- Something is wrong with the input, or a limit is reached. -/
  | failed (e : RollError)
  /-- A trigger has produced the final message. -/
  | message (m : String)
  /-- Triggers have started one another for too long. -/
  | exhausted
  deriving DecidableEq, Repr

/-- A computation in a session. -/
abbrev Turn (ρ : Type) := EStateM Halt (Session ρ)

namespace Turn

variable {ρ α : Type}

/-- The turn that fails. -/
def fail (e : RollError) : Turn ρ α := throw (.failed e)

/-- The turn that has a value or fails. -/
def ofExcept : Except RollError α → Turn ρ α
  | .ok a => pure a
  | .error e => fail e

/-- Does something with the cup, which may fail. -/
def withCup (f : Cup ρ → Except RollError α × Cup ρ) : Turn ρ α := do
  let s ← get
  let (result, cup) := f s.cup
  set { s with cup }
  ofExcept result

/-- Changes the flags. -/
def modifyFlags (f : Flags → Flags) : Turn ρ Unit := modify fun s => { s with flags := f s.flags }

/-- Changes the defines. -/
def modifyDefines (f : Defines → Defines) : Turn ρ Unit :=
  modify fun s => { s with defines := f s.defines }

/-- Adds a roll to the history. -/
def record (r : Roll) : Turn ρ Unit := modify fun s => { s with history := s.history.push r }

/-- The session, one level deeper. -/
def enter (s : Session ρ) : Session ρ := { s with depth := s.depth + 1 }

/-- The session, back from one level deeper. -/
def leave (s : Session ρ) : Session ρ := { s with depth := s.depth - 1 }

/-- A turn one level deeper. -/
def deeper (t : Turn ρ α) : Turn ρ α := fun s =>
  match t (enter s) with
  | .ok a s => .ok a (leave s)
  | .error e s => .error e (leave s)

/-- The session after a turn, however it ended. -/
def after (t : Turn ρ α) (s : Session ρ) : Session ρ :=
  match t s with
  | .ok _ s => s
  | .error _ s => s

/-- If a turn keeps the depth, so does the turn one level deeper. -/
theorem depth_deeper {t : Turn ρ α} (h : ∀ s, (after t s).depth = s.depth) (s : Session ρ) :
    (after (deeper t) s).depth = s.depth := by
  have hs : (after t (enter s)).depth = s.depth + 1 := h (enter s)
  unfold after deeper
  unfold after at hs
  cases ht : t (enter s) with
  | ok a s' =>
    rw [ht] at hs
    show s'.depth - 1 = s.depth
    rw [hs, Nat.add_sub_cancel]
  | error e s' =>
    rw [ht] at hs
    show s'.depth - 1 = s.depth
    rw [hs, Nat.add_sub_cancel]

end Turn

end DiceNotation
