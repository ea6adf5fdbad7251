import DiceNotation.Group
import DiceNotation.Session.Basic
import DiceNotation.Trigger.Script
import DiceNotation.Trigger.Surroundings

/-!
# Firing triggers

A trigger that fires changes the session, and its output replaces it in the text.  Most triggers
have no output.

## Starting again

Some triggers roll, and the texts that they roll may hold defines with triggers of their own.  So
firing depends on evaluation and resolution, of which it is a part.  This module takes the two as
a parameter, a `Reentry`, and says nothing about how often one may lead to another.

## Loops and projects

A loop rolls so many times, and a project until a goal is reached.  The counts are resolved before
the limits are looked up, since the text of a count may itself change them.  Results that are
missing count zero, and totals stop at the ends of the range of whole numbers.

* `Reentry`: evaluation and resolution, as triggers use them.
* `fire`: one trigger, with the text around it.
* `fireAll`, `expand`: the triggers of a script from left to right.
-/

namespace DiceNotation

/-- How triggers start evaluation and resolution again. -/
structure Reentry (ρ : Type) where
  evaluate : Text → Turn ρ Roll
  resolve : Text → Turn ρ Text

namespace Trigger

/-- The most rolls of a project. -/
def projectCap : Nat := 50

/-- The most rolls of a loop. -/
def loopCap : Nat := 100

/-- How many times as many rolls there may be when the limits are raised. -/
def limitBreakFactor : Nat := 10

/-- The greatest number that can be set as the bound of projects. -/
def maxCap : Int := 100

/-- A cap under the given flags. -/
def raised (flags : Flags) (cap : Nat) : Nat :=
  if flags.limitBreak then cap * limitBreakFactor else cap

/-- The most rolls of a project under the given flags. -/
def projectLimit (flags : Flags) : Nat :=
  match flags.max with
  | some n => min (raised flags projectCap) n.toNat
  | none => raised flags projectCap

/-- Without raised limits a cap is what it is. -/
theorem raised_of_not_limitBreak {flags : Flags} (h : flags.limitBreak = false) (cap : Nat) :
    raised flags cap = cap := by
  unfold raised
  rw [h, if_neg Bool.false_ne_true]

/-- The bound that can be set for projects only lowers their cap. -/
theorem projectLimit_le (flags : Flags) : projectLimit flags ≤ raised flags projectCap := by
  unfold projectLimit
  split
  · exact Nat.min_le_left _ _
  · exact Nat.le_refl _

variable {ρ : Type} (again : Reentry ρ)

/-- The whole number that a text resolves to. -/
def resolveWhole (t : Text) : Turn ρ Int := do
  let code ← again.resolve t
  match Whole.read? (Text.trim code) with
  | some n => pure n
  | none => Turn.fail (.notWhole t)

/-- Rolls so many times, and adds the results to a total. -/
def repeatRoll (roll : Text) (total : Int) : Nat → Turn ρ Int
  | 0 => pure total
  | n + 1 => do
    let r ← again.evaluate roll
    repeatRoll roll (Whole.clamp (total + r.value)) n

/-- Runs a loop, and answers with the total. -/
def runLoop (roll times : Text) : Turn ρ Int := do
  let n ← resolveWhole again times
  let s ← get
  repeatRoll again roll 0 (min n.toNat (raised s.flags loopCap))

/-- The record of a project after one more roll. -/
def addRoll (record : ProjectRecord) (r : Roll) : ProjectRecord :=
  let iterations := record.iterations + 1
  let total := Whole.clamp (record.total + r.value)
  let code := String.ofList r.dice.code
  let line := s!"{iterations}: {code} rolled {r.value}, {total} of {record.goal}"
  { record with iterations, total, log := record.log ++ [line] }

/-- Rolls until the goal is reached, but at most so many times. -/
def pursue (roll : Text) (record : ProjectRecord) : Nat → Turn ρ ProjectRecord
  | 0 => pure record
  | n + 1 =>
    if record.total < record.goal then do
      let r ← again.evaluate roll
      pursue roll (addRoll record r) n
    else pure record

/-- Runs a project, and answers with its record. -/
def runProject (roll goal : Text) : Turn ρ ProjectRecord := do
  let goal ← resolveWhole again goal
  let s ← get
  let record ← pursue again roll { goal } (projectLimit s.flags)
  Turn.modifyFlags fun flags => { flags with project := some record }
  return record

/-- The text that a word stands for: a word that is one group is rolled. -/
def wordValue (word : Text) : Turn ρ Text :=
  match Group.wrapped? word with
  | some inner => do
    let r ← again.evaluate inner
    return Whole.render r.value
  | none => pure word

/-- Sets defines to the words around, each to the last word that is left. -/
def bindWords (around : Surroundings) : List Text → Turn ρ Surroundings
  | [] => pure around
  | key :: keys =>
    match around.takeWord? with
    | none => Turn.fail (.noWordLeft key)
    | some (word, around) => do
      let value ← wordValue again word
      Turn.modifyDefines fun d => d.insert key value
      bindWords around keys

/-- The branch of a conditional that a value selects, with the value for every dollar sign. -/
def branch (value : Int) (yes no : Text) : Text :=
  (if 0 < value then yes else no).flatMap fun c => if c = '$' then Whole.render value else [c]

/-- Fires a trigger that does not look at the text around. -/
def fireAlone : Trigger → Turn ρ Text
  | limitBreak => do
    let s ← get
    Turn.modifyFlags (Flags.breakLimits s.config.isAdministrator)
    return []
  | shift n => do
    Turn.modifyFlags fun flags => { flags with shift := some n }
    return []
  | max n => do
    Turn.modifyFlags fun flags => { flags with max := some (min n maxCap) }
    return []
  | project roll goal => do
    let record ← runProject again roll goal
    return Whole.render record.iterations
  | toggle which on => do
    Turn.modifyFlags (Flags.switch which on)
    return []
  | loop roll times => do
    let _ ← runLoop again roll times
    return []
  | loopSum roll times => do
    let total ← runLoop again roll times
    return Whole.render total
  | values assignments => do
    let s ← get
    let (defines, _) ← Turn.ofExcept (s.defines.assign assignments)
    Turn.modifyDefines fun _ => defines
    return []
  | resonances => do
    let s ← get
    throw (.message s.history.resonanceReport)
  | param _ => pure []
  | conditional condition yes no => do
    let r ← again.evaluate condition
    return branch r.value yes no

/-- Fires a trigger, and answers with its output and what it leaves of the text around. -/
def fire (t : Trigger) (around : Surroundings) : Turn ρ (Text × Surroundings) :=
  match t with
  | param keys => do
    let around ← bindWords again around keys.reverse
    return ([], around)
  | t => do
    let output ← fireAlone again t
    return (output, around)

/-- Fires triggers from left to right, and answers with the text that is left. -/
def fireAll : List Trigger → Surroundings → Turn ρ Text
  | [], around => pure around.text
  | t :: ts, around => do
    let (output, around) ← fire again t around
    fireAll ts (around.advance output)

/-- The text after all of its triggers have fired. -/
def expand (t : Text) : Turn ρ Text := do
  let script ← Turn.ofExcept (Script.scan t)
  fireAll again (script.rest.map Prod.fst) ⟨[script.lead], script.rest.map Prod.snd⟩

end Trigger

end DiceNotation
