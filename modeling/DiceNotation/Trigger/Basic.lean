import DiceNotation.Error
import DiceNotation.Flags
import DiceNotation.Text.Blank
import DiceNotation.Text.Word

/-!
# Triggers

A trigger is written between two ampersands: its name, and after a blank its body.  This module
reads the inside of such a span; what a trigger does when it fires is another matter.

* `limitbreak` asks to raise the limits of loops and projects.
* `shift n` and `max n` set a number.
* `project roll goal` rolls until the goal is reached.
* `ignore` and `verbose` switch descriptions, back with the word `off`.
* `loop roll times` and `loopsum roll times` roll repeatedly.
* `values assignments` sets defines.
* `resonances` ends the request with a report.
* `param keys` sets defines to the words around.
* `if condition then a else b done` chooses between two texts.

A roll with a number is divided at the last blank, so that the roll may hold blanks itself.  The
words of a conditional are found from left to right: the first `then`, the first `else` after it,
and a `done` at the very end, all of them whole words.
-/

namespace DiceNotation

/-- What is written between two ampersands. -/
inductive Trigger where
  | limitBreak
  | shift (n : Int)
  | max (n : Int)
  | project (roll goal : Text)
  | toggle (which : Toggle) (on : Bool)
  | loop (roll times : Text)
  | loopSum (roll times : Text)
  | values (assignments : Text)
  | resonances
  | param (keys : List Text)
  | conditional (condition yes no : Text)
  deriving DecidableEq, Repr

namespace Trigger

open Text

/-- The whole number that is the body of the trigger of a name. -/
def wholeBody (name body : Text) : Except RollError Int :=
  match Whole.read? body with
  | some n => .ok n
  | none => .error (.triggerNumber name body)

/-- The roll and the last word of the body of the trigger of a name. -/
def rollBody (name body : Text) : Except RollError (Text × Text) :=
  match cutLast isBlank body with
  | some (roll, last) =>
    if isAllBlank roll then .error (.triggerRoll name) else .ok (trim roll, last)
  | none => .error (.triggerRoll name)

/-- Whether a switch is turned on, which it is without the word `off`. -/
def switchBody (body : Text) : Bool := !(words body).contains ['o', 'f', 'f']

/-- The three parts of a conditional. -/
def conditionalBody? (body : Text) : Option (Text × Text × Text) := do
  let (condition, rest) ← cutAtWord "then".toList body
  let (yes, rest) ← cutAtWord "else".toList rest
  let no ← cutFinalWord "done".toList rest
  return (trim condition, trim yes, trim no)

/-- The name and the body of a trigger. -/
def nameAndBody (inside : Text) : Text × Text :=
  match cutFirst isBlank (trim inside) with
  | some (name, body) => (name, trim body)
  | none => (trim inside, [])

/-- The trigger of a name and a body. -/
def ofNameAndBody (name body : Text) : Except RollError Trigger :=
  match String.ofList name with
  | "limitbreak" => .ok .limitBreak
  | "shift" => do return .shift (← wholeBody name body)
  | "max" => do return .max (← wholeBody name body)
  | "project" => do
    let (roll, goal) ← rollBody name body
    return .project roll goal
  | "ignore" => .ok (.toggle .ignore (switchBody body))
  | "verbose" => .ok (.toggle .verbose (switchBody body))
  | "loop" => do
    let (roll, times) ← rollBody name body
    return .loop roll times
  | "loopsum" => do
    let (roll, times) ← rollBody name body
    return .loopSum roll times
  | "values" => .ok (.values body)
  | "resonances" => .ok .resonances
  | "param" => .ok (.param (words body))
  | "if" =>
    match conditionalBody? body with
    | some (condition, yes, no) => .ok (.conditional condition yes no)
    | none => .error .malformedConditional
  | _ => .error (.unknownTrigger name)

/-- The trigger that is written between two ampersands. -/
def parse (inside : Text) : Except RollError Trigger :=
  let (name, body) := nameAndBody inside
  ofNameAndBody name body

end Trigger

end DiceNotation
