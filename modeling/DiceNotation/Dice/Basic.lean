import DiceNotation.Cup
import DiceNotation.Dice.Extremes
import DiceNotation.Dice.Spec

/-!
# Rolling dice

## Waves

A die that shows a face at or above the threshold rolls another die.  This happens in waves: all
dice of the first wave are rolled, then one more for each that exploded, and so on until a wave
has no exploding face.  Each wave is one request to the cup.  Every wave but the last asks for at
least one further die, so the cup's limit is reached if the dice do not stop exploding by
themselves, and this is what `waves` ends by.

## Settling

When all faces are known, the extreme ones are dropped, and then those that are kept are sorted if
that was asked for.  Faces that were given are settled in the same way.  The sign of a negative
count is kept apart from the faces and only enters totals.

* `waves`: the faces of every wave after the first.
* `roll`: the dice that a specification asks for.
* `ofFaces`: dice with faces that were decided elsewhere.
-/

namespace DiceNotation

/-- What has been rolled. -/
structure Dice where
  /-- The code that asked for the roll. -/
  code : Text
  spec : Dice.Spec
  /-- The faces that count. -/
  faces : List Int
  /-- The faces that do not count. -/
  dropped : List Int
  /-- `-1` if the count was negative, else `1`. -/
  sign : Int
  /-- How many dice were rolled because of others. -/
  explosions : Nat
  /-- What happened, in lines for people. -/
  log : List String
  deriving DecidableEq, Repr

namespace Dice

/-- Faces, separated by commas. -/
def facesText (faces : List Int) : String := String.intercalate ", " (faces.map toString)

/-- The faces in ascending order. -/
def ascending (faces : List Int) : List Int := faces.mergeSort fun a b => decide (a ≤ b)

/-- The sign of an amount. -/
def signOf : Amount → Int
  | .count n => if n < 0 then -1 else 1
  | _ => 1

/-- The dice whose faces, before dropping and sorting, are the given ones. -/
def settle (code : Text) (spec : Spec) (faces : List Int) (sign : Int) (explosions : Nat)
    (log : List String) : Dice :=
  let (kept, dropped) := splitExtremes spec.rerolls faces
  { code
    spec
    faces := if spec.sort then ascending kept else kept
    dropped
    sign
    explosions
    log := if dropped.isEmpty then log else log ++ [s!"dropped [{facesText dropped}]"] }

/-- The dice of a roll of nothing. -/
def empty : Dice := settle [] { amount := .count 0, sides := 1 } [] 1 0 []

/-- Dice with faces that were decided elsewhere. -/
def ofFaces (code : Text) (spec : Spec) (faces : List Int) : Dice :=
  settle code spec faces (signOf spec.amount) 0 []

/-- How many faces explode. -/
def exploding (threshold : Int) (faces : List Int) : Nat :=
  faces.countP fun face => decide (threshold ≤ face)

variable {ρ : Type} [Roller ρ]

/-- The waves of dice that `pending` exploded dice lead to. -/
def waves (lo hi threshold : Int) (pending : Nat) (cup : Cup ρ) :
    Except RollError (List (List Int)) × Cup ρ :=
  if pending = 0 then (.ok [], cup)
  else
    match _h : cup.roll pending lo hi with
    | (.error e, cup) => (.error e, cup)
    | (.ok wave, cup) =>
      match waves lo hi threshold (exploding threshold wave) cup with
      | (.error e, cup) => (.error e, cup)
      | (.ok rest, cup) => (.ok (wave :: rest), cup)
termination_by cup.limit - cup.rolls
decreasing_by
  have hc := Cup.rolls_of_roll_ok _h
  omega

/-- The line of the log for a wave. -/
def waveText (wave : List Int) : String := s!"{wave.length} exploded into [{facesText wave}]"

/-- Rolls a count of dice and all that explode. -/
def rollCount (code : Text) (spec : Spec) (n : Int) (cup : Cup ρ) :
    Except RollError Dice × Cup ρ :=
  match cup.roll n.natAbs spec.min spec.sides with
  | (.error e, cup) => (.error e, cup)
  | (.ok first, cup) =>
    let line := s!"rolled {n}d{spec.sides}: [{facesText first}]"
    let sign := signOf (.count n)
    match spec.explosionThreshold? with
    | none => (.ok (settle code spec first sign 0 [line]), cup)
    | some threshold =>
      match waves spec.min spec.sides threshold (exploding threshold first) cup with
      | (.error e, cup) => (.error e, cup)
      | (.ok more, cup) =>
        (.ok (settle code spec (first ++ more.flatten) sign more.flatten.length
          (line :: more.map waveText)), cup)

/-- The dice that a specification asks for. -/
def roll (code : Text) (spec : Spec) (cup : Cup ρ) : Except RollError Dice × Cup ρ :=
  match spec.amount with
  | .count n => rollCount code spec n cup
  | .faces l => (.ok (settle code spec l 1 0 [s!"given faces [{facesText l}]"]), cup)
  | .back n => (.error (.unresolvedReference n), cup)

end Dice

end DiceNotation
