import DiceNotation.Roll.Basic

/-!
# Rolls in words

A roll is described as its code, its faces, the faces that were dropped and its result.  A verbose
description adds the reduction and the log in lines of their own, and a terse one is the result
alone.
-/

namespace DiceNotation.Roll

/-- The code and the faces of dice. -/
def diceText (d : Dice) : String :=
  let faces := s!"({Dice.facesText d.faces})"
  let shown := if d.code.isEmpty then faces else s!"{String.ofList d.code} {faces}"
  if d.dropped.isEmpty then shown else s!"{shown} dropped ({Dice.facesText d.dropped})"

/-- The result, or nothing. -/
def terse (r : Roll) : String :=
  match r.result with
  | some n => toString n
  | none => ""

/-- The dice and their result. -/
def simple (r : Roll) : String :=
  match r.result with
  | some n => s!"{diceText r.dice} = {n}"
  | none => diceText r.dice

/-- The dice and their result, and how it came about. -/
def verbose (r : Roll) : String :=
  let lines := [r.simple, s!"return: {String.ofList r.reduction.text}"] ++ r.dice.log
  let explosions :=
    if 0 < r.dice.explosions then [s!"{r.dice.explosions} explosions"] else []
  String.intercalate "\n" (lines ++ explosions)

end DiceNotation.Roll
