import DiceNotation.DiceCode.Reader
import DiceNotation.Session.Basic

/-!
# Rolling a dice code

A flat dice code is read, completed by the session, rolled and recorded.

## What a session fills in

A reference to an earlier roll becomes the list of its faces.  A code that names no reduction asks
for the default one if it has sides, its own or those of the roll it refers to, and otherwise
stands for its amount.  Sides that are not named are those of the roll it refers to, or the
default; a code that stands for its amount has one-sided dice.

Counting one-sided dice is not worth a roll: a plain number has no faces and takes nothing from the
budget.

## What is recorded

The roll is recorded last, and only if its total is in range.  So a roll in the history always has a
total, and a code that fails leaves everything but the cup as it was.
-/

namespace DiceNotation

namespace Session

variable {ρ : Type}

/-- The amount of a code, and the sides of the roll that it refers to. -/
def resolveAmount (s : Session ρ) : Amount → Except RollError (Amount × Option Int)
  | .back n =>
    match s.history.back? n with
    | some back => .ok (.faces back.faces, some back.sides)
    | none => .error (.noSuchRoll n)
  | amount => .ok (amount, none)

/-- The reduction of a code. -/
def chooseReduction (s : Session ρ) (p : DiceCode.Parameters) (referenced : Option Int) :
    Reduction :=
  match p.reduction with
  | some r => r
  | none =>
    if p.sides.isNone && referenced.isNone then .amount else s.config.defaultReduction

/-- The sides of the dice of a code. -/
def chooseSides (s : Session ρ) (p : DiceCode.Parameters) (referenced : Option Int)
    (reduction : Reduction) : Int :=
  match p.sides with
  | some sides => sides
  | none => if reduction = .amount then 1 else referenced.getD s.config.defaultSides

/-- The roll that the parameters ask for in a session. -/
def specify (s : Session ρ) (p : DiceCode.Parameters) :
    Except RollError (Reduction × Dice.Spec) := do
  let (amount, referenced) ← s.resolveAmount p.amount
  let reduction := s.chooseReduction p referenced
  let spec : Dice.Spec :=
    { amount
      sides := s.chooseSides p referenced reduction
      rerolls := p.rerolls
      sort := p.sort
      explosion := p.explosion
      difficulty := p.difficulty
      oneBehaviour := p.oneBehaviour }
  return (reduction, spec)

/-- Whether a code without sides only counts. -/
def isCounting (p : DiceCode.Parameters) (reduction : Reduction) (amount : Amount) : Bool :=
  match amount with
  | .count _ => p.sides.isNone && decide (reduction = .amount)
  | _ => false

end Session

namespace Turn

variable {ρ : Type} [Roller ρ]

/-- Rolls a flat dice code and records it. -/
def rollCode (code : Text) : Turn ρ Roll := do
  let parameters ← ofExcept (DiceCode.read code)
  let s ← get
  let (reduction, spec) ← ofExcept (s.specify parameters)
  let shown := Text.trim code
  let dice ←
    if Session.isCounting parameters reduction spec.amount then pure (Dice.ofFaces shown spec [])
    else withCup (Dice.roll shown spec)
  let roll : Roll := ⟨reduction, dice⟩
  let _ ← ofExcept roll.total
  record roll
  return roll

end Turn

end DiceNotation
