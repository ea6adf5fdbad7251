import DiceNotation.NumberRun
import DiceNotation.Resolution.Build
import DiceNotation.Session.RollCode

/-!
# Flattening the tree of a text

The pieces of a text are put together again from left to right.  A define gives its value,
flattened and folded.  A group is flattened and folded to a dice code; the code is rolled, and the
result takes the place of the group, or zero if there is none.  At last the numbers of the whole
text are folded, so that what remains is a flat dice code.
-/

namespace DiceNotation

namespace Resolution

variable {ρ : Type} [Roller ρ]

/-- The text with its runs of numbers folded. -/
def fold (t : Text) : Turn ρ Text :=
  Turn.ofExcept ((NumberRun.foldNumbers t).mapError .arith)

/-- The text of pieces, after the groups in it are rolled. -/
def flatten : Pieces → Turn ρ Text
  | .nil => pure []
  | .text t rest => do
    let rest ← flatten rest
    return t ++ rest
  | .define inner rest => do
    let value ← flatten inner
    let value ← fold value
    let rest ← flatten rest
    return value ++ rest
  | .group inner rest => do
    let code ← flatten inner
    let code ← fold code
    let roll ← Turn.rollCode code
    let rest ← flatten rest
    return Whole.render roll.value ++ rest

/-- The flat dice code that a text resolves to. -/
def resolve (again : Reentry ρ) (t : Text) : Turn ρ Text := do
  let pieces ← tree again t
  let t ← flatten pieces
  fold t

end Resolution

end DiceNotation
