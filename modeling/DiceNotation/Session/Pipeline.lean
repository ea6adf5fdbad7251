import DiceNotation.Resolution.Flatten
import DiceNotation.Text.Segments

/-!
# Requests to a session

A text is resolved to a flat dice code, and the code is rolled; this is evaluating the text.  A
request evaluates the segments of a text, which are divided by semicolons outside of triggers, and
the budget of dice is for all of them together.

## Triggers that start triggers

Evaluation fires triggers, and triggers evaluate.  The depth of evaluations is bounded by the
configuration.  A trigger that only resolves a number starts no evaluation, though, and a define
that does so with its own name would go on for ever.  So there is a second bound, on how often a
trigger may be started by another: `reentry n` answers `n` times in a chain and then halts with
`Halt.exhausted`, which is no error of the text.

Requests use `reach` for this bound.  A chain holds at most as many evaluations as the depth
allows, and one more, which is refused.  The rest of it are numbers that are resolved, and `reach`
leaves room for a million of them.  So a chain of evaluations alone ends with the depth and never
with `Halt.exhausted`, whatever the configuration allows.

* `Turn.evaluateWith`: one evaluation.
* `reentry`: evaluation and resolution for triggers; `reach`: how many of them in a chain.
* `Turn.request`, `Turn.evaluate`, `Turn.resolve`.
-/

namespace DiceNotation

variable {ρ : Type} [Roller ρ]

namespace Turn

/-- Resolves a text and rolls the code, unless too many evaluations are under way. -/
def evaluateWith (again : Reentry ρ) (t : Text) : Turn ρ Roll := do
  let s ← get
  if s.config.maxDepth ≤ s.depth then fail (.recursionLimit s.config.maxDepth)
  else deeper do
    let code ← Resolution.resolve again t
    rollCode code

end Turn

/-- Evaluation and resolution for triggers, when so many of them may start one another. -/
def reentry : Nat → Reentry ρ
  | 0 => ⟨fun _ => throw .exhausted, fun _ => throw .exhausted⟩
  | n + 1 =>
    ⟨fun t => Turn.evaluateWith (reentry n) t, fun t => Resolution.resolve (reentry n) t⟩

/-- How many numbers may be resolved in one chain of triggers. -/
def maxNumbers : Nat := 1000000

/-- How many triggers may start one another in a request: the evaluations that the depth allows,
the one that it refuses, and the numbers. -/
def reach (config : Config) : Nat := config.maxDepth + 1 + maxNumbers

/-- The evaluation that the depth refuses is within reach. -/
theorem maxDepth_lt_reach (config : Config) : config.maxDepth < reach config := by
  unfold reach
  omega

namespace Turn

/-- Evaluates a text. -/
def evaluate (t : Text) : Turn ρ Roll := do
  let s ← get
  evaluateWith (reentry (reach s.config)) t

/-- Resolves a text to a flat dice code. -/
def resolve (t : Text) : Turn ρ Text := do
  let s ← get
  Resolution.resolve (reentry (reach s.config)) t

/-- Evaluates segments in order, where blank ones are empty rolls. -/
def evaluateAll : List Text → Turn ρ (List Roll)
  | [] => pure []
  | t :: ts => do
    let r ← if Text.isAllBlank t then pure Roll.empty else evaluate t
    let rs ← evaluateAll ts
    return r :: rs

/-- Begins a new count of dice, and evaluates the segments of a text. -/
def request (t : Text) : Turn ρ (List Roll) := do
  modify fun s => { s with cup := s.cup.reset }
  evaluateAll (Text.segments t)

end Turn

end DiceNotation
