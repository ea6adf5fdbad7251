import DiceNotation.Resolution.Atom
import DiceNotation.Trigger.Fire

/-!
# Building the tree of a text

Resolution first takes a text apart, as far down as it goes, and rolls the groups afterwards.  The
result of taking it apart is a tree of *pieces*: plain text, groups with the pieces of their
inside, and defines with the pieces of their value.

A text is taken apart in rounds.  In each round its triggers fire, empty groups vanish, and the
parentheses have to match.  If then a name in its plain text stands for text with triggers, that
text is put in the place of the name and another round begins, because those triggers may look at
the text around them.  Otherwise the pieces are made: for every group and every define the text is
taken apart in the same way.

## Why it ends

A define is not expanded inside its own expansion.  That alone would allow trees of any width, so
the expansions of one resolution are counted as well, and the depth of groups is bounded.  Every
step down the tree enters a group or expands a define, so a path is never longer than the two
limits together; `build` recurses on this number.
-/

namespace DiceNotation

/-- What a text consists of, before its groups are rolled. -/
inductive Pieces where
  | nil
  /-- Text that stands as it is. -/
  | text (t : Text) (rest : Pieces)
  /-- A group, which is rolled and replaced by its result. -/
  | group (inner rest : Pieces)
  /-- A define, which is replaced by its resolved value. -/
  | define (inner rest : Pieces)
  deriving DecidableEq, Repr

/-- A turn that counts the defines that it expands. -/
abbrev Expanding (ρ : Type) := StateT Nat (Turn ρ)

namespace Resolution

variable {ρ : Type} (again : Reentry ρ)

/-- Counts the expansion of a define. -/
def countExpansion : Expanding ρ Unit := do
  let n ← get
  set (n + 1)
  let s ← liftM (getThe (Session ρ) : Turn ρ (Session ρ))
  if s.config.maxExpansions < n + 1 then
    liftM (Turn.fail (.expansionLimit s.config.maxExpansions) : Turn ρ Unit)

/-- The pieces of atoms, where groups and defines are taken apart by `build`, given the depth and
the names in use. -/
def assemble (build : Nat → List Text → Text → Expanding ρ Pieces) (depth : Nat)
    (used : List Text) : List Atom → Expanding ρ Pieces
  | [] => pure .nil
  | .group inner :: atoms => do
    let inner ← build (depth + 1) used inner
    let rest ← assemble build depth used atoms
    return .group inner rest
  | .other t :: atoms => do
    let rest ← assemble build depth used atoms
    return .text t rest
  | .name n :: atoms => do
    let s ← liftM (getThe (Session ρ) : Turn ρ (Session ρ))
    let value := if used.contains n then none else s.defines.get? n
    match value with
    | none => do
      let rest ← assemble build depth used atoms
      return .text n rest
    | some value => do
      countExpansion
      let inner ← build depth (n :: used) value
      let rest ← assemble build depth used atoms
      return .define inner rest

/-- The text of a round: its triggers have fired and it has no empty groups. -/
def prepare (t : Text) : Expanding ρ (List Atom) := do
  let t ← liftM (Trigger.expand again t)
  let parts ← liftM (Turn.ofExcept (Group.parts? (Group.dropEmptyGroups t)) : Turn ρ _)
  return Atom.ofParts parts

/-- The pieces of a text at a depth, where some names are in use, by a path of bounded length. -/
def build : (path : Nat) → (depth : Nat) → (used : List Text) → Text → Expanding ρ Pieces
  | 0, _, _, _ => throw .exhausted
  | path + 1, depth, used, t => do
    let s ← liftM (getThe (Session ρ) : Turn ρ (Session ρ))
    if s.config.maxDepth < depth then
      liftM (Turn.fail (.recursionLimit s.config.maxDepth) : Turn ρ Pieces)
    else
      let atoms ← prepare again t
      let s ← liftM (getThe (Session ρ) : Turn ρ (Session ρ))
      match Atom.splice? s.defines used atoms with
      | some (n, t) => do
        countExpansion
        build path depth (n :: used) t
      | none => assemble (build path) depth used atoms

/-- The length that no path exceeds. -/
def pathBound (config : Config) : Nat := config.maxDepth + config.maxExpansions + 2

/-- The tree of a text. -/
def tree (t : Text) : Turn ρ Pieces := do
  let s ← get
  let (pieces, _) ← (build again (pathBound s.config) 0 [] t).run 0
  return pieces

end Resolution

end DiceNotation
