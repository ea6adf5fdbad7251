import DiceNotation.Resolution.Flatten

/-!
# Trees as arenas

The tree of a text can be kept in one list.  Its entries are the *nodes*, an *id* is a place in the
list, and a group or a define in the pieces of a node is the id of the node with the pieces of its
inside.  A node is added to the end of the list when all of its pieces are known, so the nodes are
in post-order, and the root is the last of them.

Texts are taken apart into an arena as they are taken apart into pieces, with a list that grows
meanwhile, and an arena is put together again by following ids.  Any list of nodes is an arena, also
one whose ids lead nowhere or in a circle; so the ids that are followed one after another are
bounded, by the number of nodes.

* `Link`, `Arena.Node`, `Arena`: lists of nodes.
* `Arena.grow`, `Arena.tree`: the arena of a text.
* `Arena.linearize`, `Arena.resolve`: the flat dice code of an arena and of a text.
-/

namespace DiceNotation

/-- A piece of a node. -/
inductive Link where
  /-- Text that stands as it is. -/
  | text (t : Text)
  /-- A group, with the node of its inside. -/
  | group (child : Nat)
  /-- A define, with the node of its value. -/
  | define (child : Nat)
  deriving DecidableEq, Repr

namespace Link

/-- The node that a piece refers to. -/
def child? : Link → Option Nat
  | text _ => none
  | group child => some child
  | define child => some child

/-- Whether a piece is a group. -/
def isGroup : Link → Bool
  | group _ => true
  | _ => false

/-- Text before some pieces.  No text stands next to another one, and none is empty. -/
def addText (t : Text) : List Link → List Link
  | text u :: links => text (t ++ u) :: links
  | links => if t.isEmpty then links else text t :: links

end Link

/-- The pieces of a text, and how many groups it is in. -/
structure Arena.Node where
  depth : Nat
  links : List Link
  deriving DecidableEq, Repr

/-- A list of nodes, which are known by their places in it. -/
abbrev Arena := List Arena.Node

/-- A turn that counts the defines that it expands, and adds nodes to an arena. -/
abbrev Growing (ρ : Type) := StateT Arena (Expanding ρ)

namespace Arena

variable {ρ : Type} (again : Reentry ρ)

/-- Adds a node at the end. -/
def push (node : Node) : Growing ρ Nat := modifyGet fun a => (a.length, a ++ [node])

/-- The links of atoms, where groups and defines become nodes by `grow`. -/
def attach (grow : Nat → List Text → Text → Growing ρ Nat) (depth : Nat) (used : List Text) :
    List Atom → Growing ρ (List Link)
  | [] => pure []
  | .group inner :: atoms => do
    let child ← grow (depth + 1) used inner
    let rest ← attach grow depth used atoms
    return .group child :: rest
  | .other t :: atoms => do
    let rest ← attach grow depth used atoms
    return Link.addText t rest
  | .name n :: atoms => do
    let s ← liftM (liftM (getThe (Session ρ) : Turn ρ (Session ρ)) : Expanding ρ (Session ρ))
    let value := if used.contains n then none else s.defines.get? n
    match value with
    | none => do
      let rest ← attach grow depth used atoms
      return Link.addText n rest
    | some value => do
      liftM (Resolution.countExpansion : Expanding ρ Unit)
      let child ← grow depth (n :: used) value
      let rest ← attach grow depth used atoms
      return .define child :: rest

/-- The node of a text at a depth, where some names are in use, by a path of bounded length. -/
def grow : (path : Nat) → (depth : Nat) → (used : List Text) → Text → Growing ρ Nat
  | 0, _, _, _ => liftM (throw .exhausted : Expanding ρ Nat)
  | path + 1, depth, used, t => do
    let s ← liftM (liftM (getThe (Session ρ) : Turn ρ (Session ρ)) : Expanding ρ (Session ρ))
    if s.config.maxDepth < depth then
      liftM (liftM (Turn.fail (.recursionLimit s.config.maxDepth) : Turn ρ Nat) : Expanding ρ Nat)
    else
      let atoms ← liftM (Resolution.prepare again t)
      let s ← liftM (liftM (getThe (Session ρ) : Turn ρ (Session ρ)) : Expanding ρ (Session ρ))
      match Atom.splice? s.defines used atoms with
      | some (n, t) => do
        liftM (Resolution.countExpansion : Expanding ρ Unit)
        grow path depth (n :: used) t
      | none => do
        let links ← attach (grow path) depth used atoms
        push ⟨depth, links⟩

/-- The root of a text in the arena of its nodes. -/
def tree (t : Text) : Turn ρ (Nat × Arena) := do
  let s ← get
  let (planted, _) ← ((grow again (Resolution.pathBound s.config) 0 [] t).run []).run 0
  return planted

variable [Roller ρ]

/-- The text of links, where nodes are put together by `down` and groups are rolled. -/
def spell (down : Nat → Turn ρ Text) : List Link → Turn ρ Text
  | [] => pure []
  | .text t :: links => do
    let rest ← spell down links
    return t ++ rest
  | .define child :: links => do
    let value ← down child
    let rest ← spell down links
    return value ++ rest
  | .group child :: links => do
    let code ← down child
    let roll ← Turn.rollCode code
    let rest ← spell down links
    return Whole.render roll.value ++ rest

/-- The flat dice code of a node, by at most so many ids one after another. -/
def linearize (a : Arena) : (bound : Nat) → (id : Nat) → Turn ρ Text
  | 0, _ => throw .exhausted
  | bound + 1, id =>
    match a[id]? with
    | none => throw .exhausted
    | some node => do
      let t ← spell (linearize a bound) node.links
      Resolution.fold t

/-- The flat dice code that a text resolves to, by way of an arena. -/
def resolve (t : Text) : Turn ρ Text := do
  let (root, a) ← tree again t
  linearize a a.length root

end Arena

end DiceNotation
