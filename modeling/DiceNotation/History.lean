import DiceNotation.Roll.Basic

/-!
# The history of rolls

A history remembers the latest rolls, and apart from them the faces of the latest rolls that had
any.  The second list is what a code of dashes refers to, and it is bounded on its own: plain
numbers have no faces and do not use up places in it.

Both lists are oldest first.  A list that is full gives up its oldest entry for a new one, and with
capacity zero nothing is remembered.

* `push`, `clear`.
* `recent`, `last?`, `back?`: the entries counted from the newest.
* `resonanceReport`: one line for every roll that selects by rank.
-/

namespace DiceNotation

/-- Faces that later codes can use again. -/
structure BackReference where
  faces : List Int
  sides : Int
  deriving DecidableEq, Repr

/-- The latest rolls and the latest faces. -/
structure History where
  capacity : Nat := 100
  backCapacity : Nat := 5
  rolls : List Roll := []
  backs : List BackReference := []
  deriving DecidableEq, Repr

namespace History

/-- Adds an entry to a list of bounded length. -/
def remember {α : Type} (capacity : Nat) (entries : List α) (entry : α) : List α :=
  if capacity = 0 then entries
  else if entries.length = capacity then entries.drop 1 ++ [entry]
  else entries ++ [entry]

/-- The faces that a roll leaves behind, if it has any. -/
def backOf? (r : Roll) : Option BackReference :=
  if r.dice.faces.isEmpty then none else some ⟨r.dice.faces, r.dice.spec.sides⟩

/-- Records a roll. -/
def push (h : History) (r : Roll) : History :=
  { h with
    backs := match backOf? r with
      | some back => remember h.backCapacity h.backs back
      | none => h.backs
    rolls := remember h.capacity h.rolls r }

/-- Forgets everything. -/
def clear (h : History) : History := { h with rolls := [], backs := [] }

/-- How many rolls are remembered. -/
def length (h : History) : Nat := h.rolls.length

/-- Whether no roll is remembered. -/
def isEmpty (h : History) : Bool := h.rolls.isEmpty

/-- The newest roll. -/
def last? (h : History) : Option Roll := h.rolls.getLast?

/-- Up to `n` of the latest rolls, newest first. -/
def recent (h : History) (n : Nat) : List Roll := h.rolls.reverse.take n

/-- The `n`-th latest faces, where the latest are the first. -/
def back? (h : History) : Nat → Option BackReference
  | 0 => none
  | n + 1 => h.backs.reverse[n]?

/-- The line of the report for a roll that selects by rank. -/
def resonanceLine? (r : Roll) : Option String :=
  r.resonances.map fun counts =>
    let body :=
      if counts.isEmpty then "no resonances"
      else String.intercalate ", " (counts.map fun c => s!"{c.1}×{c.2}")
    s!"{String.ofList r.dice.code}: {body}"

/-- The resonances of the remembered rolls, oldest first. -/
def resonanceReport (h : History) : String :=
  let lines := h.rolls.filterMap resonanceLine?
  if lines.isEmpty then "no selector rolls" else String.intercalate "\n" lines

end History

end DiceNotation
