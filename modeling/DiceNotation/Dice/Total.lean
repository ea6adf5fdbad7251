import DiceNotation.Dice.Basic

/-!
# Totals of dice

The faces that count are reduced to one number, with the sign of the count.  A total that leaves
the range of whole numbers is an error, and so is one that leaves it on the way, since faces are
added one after another.

* `sum`, `max`, `min`, which no faces do not have.
* `id`: the count, or the number of faces that were given.
* `successes`: the faces that reach the difficulty, less the ones if they count against them.
  When the ones cancel all of at least one success, the roll is a botch and counts zero.
* `select`: the sum of the faces at some ranks of the ascending order, counted from one.  Ranks past
  the end mean the highest face, and ranks below one nothing.
-/

namespace DiceNotation.Dice

/-- A number with the sign of the dice. -/
def signed (d : Dice) (x : Int) : Except RollError Int :=
  match Whole.fit? (x * d.sign) with
  | some n => .ok n
  | none => .error .overflow

/-- One more summand. -/
def addFace (total face : Int) : Except RollError Int :=
  match Whole.fit? (total + face) with
  | some n => .ok n
  | none => .error .overflow

/-- The sum of faces with the sign of the dice. -/
def total (d : Dice) (faces : List Int) : Except RollError Int := do
  let sum ← faces.foldlM addFace 0
  d.signed sum

/-- A number that may be missing, with the sign of the dice. -/
def signed? (d : Dice) : Option Int → Except RollError (Option Int)
  | none => .ok none
  | some x => do
    let n ← d.signed x
    return some n

/-- The sum of the faces. -/
def sum (d : Dice) : Except RollError (Option Int) :=
  if d.faces.isEmpty then .ok none
  else do
    let n ← d.total d.faces
    return some n

/-- The highest face. -/
def max (d : Dice) : Except RollError (Option Int) := d.signed? d.faces.max?

/-- The lowest face. -/
def min (d : Dice) : Except RollError (Option Int) := d.signed? d.faces.min?

/-- The count with its sign, or the number of faces that were given. -/
def id (d : Dice) : Option Int :=
  match d.spec.amount with
  | .count n => some n
  | .faces l => Whole.fit? l.length
  | .back _ => none

/-- Successes less ones, where a botch counts zero. -/
def net (successes ones : Int) : Int :=
  if 0 < successes ∧ successes ≤ ones then 0 else successes - ones

/-- The successes against the difficulty, if there is one. -/
def successes (d : Dice) : Except RollError (Option Int) :=
  match d.spec.difficulty with
  | none => .ok none
  | some difficulty =>
    let reached := d.faces.countP fun face => decide (difficulty ≤ face)
    let ones := if d.spec.oneBehaviour then d.faces.count 1 else 0
    d.signed? (some (net reached ones))

/-- The faces at the given ranks of an ascending list, which a rank past the end reaches the last
of. -/
def atRanks (sorted : List Int) (ranks : List Int) : List Int :=
  ranks.filterMap fun rank =>
    let rank := Min.min rank (sorted.length : Int)
    if 0 < rank then sorted[(rank - 1).toNat]? else none

/-- The sum of the faces at the given ranks. -/
def select (d : Dice) (ranks : List Int) : Except RollError Int :=
  d.total (atRanks (ascending d.faces) ranks)

end DiceNotation.Dice
