import DiceNotation.Roller.Basic

/-!
# Faces from random words

A source of random words of 64 bits gives a face by multiplication: for a die of `range` faces,
the product of a word and the range is cut into a high and a low word, and the high word is the
number of the face.  Some faces would come up once more often than others; to prevent this, words
whose low part is above a *zone* are thrown away.

The widest zone takes a division to find.  It is worth it when many faces are drawn with the same
bounds, and a single face is drawn with a narrower zone that takes a shift only.

The words are a list that goes on with zeros for ever.  A zero is never thrown away, so drawing a
face always ends.
-/

namespace DiceNotation

/-- The number of different words. -/
def wordCount : Nat := Nat.pow 2 64

/-- The random words that are still to come, before the zeros. -/
structure Words where
  words : List Nat
  deriving DecidableEq, Repr

namespace Words

/-- The next word. -/
def next (r : Words) : Nat × Words :=
  match r.words with
  | [] => (0, r)
  | w :: ws => (w, ⟨ws⟩)

/-- The zone for a single face: the largest multiple of the range by a power of two that is a
word. -/
def singleZone (range : Nat) : Nat := range * Nat.pow 2 (63 - range.log2) - 1

/-- The zone for many faces: the largest multiple of the range up to the number of words. -/
def manyZone (range : Nat) : Nat := wordCount - 1 - (wordCount - range) % range

/-- The number of a face, from the first word that is in the zone. -/
def pick (zone range : Nat) : List Nat → Nat × Words
  | [] => (0, ⟨[]⟩)
  | w :: ws =>
    if w * range % wordCount ≤ zone then (w * range / wordCount, ⟨ws⟩) else pick zone range ws

/-- A word as a number with sign. -/
def signed (w : Nat) : Int :=
  if w < Nat.pow 2 63 then (w : Int) else (w : Int) - (wordCount : Int)

/-- A face between the bounds.  If there is only one, no word is taken, and if every word is a
face, the word is the face. -/
def draw (zone : Nat → Nat) (lo hi : Int) (r : Words) : Int × Words :=
  if hi ≤ lo then (lo, r)
  else
    let range := (hi - lo + 1).toNat
    if range = wordCount then (signed r.next.1, r.next.2)
    else
      let (number, r) := pick (zone range) range r.words
      (lo + number, r)

instance : Roller Words where
  roll := draw singleZone
  rollMany n lo hi := drawEach (draw manyZone lo hi) n
  length_rollMany _ lo hi := length_drawEach (draw manyZone lo hi) _

/-- How many words are left before the zeros. -/
def remaining (r : Words) : Nat := r.words.length

end Words

end DiceNotation
