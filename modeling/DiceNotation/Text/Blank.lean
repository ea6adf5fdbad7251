import DiceNotation.Text.Basic
import DiceNotation.Text.CodePoints

/-!
# Blank characters

Blanks are the twenty-five characters with the Unicode property `White_Space`.  They separate
words, and nearly every reader drops them at the ends of what it reads.

* `isBlank`: the property.
* `trim`, `trimStart`, `trimEnd`: a text without blanks at its ends.
* `words`: the maximal stretches without blanks.
* `squeeze`: every maximal stretch of blanks becomes one space.
-/

namespace DiceNotation.Text

/-- Where the property `White_Space` begins and ends. -/
def blankFlips : List Nat :=
  [9, 14, 32, 33, 133, 134, 160, 161, 5760, 5761, 8192, 8203, 8232, 8234, 8239, 8240, 8287, 8288,
   12288, 12289]

/-- Whether a character is a blank. -/
def isBlank (c : Char) : Bool := memFlips false blankFlips c.toNat

/-- The text from its first non-blank character on. -/
def trimStart (t : Text) : Text := t.dropWhile isBlank

/-- The text up to its last non-blank character. -/
def trimEnd (t : Text) : Text := (trimStart t.reverse).reverse

/-- The text between its first and its last non-blank character. -/
def trim (t : Text) : Text := trimEnd (trimStart t)

/-- Whether a text holds nothing but blanks. -/
def isAllBlank (t : Text) : Bool := t.all isBlank

/-- The maximal stretches without blanks. -/
def words (t : Text) : List Text := (pieces isBlank t).filter fun w => !w.isEmpty

/-- One space for every maximal stretch of blanks.  The flag says whether the space for the
current stretch has been written. -/
def squeezeFrom (written : Bool) : Text → Text
  | [] => []
  | c :: t =>
    if isBlank c then
      if written then squeezeFrom true t else ' ' :: squeezeFrom true t
    else c :: squeezeFrom false t

/-- One space for every maximal stretch of blanks. -/
def squeeze (t : Text) : Text := squeezeFrom false t

@[simp] theorem trimStart_nil : trimStart [] = [] := rfl

@[simp] theorem squeeze_nil : squeeze [] = [] := rfl

/-- A text that starts with a non-blank character keeps its start. -/
theorem trimStart_cons_of_not_blank {c : Char} (h : isBlank c = false) (t : Text) :
    trimStart (c :: t) = c :: t := by
  simp [trimStart, h]

/-- A blank at the start is dropped. -/
theorem trimStart_cons_of_blank {c : Char} (h : isBlank c = true) (t : Text) :
    trimStart (c :: t) = trimStart t := by
  simp [trimStart, h]

/-- Dropping blanks shortens a text or leaves it alone. -/
theorem length_trimStart_le (t : Text) : (trimStart t).length ≤ t.length :=
  (List.dropWhile_suffix _).length_le

end DiceNotation.Text
