import DiceNotation.Text.Basic

/-!
# Names

Names stand for values in expressions and for text in dice codes.  They are ASCII words: a letter or
an underscore, then any number of letters, digits and underscores.
-/

namespace DiceNotation.Text

/-- Whether a character can start a name. -/
def isNameStart (c : Char) : Bool := c.isAlpha || c == '_'

/-- Whether a character can go on a name. -/
def isNameChar (c : Char) : Bool := c.isAlphanum || c == '_'

/-- Whether a text is a name. -/
def isName : Text → Bool
  | [] => false
  | c :: t => isNameStart c && t.all isNameChar

@[simp] theorem isName_nil : isName [] = false := rfl

theorem isName_cons (c : Char) (t : Text) :
    isName (c :: t) = (isNameStart c && t.all isNameChar) := rfl

/-- A character that can start a name can also go on one. -/
theorem isNameChar_of_isNameStart {c : Char} (h : isNameStart c = true) : isNameChar c = true := by
  rw [isNameStart, Bool.or_eq_true] at h
  rw [isNameChar, Char.isAlphanum, Bool.or_eq_true, Bool.or_eq_true]
  rcases h with h | h
  · exact Or.inl (Or.inl h)
  · exact Or.inr h

end DiceNotation.Text
