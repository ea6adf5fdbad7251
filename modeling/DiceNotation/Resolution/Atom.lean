import DiceNotation.Defines
import DiceNotation.Group
import DiceNotation.Text.Word

/-!
# Atoms of a text

A text without triggers is a sequence of *atoms*: groups, words that could be names of defines, and
whatever is between these.  Names are looked for in the plain stretches between groups only, and a
stretch begins and ends words like a blank does.

The atoms make up the text (`flatMap_text_atoms`), so a text can be changed at one of its atoms and
be put together again.
-/

namespace DiceNotation

/-- A group, a name, or other text. -/
inductive Atom where
  | group (inner : Text)
  | name (n : Text)
  | other (t : Text)
  deriving DecidableEq, Repr

namespace Atom

/-- The text of an atom. -/
def text : Atom → Text
  | group inner => '(' :: inner ++ [')']
  | name n => n
  | other t => t

/-- The atom that a run is. -/
def ofRun : Text.Run → Atom
  | .word w => if Text.isName w then name w else other w
  | .gap g => other g

/-- The atoms of a part. -/
def ofPart : Group.Part → List Atom
  | .plain t => (Text.runs t).map ofRun
  | .group inner => [group inner]

/-- The atoms of parts. -/
def ofParts (parts : List Group.Part) : List Atom := parts.flatMap ofPart

theorem text_ofRun (r : Text.Run) : (ofRun r).text = r.text := by
  cases r with
  | word w =>
    show (if Text.isName w then name w else other w).text = w
    split <;> rfl
  | gap g => rfl

/-- The atoms of a part make up the part. -/
theorem flatMap_text_ofPart (p : Group.Part) : (ofPart p).flatMap text = p.text := by
  cases p with
  | plain t =>
    show ((Text.runs t).map ofRun).flatMap text = t
    rw [List.flatMap_map]
    simp only [text_ofRun, Text.flatMap_text_runs]
  | group inner => simp [ofPart, text, Group.Part.text]

/-- The atoms of parts make up the text of the parts. -/
theorem flatMap_text_ofParts (parts : List Group.Part) :
    (ofParts parts).flatMap text = parts.flatMap Group.Part.text := by
  rw [ofParts, List.flatMap_assoc]
  simp only [flatMap_text_ofPart]

/-- The name and the value of an atom that stands for text with triggers and is not in use. -/
def scripted? (defines : Defines) (used : List Text) : Atom → Option (Text × Text)
  | name n =>
    if used.contains n then none
    else
      match defines.get? n with
      | some value => if value.contains '&' then some (n, value) else none
      | none => none
  | _ => none

/-- The first name among atoms that stands for text with triggers and is not in use, and the text of
the atoms with that name replaced by what it stands for. -/
def splice? (defines : Defines) (used : List Text) : List Atom → Option (Text × Text)
  | [] => none
  | a :: as =>
    match scripted? defines used a with
    | some (n, value) => some (n, value ++ as.flatMap text)
    | none => (splice? defines used as).map fun found => (found.1, a.text ++ found.2)

end Atom

end DiceNotation
