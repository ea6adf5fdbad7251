import DiceNotation.Trigger.Basic

/-!
# Scripts

The ampersands of a text come in pairs, and what is between the two of a pair is a trigger.  A
*script* is the text before the first trigger, and every trigger with the text after it up to the
next.

A text is scanned as a whole before any of its triggers fires: an ampersand without a partner, or a
trigger that cannot be read, spoils all of them.
-/

namespace DiceNotation

/-- A text with its triggers. -/
structure Script where
  lead : Text
  rest : List (Trigger × Text)
  deriving DecidableEq, Repr

namespace Script

/-- The triggers and the texts after them, when they take turns. -/
def ofPieces : List Text → Except RollError (List (Trigger × Text))
  | inside :: text :: pieces => do
    let trigger ← Trigger.parse inside
    let rest ← ofPieces pieces
    return (trigger, text) :: rest
  | _ => .ok []

/-- Whether a character is an ampersand. -/
def isAmpersand (c : Char) : Bool := c == '&'

/-- The script that a text is. -/
def scan (t : Text) : Except RollError Script :=
  match Text.pieces isAmpersand t with
  | [] => .ok ⟨[], []⟩
  | lead :: pieces =>
    if pieces.length % 2 = 0 then do
      let rest ← ofPieces pieces
      return ⟨lead, rest⟩
    else
      let last := (pieces.getLast?).getD []
      .error (.unmatched .ampersand (Text.byteLength t - Text.byteLength last - 1))

end Script

end DiceNotation
