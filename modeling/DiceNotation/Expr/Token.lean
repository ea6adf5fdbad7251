import DiceNotation.Text.Name

/-!
# Tokens of the arithmetic language

The characters of an expression are grouped into *lexemes*: a token, the text it was read from, and
the position of that text.  Spaces, tabs and line ends are skipped.  The longest token wins, so `**`
is one operator and `1.` is a decimal, and a character that starts no token is a lexeme of its own
with the token `error`, which no rule of the grammar accepts.

Every step of the reader takes at least one character, so the lexemes of a text are found by
recursion on its length, and `lexemesFrom_space` and `lexemesFrom_token` are its two steps.

* `Token`, `Token.text`: the tokens and their names in messages.
* `Lexeme`: a token with its text and position.
* `lexemes`: the lexemes of a text.
-/

namespace DiceNotation

/-- The kinds of lexemes. -/
inductive Token where
  | integer
  | decimal
  | name
  | leftParen
  | rightParen
  | plus
  | minus
  | starStar
  | star
  | slash
  | error
  deriving DecidableEq, Repr

/-- What a token is called in messages. -/
def Token.text : Token → String
  | .integer => "<integer>"
  | .decimal => "<decimal>"
  | .name => "<name>"
  | .leftParen => "'('"
  | .rightParen => "')'"
  | .plus => "'+'"
  | .minus => "'-'"
  | .starStar => "'**'"
  | .star => "'*'"
  | .slash => "'/'"
  | .error => "<error>"

/-- A token, its text, and the position at which the text starts. -/
structure Lexeme where
  token : Token
  text : Text
  start : Nat
  deriving DecidableEq, Repr

/-- The position behind a lexeme. -/
def Lexeme.stop (l : Lexeme) : Nat := l.start + Text.byteLength l.text

namespace Token

/-- Whether a character is skipped between tokens. -/
def isSpace (c : Char) : Bool := c == ' ' || c == '\t' || c == '\r' || c == '\n'

/-- The token at the start of a text, given the first character `c` and the `rest`, with the number
of characters that it takes from the rest. -/
def first (c : Char) (rest : Text) : Token × Nat :=
  if c.isDigit then
    let whole := (rest.takeWhile Char.isDigit).length
    match rest.drop whole with
    | '.' :: t => (decimal, whole + 1 + (t.takeWhile Char.isDigit).length)
    | _ => (integer, whole)
  else if Text.isNameStart c then (name, (rest.takeWhile Text.isNameChar).length)
  else match c, rest with
    | '.', d :: t =>
      if d.isDigit then (decimal, 1 + (t.takeWhile Char.isDigit).length) else (error, 0)
    | '*', '*' :: _ => (starStar, 1)
    | '*', _ => (star, 0)
    | '(', _ => (leftParen, 0)
    | ')', _ => (rightParen, 0)
    | '+', _ => (plus, 0)
    | '-', _ => (minus, 0)
    | '/', _ => (slash, 0)
    | _, _ => (error, 0)

end Token

/-- The lexemes of a text that starts at position `start`. -/
def lexemesFrom (start : Nat) : Text → List Lexeme
  | [] => []
  | c :: rest =>
    if Token.isSpace c then lexemesFrom (start + c.utf8Size) rest
    else
      let (token, n) := Token.first c rest
      let text := c :: rest.take n
      ⟨token, text, start⟩ :: lexemesFrom (start + Text.byteLength text) (rest.drop n)
termination_by t => t.length
decreasing_by
  all_goals simp only [List.length_drop, List.length_cons]; omega

/-- The lexemes of a text. -/
def lexemes (t : Text) : List Lexeme := lexemesFrom 0 t

@[simp] theorem lexemesFrom_nil (start : Nat) : lexemesFrom start [] = [] := by
  rw [lexemesFrom]

/-- A character between tokens only moves the position. -/
theorem lexemesFrom_space {c : Char} (h : Token.isSpace c = true) (start : Nat) (rest : Text) :
    lexemesFrom start (c :: rest) = lexemesFrom (start + c.utf8Size) rest := by
  rw [lexemesFrom, if_pos h]

/-- Any other character starts a lexeme. -/
theorem lexemesFrom_token {c : Char} (h : Token.isSpace c = false) (start : Nat) (rest : Text) :
    lexemesFrom start (c :: rest) =
      ⟨(Token.first c rest).1, c :: rest.take (Token.first c rest).2, start⟩ ::
        lexemesFrom (start + Text.byteLength (c :: rest.take (Token.first c rest).2))
          (rest.drop (Token.first c rest).2) := by
  rw [lexemesFrom, if_neg (by rw [h]; exact Bool.false_ne_true)]

end DiceNotation
