import DiceNotation.Expr.Basic
import DiceNotation.Expr.Token
import DiceNotation.Text.Quoted

/-!
# Reading expressions

The grammar has five levels, and there is one reader for each:

    sum     := product (('+' | '-') product)*
    product := signed (('*' | '/') signed)*
    signed  := ('+' | '-') signed | power
    power   := atom ['**' signed]
    atom    := integer | decimal | name | '(' sum ')'

Sums and products group to the left.  Powers group to the right, because the exponent is read as a
`signed`, and a sign before a power applies to the whole power.

## Why the readers end

A reader of a list of lexemes answers with an expression and the lexemes that are left, together
with the fact that these are fewer.  Each reader either calls one of a lower level on the same
list or has taken a lexeme, so five times the number of lexemes plus the level decreases.

## Errors

Reading stops at the first lexeme that no rule accepts.  The error names that lexeme, or the end
of the text, and the tokens that would have been accepted in its place; no token would have been
when the expression is complete.
-/

namespace DiceNotation

/-- Why a text is not an expression. -/
inductive ParseError where
  /-- A lexeme that does not continue the expression, and the tokens that would. -/
  | unexpected (found : Lexeme) (expected : List Token)
  /-- The text ends at the position, although one of the tokens must follow. -/
  | unexpectedEnd (position : Nat) (expected : List Token)
  /-- An integer that is out of range. -/
  | badNumber (literal : Lexeme)
  deriving DecidableEq, Repr

namespace ParseError

/-- The position at which reading stopped. -/
def start : ParseError → Nat
  | unexpected found _ => found.start
  | unexpectedEnd position _ => position
  | badNumber literal => literal.start

/-- The position behind what reading stopped at. -/
def stop : ParseError → Nat
  | unexpected found _ => found.stop
  | unexpectedEnd position _ => position
  | badNumber literal => literal.stop

/-- The text that reading stopped at. -/
def slice : ParseError → Text
  | unexpected found _ => found.text
  | unexpectedEnd _ _ => []
  | badNumber literal => literal.text

/-- The tokens that would have been accepted. -/
def expected : ParseError → List Token
  | unexpected _ expected => expected
  | unexpectedEnd _ expected => expected
  | badNumber _ => []

/-- Alternatives in words. -/
def alternatives : List Token → String
  | [] => "end of input"
  | [t] => t.text
  | [t, u] => s!"{t.text} or {u.text}"
  | ts => String.join (ts.dropLast.map fun t => s!"{t.text}, ") ++
      "or " ++ String.join (ts.getLast?.toList.map Token.text)

/-- What is wrong, without the place. -/
def reason : ParseError → String
  | unexpected found expected =>
    if found.token = .error then s!"expected {alternatives expected}"
    else s!"unexpected {found.token.text}, expected {alternatives expected}"
  | unexpectedEnd _ expected => s!"unexpected end of input, expected {alternatives expected}"
  | badNumber _ => "number out of range"

/-- The message of an error. -/
def message (e : ParseError) : String :=
  s!"error at position {e.start} ({Text.quoted e.slice}): {e.reason}"

end ParseError

namespace Expr

/-- The double that a decimal spells: the digits before and after its point. -/
def decimalValue (t : Text) : Float :=
  let whole := t.takeWhile (· != '.')
  let places := (t.dropWhile (· != '.')).drop 1
  Float.ofScientific (Nat.ofDigitChars 10 (whole ++ places) 0) true places.length

/-- An expression read from the start of the lexemes, and those left, which are fewer. -/
abbrev Reading (ls : List Lexeme) := { r : Expr × List Lexeme // r.2.length < ls.length }

/-- An expression, and lexemes left that are no more than those given. -/
abbrev Extension (ls : List Lexeme) := { r : Expr × List Lexeme // r.2.length ≤ ls.length }

/-- The refusal of the next lexeme, or of the end, where one of the tokens is expected. -/
def refuse (stop : Nat) (expected : List Token) : List Lexeme → ParseError
  | [] => .unexpectedEnd stop expected
  | l :: _ => .unexpected l expected

/-- The operator of a sum that a token is. -/
def sumOp? : Token → Option BinaryOp
  | .plus => some .add
  | .minus => some .sub
  | _ => none

/-- The operator of a product that a token is. -/
def productOp? : Token → Option BinaryOp
  | .star => some .mul
  | .slash => some .div
  | _ => none

/-- The sign that a token is. -/
def sign? : Token → Option UnaryOp
  | .plus => some .plus
  | .minus => some .minus
  | _ => none

/-- The tokens that start an atom. -/
def atomStarts : List Token := [.leftParen, .integer, .decimal, .name]

mutual

/-- Reads a sum from lexemes of a text that ends at `stop`. -/
def readSum (stop : Nat) (ls : List Lexeme) : Except ParseError (Reading ls) := do
  let ⟨(e, rest), h⟩ ← readProduct stop ls
  have h : rest.length < ls.length := h
  let ⟨r, h'⟩ ← extendSum stop e rest
  return ⟨r, Nat.lt_of_le_of_lt h' h⟩
termination_by 5 * ls.length + 4

/-- Goes on with a sum that starts with `e`. -/
def extendSum (stop : Nat) (e : Expr) (ls : List Lexeme) : Except ParseError (Extension ls) :=
  match ls with
  | [] => .ok ⟨(e, []), Nat.le_refl _⟩
  | l :: ls =>
    match sumOp? l.token with
    | none => .ok ⟨(e, l :: ls), Nat.le_refl _⟩
    | some op => do
      let ⟨(e', rest), h⟩ ← readProduct stop ls
      have h : rest.length < ls.length := h
      let ⟨r, h'⟩ ← extendSum stop (binary op e e') rest
      return ⟨r, Nat.le_succ_of_le (Nat.le_trans h' (Nat.le_of_lt h))⟩
termination_by 5 * ls.length + 0

/-- Reads a product. -/
def readProduct (stop : Nat) (ls : List Lexeme) : Except ParseError (Reading ls) := do
  let ⟨(e, rest), h⟩ ← readSigned stop ls
  have h : rest.length < ls.length := h
  let ⟨r, h'⟩ ← extendProduct stop e rest
  return ⟨r, Nat.lt_of_le_of_lt h' h⟩
termination_by 5 * ls.length + 3

/-- Goes on with a product that starts with `e`. -/
def extendProduct (stop : Nat) (e : Expr) (ls : List Lexeme) : Except ParseError (Extension ls) :=
  match ls with
  | [] => .ok ⟨(e, []), Nat.le_refl _⟩
  | l :: ls =>
    match productOp? l.token with
    | none => .ok ⟨(e, l :: ls), Nat.le_refl _⟩
    | some op => do
      let ⟨(e', rest), h⟩ ← readSigned stop ls
      have h : rest.length < ls.length := h
      let ⟨r, h'⟩ ← extendProduct stop (binary op e e') rest
      return ⟨r, Nat.le_succ_of_le (Nat.le_trans h' (Nat.le_of_lt h))⟩
termination_by 5 * ls.length + 0

/-- Reads an operand with any number of signs before it. -/
def readSigned (stop : Nat) (ls : List Lexeme) : Except ParseError (Reading ls) :=
  match ls with
  | [] => readPower stop []
  | l :: ls =>
    match sign? l.token with
    | none => readPower stop (l :: ls)
    | some op => do
      let ⟨(e, rest), h⟩ ← readSigned stop ls
      return ⟨(unary op e, rest), Nat.lt_succ_of_lt h⟩
termination_by 5 * ls.length + 2

/-- Reads an atom and the exponent that may follow it. -/
def readPower (stop : Nat) (ls : List Lexeme) : Except ParseError (Reading ls) := do
  let ⟨(e, rest), h⟩ ← readAtom stop ls
  match rest, h with
  | [], h => return ⟨(e, []), h⟩
  | l :: rest, h =>
    have h : rest.length + 1 < ls.length := h
    if l.token = .starStar then
      let ⟨(e', rest'), h'⟩ ← readSigned stop rest
      return ⟨(binary .pow e e', rest'),
        Nat.lt_trans h' (Nat.lt_trans (Nat.lt_succ_self _) h)⟩
    else return ⟨(e, l :: rest), h⟩
termination_by 5 * ls.length + 1

/-- Reads a number, a name or a parenthesised sum. -/
def readAtom (stop : Nat) (ls : List Lexeme) : Except ParseError (Reading ls) :=
  match ls with
  | [] => .error (refuse stop atomStarts [])
  | l :: ls =>
    match l.token with
    | .leftParen => do
      let ⟨(e, rest), h⟩ ← readSum stop ls
      match rest, h with
      | [], _ => .error (refuse stop [.rightParen] [])
      | r :: rest, h =>
        if r.token = .rightParen then
          return ⟨(group e, rest),
            Nat.lt_succ_of_lt (Nat.lt_trans (Nat.lt_succ_self _) h)⟩
        else .error (refuse stop [.rightParen] (r :: rest))
    | .integer =>
      match Whole.fit? (Nat.ofDigitChars 10 l.text 0) with
      | some n => .ok ⟨(literal (.int n), ls), Nat.lt_succ_self _⟩
      | none => .error (.badNumber l)
    | .decimal => .ok ⟨(literal (.float (decimalValue l.text)), ls), Nat.lt_succ_self _⟩
    | .name => .ok ⟨(name l.text, ls), Nat.lt_succ_self _⟩
    | _ => .error (refuse stop atomStarts (l :: ls))
termination_by 5 * ls.length + 0

end

/-- The expression that all of the lexemes make up. -/
def ofLexemes (stop : Nat) (ls : List Lexeme) : Except ParseError Expr := do
  let ⟨(e, rest), _⟩ ← readSum stop ls
  if rest.isEmpty then return e else throw (refuse stop [] rest)

/-- The expression that a text spells. -/
def parse (t : Text) : Except ParseError Expr := ofLexemes (Text.byteLength t) (lexemes t)

end Expr

end DiceNotation
