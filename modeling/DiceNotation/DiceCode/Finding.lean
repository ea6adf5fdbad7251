import DiceNotation.DiceCode.Parameters
import DiceNotation.Error
import DiceNotation.Text.Blank
import DiceNotation.Text.DecimalDigit

/-!
# What the rules find

Each rule looks at the whole of a dice code, without regard to what the others find.  A *finding*
is a stretch of the code that the rule accounts for, and what it sets.

* The list of ranks at the start, up to and including its `@`.
* `d` and a number, after a digit, a blank or a dash.
* `r` or `R` and a number that may have a sign, after a digit or a dash.
* `s` after a digit or a dash.
* A number that may have a minus, at the start or after the ranks, when no `@` comes later.
* A list in square brackets, or dashes, at the same place, when neither a digit nor another dash
  follows.  So many dashes refer to the roll so many back.
* One of the letters `g`, `h`, `l`, `~` and `=` at the end, before any bangs.
* `e` or `f` and a number at the end, before any bangs.
* Bangs at the end.

Digits are those of any script, because a stretch of them is recognised before it is read.  Reading
fails for digits without a value here and for numbers out of range, and then the whole rule fails.

A rule can find more than one stretch of the second to fourth kind.  They do not overlap, and
since the character before a stretch belongs to its pattern, two of them are never directly
adjacent.
-/

namespace DiceNotation.DiceCode

open Text

/-- A stretch of a code, counted in characters, and what it sets. -/
structure Finding where
  start : Nat
  length : Nat
  settings : List Setting
  deriving DecidableEq, Repr

/-- The value of a number in a code: blanks around it and plus signs before it do not count. -/
def usable (t : Text) : Except RollError Int :=
  match Whole.read? ((trim t).dropWhile (· == '+')) with
  | some n => .ok n
  | none => .error (.unusableNumber t)

/-- The length of the digits at the start of a text, after so many characters before it; zero if
there are none. -/
def numberLength (before : Nat) (t : Text) : Nat :=
  if (digits t).isEmpty then 0 else before + (digits t).length

/-- The stretches of the text that come after a character which satisfies `lead`, each with its
position.  The length of a stretch is given by `body`, where zero means that there is none. -/
def stretches (lead : Char → Bool) (body : Text → Nat) (position : Nat) : Text → List (Nat × Text)
  | [] => []
  | c :: t =>
    if lead c && body t != 0 then
      (position + 1, t.take (body t)) ::
        stretches lead body (position + 1 + body t) (t.drop (body t))
    else stretches lead body (position + 1) t
termination_by t => t.length
decreasing_by
  all_goals simp only [List.length_drop, List.length_cons]; omega

/-- Whether a text is digits after at most one minus. -/
def isRank : Text → Bool
  | '-' :: t => !t.isEmpty && t.all isDecimalDigit
  | t => !t.isEmpty && t.all isDecimalDigit

/-- The ranks at the start of a code, and what follows their `@`. -/
def rankList? (code : Text) : Option (List Text × Text) :=
  match cutFirst (· == '@') code with
  | none => none
  | some (head, rest) =>
    let ranks := pieces (· == ',') head
    if ranks.all isRank then some (ranks, rest) else none

/-- The code from the place of its amount on: behind the ranks if there are any, and blanks. -/
def amountPlace (code : Text) : Text :=
  match rankList? code with
  | some (_, rest) => trimStart rest
  | none => trimStart code

/-- Where the amount stands in a code. -/
def amountStart (code : Text) : Nat := code.length - (amountPlace code).length

/-- A code without the bangs at its end, and how many these are. -/
def withoutBangs (code : Text) : Text × Nat :=
  let rest := code.reverse.dropWhile (· == '!')
  (rest.reverse, code.length - rest.length)

/-- Ranks select faces. -/
def findSelectors (code : Text) : Except RollError (List Finding) :=
  match rankList? code with
  | none => .ok []
  | some (ranks, rest) => do
    let ranks ← ranks.mapM usable
    let settings := (Reduction.ofRanks? ranks).toList.map Setting.reduction
    return [⟨0, code.length - rest.length, settings⟩]

/-- The length of `d` and a number. -/
def sidesLength : Text → Nat
  | 'd' :: t => numberLength 1 t
  | _ => 0

/-- Sides stand after `d`. -/
def findSides (code : Text) : Except RollError (List Finding) :=
  (stretches (fun c => isDecimalDigit c || isBlank c || c == '-') sidesLength 0 code).mapM
    fun found => do
      let n ← usable (found.2.drop 1)
      return ⟨found.1, found.2.length, [.sides n]⟩

/-- The length of `r` or `R` and a number that may have a sign. -/
def rerollsLength : Text → Nat
  | c :: t =>
    if c == 'r' || c == 'R' then
      match t with
      | '+' :: t => numberLength 2 t
      | '-' :: t => numberLength 2 t
      | t => numberLength 1 t
    else 0
  | [] => 0

/-- The number of dropped faces stands after `r` or `R`. -/
def findRerolls (code : Text) : Except RollError (List Finding) :=
  (stretches (fun c => isDecimalDigit c || c == '-') rerollsLength 0 code).mapM
    fun found => do
      let n ← usable (found.2.drop 1)
      return ⟨found.1, found.2.length, [.rerolls n]⟩

/-- The length of `s`. -/
def sortLength : Text → Nat
  | 's' :: _ => 1
  | _ => 0

/-- Sorting is asked for by `s`. -/
def findSort (code : Text) : Except RollError (List Finding) :=
  .ok ((stretches (fun c => isDecimalDigit c || c == '-') sortLength 0 code).map
    fun found => ⟨found.1, found.2.length, [.sort]⟩)

/-- The number that a text starts with, minus included. -/
def signedDigits : Text → Text
  | '-' :: t => if (digits t).isEmpty then [] else '-' :: digits t
  | t => digits t

/-- A number counts dice. -/
def findAmount (code : Text) : Except RollError (List Finding) :=
  let place := amountPlace code
  let number := signedDigits place
  if number.isEmpty || place.contains '@' then .ok []
  else do
    let n ← usable number
    return [⟨amountStart code, number.length, [.amount (.count n)]⟩]

/-- The list in square brackets, or the dashes, that a text starts with. -/
def literalText (t : Text) : Text :=
  match t with
  | '[' :: rest =>
    match cutFirst (· == ']') rest with
    | some (inner, _) => '[' :: inner ++ [']']
    | none => []
  | t => t.takeWhile (· == '-')

/-- Whether a literal can end before a text. -/
def endsLiteral : Text → Bool
  | [] => true
  | c :: _ => !isDecimalDigit c && c != '-'

/-- The amount that a literal stands for. -/
def literalAmount : Text → Except RollError Amount
  | '[' :: t => do
    let faces := (pieces (· == ',') t.dropLast).filter fun face => !isAllBlank face
    return .faces (← faces.mapM usable)
  | dashes => .ok (.back dashes.length)

/-- Brackets list faces, and dashes refer back. -/
def findLiteral (code : Text) : Except RollError (List Finding) :=
  let place := amountPlace code
  let literal := literalText place
  if literal.isEmpty || !endsLiteral (place.drop literal.length) then .ok []
  else do
    let amount ← literalAmount literal
    return [⟨amountStart code, literal.length, [.amount amount]⟩]

/-- A letter at the end names a reduction. -/
def findSuffix (code : Text) : Except RollError (List Finding) :=
  let body := (withoutBangs code).1
  match body.getLast?.bind Reduction.ofSuffix? with
  | some r => .ok [⟨body.length - 1, 1, [.reduction r]⟩]
  | none => .ok []

/-- A difficulty at the end asks for successes, and says whether ones count against them. -/
def findThreshold (code : Text) : Except RollError (List Finding) :=
  let backward := (withoutBangs code).1.reverse
  let number := (digits backward).reverse
  match number, afterDigits backward with
  | [], _ => .ok []
  | _, [] => .ok []
  | number, c :: before =>
    if c == 'e' || c == 'f' then do
      let n ← usable number
      return [⟨before.length, number.length + 1,
        [.reduction .successes, .difficulty n, .oneBehaviour (c == 'f')]⟩]
    else .ok []

/-- Bangs count exploding faces. -/
def findExplosion (code : Text) : Except RollError (List Finding) :=
  let (body, bangs) := withoutBangs code
  if bangs = 0 then .ok [] else .ok [⟨body.length, bangs, [.explosion bangs]⟩]

/-- What a rule finds in a code. -/
def Rule.find : Rule → Text → Except RollError (List Finding)
  | selectors => findSelectors
  | sides => findSides
  | rerolls => findRerolls
  | sort => findSort
  | amount => findAmount
  | literal => findLiteral
  | suffix => findSuffix
  | threshold => findThreshold
  | explosion => findExplosion

end DiceNotation.DiceCode
