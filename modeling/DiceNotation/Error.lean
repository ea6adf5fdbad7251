import DiceNotation.DiceCode.Key
import DiceNotation.Expr.Eval

/-!
# Why a roll fails

Every failure is named by its cause, and the wording of all of them is in one function.

A front end shows failures in two ways.  Malformed dice codes are failures of *usage*, and their
messages end with a reminder of what a dice code looks like.  All others are *descriptive*: their
messages are shown as they are.
-/

namespace DiceNotation

/-- The characters that have to occur in pairs. -/
inductive Delimiter where
  | opening
  | closing
  | ampersand
  deriving DecidableEq, Repr

/-- The character of a delimiter. -/
def Delimiter.char : Delimiter → Char
  | .opening => '('
  | .closing => ')'
  | .ampersand => '&'

/-- Why a roll fails. -/
inductive RollError where
  /-- There is no group where one was asked for. -/
  | noGroup
  /-- A code refers to the roll so many rolls back, and there is none. -/
  | noSuchRoll (back : Nat)
  /-- Dice were to be rolled from a reference to an earlier roll. -/
  | unresolvedReference (back : Nat)
  /-- An assignment has no name, or no sign after it. -/
  | malformedAssignment (part : Text)
  /-- The parts of a conditional trigger are not in place. -/
  | malformedConditional
  /-- A trigger was given something else than a whole number. -/
  | triggerNumber (trigger body : Text)
  /-- A trigger was not given a roll and a number. -/
  | triggerRoll (trigger : Text)
  /-- A text that must stand for a whole number resolves to something else. -/
  | notWhole (text : Text)
  /-- There are fewer words than keys to bind them to. -/
  | noWordLeft (key : Text)
  /-- A number in a dice code is out of range or has digits without a value. -/
  | unusableNumber (text : Text)
  /-- No rule accounts for some characters of a dice code. -/
  | leftOver (code rest : Text)
  /-- A dice code has an `@` that does not end a list of ranks. -/
  | strayAt (code : Text)
  /-- A dice code says nowhere how many dice to roll. -/
  | noAmount (code : Text)
  /-- Two matches of rules set the same key. -/
  | conflict (key : DiceCode.Key) (first second : DiceCode.Rule)
  /-- The delimiter at this position has no partner. -/
  | unmatched (delimiter : Delimiter) (position : Nat)
  /-- There is no trigger of this name. -/
  | unknownTrigger (name : Text)
  /-- Groups or rolls nest too deeply. -/
  | recursionLimit (limit : Nat)
  /-- One resolution expands too many defines. -/
  | expansionLimit (limit : Nat)
  /-- The budget of dice is used up. -/
  | tooManyRolls
  /-- A number run has no value, or a total is out of range. -/
  | arith (e : ArithError)
  deriving DecidableEq, Repr

/-- How a front end presents a failure. -/
inductive RollError.Category where
  | descriptive
  | usage
  deriving DecidableEq, Repr

namespace RollError

/-- A total that is out of range. -/
def overflow : RollError := arith (.fault .overflow)

/-- How the failure is presented. -/
def category : RollError → Category
  | unusableNumber _ => .usage
  | leftOver _ _ => .usage
  | strayAt _ => .usage
  | noAmount _ => .usage
  | conflict _ _ _ => .usage
  | _ => .descriptive

/-- The form of a dice code. -/
def usage : String := "[<Selectors>@]<dice>[d<sides>[R<rerolls>][s][ef<difficulty>ghl][!!!]]"

/-- What went wrong. -/
def reason : RollError → String
  | noGroup => "no parenthesis found"
  | noSuchRoll back => s!"there is no roll {back} back to refer to"
  | unresolvedReference back => s!"back-reference {back} was not resolved"
  | malformedAssignment part => s!"{Text.quoted part} is not of the form name = value"
  | malformedConditional => "expected `if <roll> then <a> else <b> done`"
  | triggerNumber trigger body =>
    s!"{String.ofList trigger} needs a whole number, not {Text.quoted body}"
  | triggerRoll trigger => s!"{String.ofList trigger} expects a roll followed by a number"
  | notWhole text => s!"{Text.quoted text} does not resolve to a whole number"
  | noWordLeft key => s!"no value left for {String.ofList key}"
  | unusableNumber text => s!"{Text.quoted text} is not a usable number"
  | leftOver code rest => s!"{Text.quoted code} is not a full match, {Text.quoted rest} left over"
  | strayAt code => s!"{Text.quoted code} uses '@' without a selector list"
  | noAmount code => s!"{Text.quoted code} has no amount"
  | conflict key first second => s!"{key.name} given by both {first.name} and {second.name}"
  | unmatched delimiter position => s!"unmatched '{delimiter.char}' at position {position}"
  | unknownTrigger name => s!"unknown trigger {Text.quoted name}"
  | recursionLimit limit => s!"nesting deeper than {limit}"
  | expansionLimit limit => s!"more than {limit} define expansions"
  | tooManyRolls => "too many dice rolled"
  | arith e => e.message

/-- The message of a failure: what went wrong, and for failures of usage the form of a code. -/
def message (e : RollError) : String :=
  match e.category with
  | .descriptive => e.reason
  | .usage => s!"{e.reason}\nusage: {usage}"

end RollError

end DiceNotation
