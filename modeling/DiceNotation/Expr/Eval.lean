import DiceNotation.Expr.Parser

/-!
# The value of an expression

Operands are evaluated from left to right, and the first fault is the answer.  Names get their
values from a function, which may not know all of them.
-/

namespace DiceNotation

/-- Why a text has no value. -/
inductive ArithError where
  | parse (e : ParseError)
  | unknownName (name : Text)
  | fault (f : Number.Fault)
  deriving DecidableEq, Repr

/-- The message of an error. -/
def ArithError.message : ArithError → String
  | .parse e => e.message
  | .unknownName name => s!"unknown variable {Text.quoted name}"
  | .fault f => f.message

/-- The sign applied to a number. -/
def UnaryOp.apply : UnaryOp → Number → Except Number.Fault Number
  | .plus, n => .ok n
  | .minus, n => n.neg

/-- The operator applied to two numbers. -/
def BinaryOp.apply : BinaryOp → Number → Number → Except Number.Fault Number
  | .add, a, b => a.add b
  | .sub, a, b => a.sub b
  | .mul, a, b => a.mul b
  | .div, a, b => a.div b
  | .pow, a, b => a.pow b

/-- The values of names. -/
abbrev Bindings := Text → Option Number

/-- No name has a value. -/
def Bindings.none : Bindings := fun _ => Option.none

namespace Expr

/-- The value of an expression. -/
def eval (values : Bindings) : Expr → Except ArithError Number
  | literal n => .ok n
  | name n =>
    match values n with
    | some v => .ok v
    | none => .error (.unknownName n)
  | group e => e.eval values
  | unary op e => do
    let v ← e.eval values
    (op.apply v).mapError .fault
  | binary op l r => do
    let v ← l.eval values
    let w ← r.eval values
    (op.apply v w).mapError .fault

end Expr

/-- The value of the expression that a text spells. -/
def evaluate (values : Bindings) (t : Text) : Except ArithError Number := do
  let e ← (Expr.parse t).mapError .parse
  e.eval values

end DiceNotation
