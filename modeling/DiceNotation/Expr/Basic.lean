import DiceNotation.Number

/-!
# Arithmetic expressions

The arithmetic language has numbers, names, the signs `+` and `-`, the operators `+ - * / **` and
parentheses.  Parentheses are kept in the tree, so that an expression can be written as it was
read: with a space on both sides of an operator, none after a sign, and no parentheses but its own.
-/

namespace DiceNotation

/-- The signs that can stand before an operand. -/
inductive UnaryOp where
  | plus
  | minus
  deriving DecidableEq, Repr

/-- How a sign is written. -/
def UnaryOp.text : UnaryOp → Text
  | .plus => ['+']
  | .minus => ['-']

/-- The operators between two operands. -/
inductive BinaryOp where
  | add
  | sub
  | mul
  | div
  | pow
  deriving DecidableEq, Repr

/-- How an operator is written. -/
def BinaryOp.text : BinaryOp → Text
  | .add => ['+']
  | .sub => ['-']
  | .mul => ['*']
  | .div => ['/']
  | .pow => ['*', '*']

/-- An expression. -/
inductive Expr where
  | literal (n : Number)
  | name (n : Text)
  | group (e : Expr)
  | unary (op : UnaryOp) (e : Expr)
  | binary (op : BinaryOp) (l r : Expr)

namespace Expr

/-- The text of an expression, with another text after it. -/
def textBefore : Expr → Text → Text
  | literal n, rest => n.text ++ rest
  | name n, rest => n ++ rest
  | group e, rest => '(' :: e.textBefore (')' :: rest)
  | unary op e, rest => op.text ++ e.textBefore rest
  | binary op l r, rest => l.textBefore (' ' :: op.text ++ ' ' :: r.textBefore rest)

/-- The text of an expression. -/
def text (e : Expr) : Text := e.textBefore []

/-- What comes after an expression does not change how it is written. -/
theorem textBefore_eq (e : Expr) (rest : Text) : e.textBefore rest = e.text ++ rest := by
  unfold text
  induction e generalizing rest with
  | literal n => simp [textBefore]
  | name n => simp [textBefore]
  | group e ih => rw [textBefore, textBefore, ih, ih [')'], List.cons_append, List.append_assoc]; rfl
  | unary op e ih => rw [textBefore, textBefore, ih, List.append_assoc]
  | binary op l r ihl ihr =>
    rw [textBefore, textBefore, ihl, ihl (_ ++ _), ihr rest]
    simp only [List.append_assoc, List.cons_append]

theorem text_literal (n : Number) : (literal n).text = n.text := List.append_nil _

theorem text_name (n : Text) : (name n).text = n := List.append_nil _

theorem text_group (e : Expr) : (group e).text = '(' :: e.text ++ [')'] := by
  rw [text, textBefore, textBefore_eq, List.cons_append]

theorem text_unary (op : UnaryOp) (e : Expr) : (unary op e).text = op.text ++ e.text := rfl

theorem text_binary (op : BinaryOp) (l r : Expr) :
    (binary op l r).text = l.text ++ ' ' :: op.text ++ ' ' :: r.text := by
  rw [text, textBefore, textBefore_eq, List.append_assoc]
  rfl

end Expr

end DiceNotation
