import DiceNotation.Proofs.Expr.Values
import DiceNotation.Proofs.Folding

/-!
# When groups can be replaced by their values

A session rolls the groups of a text, puts the results in their place as digits and folds what
is left.  The digits do not always mean in the text what the group has meant in the expression.

A group with a negative result leaves a minus behind, and there is nothing around it any more.
A sign before it becomes one of two, which no run of numbers has; the minus is applied to a
power of the group and not to its base; and the least whole number has digits that are no number
without their minus.  `Expr.Spliceable` excludes these three.

The signs of the text itself are the other matter.  A run of numbers has signs only directly
before digits, so a sign has to stand directly before the digits or the group that it belongs to
(`signsStand`).  In a text that is put together of others, this depends on what comes before and
after each of them (`Placed`).

* `signsStand`, `Placed`.
* `Expr.whole?`, `Expr.nesting`, `Expr.leadsNegative`, `Expr.Spliceable`.
-/

namespace DiceNotation

open NumberRun DiceNotation.Expr

/-! ## Signs -/

/-- Whether an operand ends before a place, given the characters before it from the last to the
first. -/
def endsOperand (before : Text) : Bool :=
  match before.dropWhile Token.isSpace with
  | c :: _ => c.isDigit || c == ')'
  | [] => false

/-- Whether a text starts with digits or a group. -/
def startsOperand : Text → Bool
  | c :: _ => c.isDigit || c == '('
  | [] => false

/-- Whether the signs of a text stand directly before digits or groups, given the characters
before the text from the last to the first.  Where an operand has ended there are no signs, but
operators. -/
def signsStand (before : Text) : Text → Bool
  | [] => true
  | c :: t =>
    (!isSign c || endsOperand before || startsOperand t) && signsStand (c :: before) t

theorem signsStand_of_append {before a b : Text} (h : signsStand before (a ++ b) = true) :
    signsStand (a.reverse ++ before) b = true := by
  induction a generalizing before with
  | nil => exact h
  | cons c a ih =>
    rw [List.cons_append, signsStand, Bool.and_eq_true] at h
    have hrest := ih h.2
    rw [List.reverse_cons, List.append_assoc]
    exact hrest

/-- A sign stands directly before an operand. -/
theorem startsOperand_of_signsStand {before t : Text} {c : Char}
    (h : signsStand before (c :: t) = true) (hc : isSign c = true)
    (hbefore : endsOperand before = false) : startsOperand t = true := by
  rw [signsStand, Bool.and_eq_true, hc, hbefore] at h
  exact h.1

theorem endsOperand_spaces_append {b : Text} (hb : ∀ c ∈ b, Token.isSpace c = true)
    (before : Text) :
    endsOperand (b.reverse ++ before) = endsOperand before := by
  unfold endsOperand
  rw [List.dropWhile_append_of_pos fun c hc => hb c (List.mem_reverse.mp hc)]

theorem endsOperand_cons {c : Char} (hspace : Token.isSpace c = false)
    (hc : (c.isDigit || c == ')') = false) (before : Text) : endsOperand (c :: before) = false := by
  unfold endsOperand
  rw [List.dropWhile_cons_of_neg (by rw [hspace]; exact Bool.false_ne_true)]
  exact hc

theorem startsOperand_of_append {a b : Text} (ha : a ≠ []) (h : startsOperand (a ++ b) = true) :
    startsOperand a = true := by
  obtain ⟨c, a, rfl⟩ := List.exists_cons_of_ne_nil ha
  exact h

/-- There is no space before a text that starts with an operand. -/
theorem eq_nil_of_startsOperand {b t : Text} (hb : ∀ c ∈ b, Token.isSpace c = true)
    (h : startsOperand (b ++ t) = true) : b = [] := by
  cases b with
  | nil => rfl
  | cons c b =>
    have hno := forall_of_isSpace (p := fun c => (c.isDigit || c == '(') = false) (by decide)
      (hb c List.mem_cons_self)
    exact nomatch hno.symm.trans h

/-- What stands before an operand ends none. -/
theorem endsOperand_joins {token : Token} {w : Text} (hjoins : token.joins = true)
    (hw : token.spelling? = some w) (before : Text) :
    endsOperand (w.reverse ++ before) = false := by
  cases token with
  | plus => cases hw; exact endsOperand_cons rfl rfl before
  | minus => cases hw; exact endsOperand_cons rfl rfl before
  | star => cases hw; exact endsOperand_cons rfl rfl before
  | starStar => cases hw; exact endsOperand_cons rfl rfl _
  | slash => cases hw; exact endsOperand_cons rfl rfl before
  | _ => exact nomatch hjoins

/-! ## Places -/

/-- What is known of a text when its symbols are derived. -/
structure Placed (t before after : Text) : Prop where
  ends : endsOperand before = false
  signs : signsStand before (t ++ after) = true

/-- The front of a text stands in the same place. -/
theorem Placed.left {a b before after : Text} (h : Placed (a ++ b) before after) :
    Placed a before (b ++ after) := by
  refine ⟨h.ends, ?_⟩
  rw [← List.append_assoc]
  exact h.signs

/-- What comes after an operator. -/
theorem Placed.right {a sp w b before after : Text} {token : Token}
    (h : Placed (a ++ (sp ++ (w ++ b))) before after) (hjoins : token.joins = true)
    (hw : token.spelling? = some w) :
    Placed b (w.reverse ++ (sp.reverse ++ (a.reverse ++ before))) after := by
  refine ⟨endsOperand_joins hjoins hw _, ?_⟩
  have hsigns := h.signs
  rw [List.append_assoc, List.append_assoc, List.append_assoc] at hsigns
  exact signsStand_of_append (signsStand_of_append (signsStand_of_append hsigns))

/-- A sign stands directly before what belongs to it. -/
theorem Placed.startsOperand {sp w rest before after : Text} {token : Token}
    (h : Placed (sp ++ (w ++ rest)) before after) (htoken : token = .plus ∨ token = .minus)
    (hw : token.spelling? = some w) (hsp : ∀ c ∈ sp, Token.isSpace c = true) (hne : rest ≠ []) :
    startsOperand rest = true := by
  have hsigns := h.signs
  rw [List.append_assoc, List.append_assoc] at hsigns
  have hsigns := signsStand_of_append hsigns
  have hends : endsOperand (sp.reverse ++ before) = false := by
    rw [endsOperand_spaces_append hsp, h.ends]
  refine startsOperand_of_append (b := after) hne ?_
  rcases htoken with rfl | rfl
  · cases hw
    exact startsOperand_of_signsStand hsigns rfl hends
  · cases hw
    exact startsOperand_of_signsStand hsigns rfl hends

/-- The inside of a group. -/
theorem Placed.inner {a b rest before after : Text}
    (h : Placed (b ++ '(' :: (a ++ rest)) before after) :
    Placed a ('(' :: (b.reverse ++ before)) (rest ++ after) := by
  refine ⟨endsOperand_cons rfl rfl _, ?_⟩
  have hsigns := h.signs
  rw [List.append_assoc] at hsigns
  have hopen := signsStand_of_append (a := ['(']) (signsStand_of_append hsigns)
  rw [← List.append_assoc]
  exact hopen

/-! ## Expressions -/

namespace Expr

/-- The value of an expression without names, if it is whole. -/
def whole? (e : Expr) : Option Int :=
  match e.eval Bindings.none with
  | .ok (.int v) => some v
  | _ => none

theorem whole?_of_eval {e : Expr} {v : Int} (h : e.eval Bindings.none = .ok (.int v)) :
    e.whole? = some v := by
  unfold whole?
  rw [h]

/-- How deep groups are nested. -/
def nesting : Expr → Nat
  | group e => e.nesting + 1
  | unary _ e => e.nesting
  | binary _ l r => max l.nesting r.nesting
  | _ => 0

/-- Whether an expression starts with a group that is negative. -/
def leadsNegative : Expr → Bool
  | group e => e.whole?.any fun v => decide (v < 0)
  | binary _ l _ => l.leadsNegative
  | _ => false

/-- The groups of an expression can be replaced by the digits of their values. -/
def Spliceable : Expr → Prop
  | group e => e.Spliceable ∧ e.whole? ≠ some Whole.lowest
  | unary _ e => e.Spliceable ∧ e.leadsNegative = false
  | binary .pow l r => l.Spliceable ∧ r.Spliceable ∧
      (l.leadsNegative = true → (∀ k ∈ r.whole?, k % 2 = 1) ∧
        (binary .pow l r).whole? ≠ some Whole.lowest)
  | binary _ l r => l.Spliceable ∧ r.Spliceable
  | _ => True

theorem spliceable_binary {op : BinaryOp} {l r : Expr} (h : (binary op l r).Spliceable) :
    l.Spliceable ∧ r.Spliceable := by
  cases op with
  | pow => exact ⟨h.1, h.2.1⟩
  | add => exact h
  | sub => exact h
  | mul => exact h
  | div => exact h

end Expr

end DiceNotation
