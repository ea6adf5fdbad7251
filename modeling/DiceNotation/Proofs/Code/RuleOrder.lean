import Mathlib
import DiceNotation.Proofs.Code.Gathering
import DiceNotation.Proofs.Failure

/-!
# Rules in any order

A draft takes what the rules find one rule after another, and refuses a setting of a key that has
been set.  So rules do not commute on drafts: of two that set the same key the first one stays, and
which of them is the first is a matter of their order.  They commute on the drafts that are
finished, since in these no key was refused, and then it does not matter who came first.

What is refused does depend on the order.  A code with two faults is refused for the one that is met
first, and a conflict names the two rules in the order in which they were tried; but whatever the
order, it is a failure of usage.

* `rules_read_in_any_order`.
-/

namespace DiceNotation.DiceCode

/-- **The order of the rules does not matter.**  Tried in another order, the rules read the same
codes, and each of them as the same parameters; and whichever code they refuse, they refuse as a
matter of usage. -/
theorem rules_read_in_any_order {rules : List Rule} (h : rules.Perm Rule.all) (code : Text) :
    (∀ p, readWith rules code = .ok p ↔ read code = .ok p) ∧
    (∀ e, readWith rules code = .error e → e.category = .usage) ∧
    ∀ e, read code = .error e → e.category = .usage := by
  refine ⟨fun p => ?_, failsOnly_usage_readWith rules code, failsOnly_usage_readWith Rule.all code⟩
  exact (readWith_eq_ok_iff h).trans read_eq_ok_iff.symm

/-- Backward, the rules begin with the bangs and end with the ranks. -/
theorem rules_read_in_any_order_backward :
    Rule.all.reverse.Perm Rule.all ∧
    readWith Rule.all.reverse "2,-1@5d10R+3s!".toList = .ok
      { amount := .count 5, sides := some 10, rerolls := 3, sort := true, explosion := 1,
        reduction := some (.ranks 2 [-1]) } := by
  have hperm : Rule.all.reverse.Perm Rule.all := List.reverse_perm _
  refine ⟨hperm, ((rules_read_in_any_order hperm _).1 _).mpr ?_⟩
  cbv

/-- A conflict names its rules in the order in which they were tried. -/
example :
    read "2@5d10g".toList = .error (.conflict .reduction .selectors .suffix) ∧
    readWith Rule.all.reverse "2@5d10g".toList =
      .error (.conflict .reduction .suffix .selectors) := by
  constructor
  · cbv
  · cbv

end DiceNotation.DiceCode
