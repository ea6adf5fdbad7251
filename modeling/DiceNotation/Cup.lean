import DiceNotation.Error
import DiceNotation.Roller.Basic

/-!
# The dice cup

A cup holds a roller and counts the dice that it is asked for against a budget.  A request that
would exceed the budget draws no face at all, but it is counted like any other, so a cup that has
refused a request refuses every later one until it is reset.

Without a budget the count is still bounded, by the largest word of 64 bits.  So every cup has a
`limit`, and whoever goes on asking for at least one die is refused in the end; rolls that explode
again and again stop for this reason.

* `Cup.roll`, with `roll_of_le` and `roll_of_lt`.
* `rolls_of_roll_ok`: what is counted when a request is granted.
-/

namespace DiceNotation

/-- A roller, a budget, and how many dice have been asked for since the last reset. -/
structure Cup (ρ : Type) where
  budget : Option Nat
  rolls : Nat := 0
  roller : ρ

namespace Cup

variable {ρ : Type}

/-- The greatest number of dice that can be rolled before the next reset. -/
def limit (c : Cup ρ) : Nat := c.budget.getD (Nat.pow 2 64 - 1)

/-- Begins a new count. -/
def reset (c : Cup ρ) : Cup ρ := { c with rolls := 0 }

variable [Roller ρ]

/-- Asks for so many faces between the bounds. -/
def roll (n : Nat) (lo hi : Int) (c : Cup ρ) : Except RollError (List Int) × Cup ρ :=
  if c.limit < c.rolls + n then (.error .tooManyRolls, { c with rolls := c.rolls + n })
  else
    let (faces, roller) := Roller.rollMany n lo hi c.roller
    (.ok faces, { c with rolls := c.rolls + n, roller })

/-- A request within the budget is granted. -/
theorem roll_of_le {n : Nat} {lo hi : Int} {c : Cup ρ} (h : c.rolls + n ≤ c.limit) :
    c.roll n lo hi = (.ok (Roller.rollMany n lo hi c.roller).1,
      { c with rolls := c.rolls + n, roller := (Roller.rollMany n lo hi c.roller).2 }) := by
  rw [roll, if_neg (Nat.not_lt.mpr h)]

/-- A request beyond the budget is refused. -/
theorem roll_of_lt {n : Nat} {lo hi : Int} {c : Cup ρ} (h : c.limit < c.rolls + n) :
    c.roll n lo hi = (.error .tooManyRolls, { c with rolls := c.rolls + n }) := by
  rw [roll, if_pos h]

/-- Asking for dice does not change the limit. -/
@[simp] theorem limit_roll (n : Nat) (lo hi : Int) (c : Cup ρ) :
    (c.roll n lo hi).2.limit = c.limit := by
  unfold roll
  split <;> rfl

/-- Every request is counted. -/
@[simp] theorem rolls_roll (n : Nat) (lo hi : Int) (c : Cup ρ) :
    (c.roll n lo hi).2.rolls = c.rolls + n := by
  unfold roll
  split <;> rfl

/-- A granted request stays within the limit. -/
theorem rolls_of_roll_ok {n : Nat} {lo hi : Int} {c c' : Cup ρ} {faces : List Int}
    (h : c.roll n lo hi = (.ok faces, c')) :
    c'.limit = c.limit ∧ c'.rolls = c.rolls + n ∧ c.rolls + n ≤ c.limit := by
  have hc : c' = (c.roll n lo hi).2 := by rw [h]
  refine ⟨by rw [hc, limit_roll], by rw [hc, rolls_roll], ?_⟩
  refine Nat.not_lt.mp fun hlt => ?_
  rw [roll_of_lt hlt, Prod.mk.injEq] at h
  exact absurd h.1 (by simp)

/-- A granted request gives as many faces as were asked for. -/
theorem length_of_roll_ok {n : Nat} {lo hi : Int} {c c' : Cup ρ} {faces : List Int}
    (h : c.roll n lo hi = (.ok faces, c')) : faces.length = n := by
  rw [roll_of_le (rolls_of_roll_ok h).2.2, Prod.mk.injEq] at h
  rw [← Except.ok.inj h.1, Roller.length_rollMany]

end Cup

end DiceNotation
