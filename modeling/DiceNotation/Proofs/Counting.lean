import DiceNotation.Proofs.Code.Layout
import DiceNotation.Session.RollCode

/-!
# Codes that only count

A numeral, with or without a minus before it, is a dice code with an amount and nothing else.
Rolling it draws no face and gives the number back, in every session.

* `Spells.read`: such a code is read as an amount.
* `Spells.rollCode`: it is rolled to its number.
-/

namespace DiceNotation

open Text DiceCode

/-- The code is a single part. -/
theorem Spells.layout {x : Text} {n : Int} (h : Spells x n) :
    Layout [⟨[], .amount, x, [.amount (.count n)], fun _ hc => (nomatch hc), .count h⟩] where
  laid := by
    have hat : '@' ∉ x ++ [] := by
      rw [List.append_nil]
      exact fun hat => h.forall_mem (p := fun c => c ≠ '@') (by decide) _ hat rfl
    exact ⟨⟨⟨hat, Or.inl fun _ hc => (nomatch hc)⟩, fun _ hc => (nomatch hc)⟩, trivial⟩
  distinct := List.nodup_singleton _
  amount := ⟨_, List.mem_cons_self, rfl⟩

/-- **Such a code has an amount and nothing else.** -/
theorem Spells.read {x : Text} {n : Int} (h : Spells x n) :
    DiceCode.read x = .ok { amount := .count n } :=
  h.layout.read (h.trim.trans (List.append_nil x).symm) rfl

/-! ## The roll -/

/-- The roll of a code that only counts. -/
def counted (x : Text) (n : Int) : Roll :=
  ⟨.amount, Dice.ofFaces x { amount := .count n, sides := 1 } []⟩

theorem result_counted (x : Text) (n : Int) : (counted x n).result = some n := rfl

theorem value_counted (x : Text) (n : Int) : (counted x n).value = n := rfl

variable {ρ : Type} [Roller ρ]

/-- The session after a code that only counts was rolled. -/
def Session.count (s : Session ρ) (x : Text) (n : Int) : Session ρ :=
  { s with history := s.history.push (counted x n) }

/-- **Rolling such a code gives its number**, and nothing happens but that the roll is recorded. -/
theorem Spells.rollCode {x : Text} {n : Int} (h : Spells x n) (s : Session ρ) :
    Turn.rollCode x s = .ok (counted x n) (s.count x n) := by
  unfold Turn.rollCode
  rw [h.read, h.trim]
  rfl

end DiceNotation
