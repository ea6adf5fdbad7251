/-!
# Rollers

A roller is a source of faces.  It is asked for one face or for several at once, within given
bounds, and answers with the faces and the roller to ask next.  Asking for several need not be the
same as asking several times, since a source can draw more economically when it knows the bounds
in advance.

The one promise is `length_rollMany`: so many faces are drawn as were asked for.  That faces lie
within the bounds is not promised, because faces can be given in advance.
-/

namespace DiceNotation

/-- Asks for a face so many times. -/
def drawEach {ρ : Type} (draw : ρ → Int × ρ) : Nat → ρ → List Int × ρ
  | 0, r => ([], r)
  | n + 1, r =>
    let (face, r) := draw r
    let (faces, r) := drawEach draw n r
    (face :: faces, r)

section DrawEach

variable {ρ : Type} (draw : ρ → Int × ρ)

@[simp] theorem drawEach_zero (r : ρ) : drawEach draw 0 r = ([], r) := rfl

theorem drawEach_succ (n : Nat) (r : ρ) :
    drawEach draw (n + 1) r =
      ((draw r).1 :: (drawEach draw n (draw r).2).1, (drawEach draw n (draw r).2).2) := rfl

/-- Asking `n` times gives `n` faces. -/
@[simp] theorem length_drawEach (n : Nat) (r : ρ) : (drawEach draw n r).1.length = n := by
  induction n generalizing r with
  | zero => rfl
  | succ n ih => rw [drawEach_succ, List.length_cons, ih]

/-- What holds of every face that is drawn holds of all of them. -/
theorem forall_mem_drawEach {p : Int → Prop} (h : ∀ r, p (draw r).1) (n : Nat) (r : ρ) :
    ∀ face ∈ (drawEach draw n r).1, p face := by
  induction n generalizing r with
  | zero => exact fun face hface => absurd hface List.not_mem_nil
  | succ n ih =>
    rw [drawEach_succ]
    intro face hface
    rcases List.mem_cons.mp hface with rfl | hface
    · exact h r
    · exact ih (draw r).2 face hface

end DrawEach

/-- A source of faces. -/
class Roller (ρ : Type) where
  /-- A face between the bounds, and the roller that goes on. -/
  roll : (lo hi : Int) → ρ → Int × ρ
  /-- So many faces between the bounds, and the roller that goes on. -/
  rollMany : (n : Nat) → (lo hi : Int) → ρ → List Int × ρ := fun n lo hi => drawEach (roll lo hi) n
  /-- As many faces are drawn as were asked for. -/
  length_rollMany : ∀ n lo hi r, (rollMany n lo hi r).1.length = n

end DiceNotation
