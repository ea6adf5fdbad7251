import DiceNotation.Roller.Basic

/-!
# A generator of its own

A seeded roller makes its random words itself.  The state is a word that grows by the same odd
number for every face, and so runs through all words before it repeats.  Two rounds of shifting
and multiplying spread the state over the bits of the random word.

Faces are the high word of the product of the random word and the number of faces.  They lie
within the bounds (`roll_mem_bounds`), and the same seed gives the same faces.
-/

namespace DiceNotation

/-- The state of the generator. -/
structure Seeded where
  state : UInt64
  deriving DecidableEq, Repr

namespace Seeded

/-- The generator for a seed. -/
def ofSeed (seed : Nat) : Seeded := ⟨UInt64.ofNat seed⟩

/-- The state after the next word. -/
def advance (r : Seeded) : Seeded := ⟨r.state + 0x9e3779b97f4a7c15⟩

/-- The random word of a state. -/
def word (r : Seeded) : UInt64 :=
  let z := r.state
  let z := (z ^^^ (z >>> 30)) * 0xbf58476d1ce4e5b9
  let z := (z ^^^ (z >>> 27)) * 0x94d049bb133111eb
  z ^^^ (z >>> 31)

/-- A face between the bounds.  If there is only one, the state stays as it is. -/
def roll (lo hi : Int) (r : Seeded) : Int × Seeded :=
  if hi ≤ lo then (lo, r)
  else
    let r := r.advance
    (lo + (r.word.toNat * (hi - lo + 1).toNat / Nat.pow 2 64 : Nat), r)

instance : Roller Seeded where
  roll := roll
  length_rollMany _ lo hi := length_drawEach (roll lo hi) _

/-- The faces of a seeded roller lie within the bounds. -/
theorem roll_mem_bounds {lo hi : Int} (h : lo ≤ hi) (r : Seeded) :
    lo ≤ (roll lo hi r).1 ∧ (roll lo hi r).1 ≤ hi := by
  unfold roll
  split
  · exact ⟨Int.le_refl lo, h⟩
  · next hlt =>
    have hword : r.advance.word.toNat < Nat.pow 2 64 := UInt64.toNat_lt _
    have hrange : 0 < (hi - lo + 1).toNat := by omega
    have hface : r.advance.word.toNat * (hi - lo + 1).toNat / Nat.pow 2 64 <
        (hi - lo + 1).toNat := by
      rw [Nat.div_lt_iff_lt_mul (by decide), Nat.mul_comm (hi - lo + 1).toNat]
      exact Nat.mul_lt_mul_of_pos_right hword hrange
    show lo ≤ lo + ((_ : Nat) : Int) ∧ lo + ((_ : Nat) : Int) ≤ hi
    generalize r.advance.word.toNat * (hi - lo + 1).toNat / Nat.pow 2 64 = face at hface ⊢
    omega

end Seeded

end DiceNotation
