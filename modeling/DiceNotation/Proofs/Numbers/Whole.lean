import DiceNotation.Number
import Mathlib.Algebra.Order.Ring.Int
import Mathlib.Algebra.Ring.Int.Parity

/-!
# Operations on whole numbers

An operation on two whole numbers is the exact one followed by `ofInt`, which gives the answer if it
is in the range and an overflow if it is not.  For sums, differences, products and negatives that is
how they are defined.  A quotient is whole only if it is exact.  A power is computed without
ever writing down a large number, and comes to the same for every exponent below `2^32`.

* `ofInt_eq_ok_iff`: when an answer is given.
* `div_of_dvd`, `exists_div_of_not_dvd`, `div_zero`: the three cases of a quotient.
* `intPow?_cases`, `pow_of_lt`, `pow_of_le`: powers.
-/

namespace DiceNotation.Number

theorem ofInt_eq_ok_iff {n : Int} {a : Number} :
    ofInt n = .ok a ↔ a = .int n ∧ Whole.fits n = true := by
  cases hfits : Whole.fits n with
  | true => simp [ofInt_of_fits hfits, eq_comm]
  | false => simp [ofInt_of_not_fits hfits]

/-! ## Quotients -/

theorem div_zero (a : Number) : div a (.int 0) = .error .zeroDivision := rfl

/-- A divisor that is not zero passes the first check. -/
theorem isZero_int {y : Int} (hy : y ≠ 0) : (int y).isZero = false := beq_false_of_ne hy

/-- **An exact quotient is whole.** -/
theorem div_of_dvd {x y : Int} (hy : y ≠ 0) (h : y ∣ x) :
    div (.int x) (.int y) = ofInt (x / y) := by
  simp only [div, isZero_int hy, Bool.false_eq_true, if_false, if_pos (Int.emod_eq_zero_of_dvd h)]

/-- A quotient that is not exact is a double. -/
theorem exists_div_of_not_dvd {x y : Int} (hy : y ≠ 0) (h : ¬ y ∣ x) :
    ∃ q, div (.int x) (.int y) = .ok (.float q) := by
  have hmod : x % y ≠ 0 := fun hmod => h (Int.dvd_of_emod_eq_zero hmod)
  refine ⟨Float.ofInt x / Float.ofInt y, ?_⟩
  simp only [div, isZero_int hy, Bool.false_eq_true, if_false, if_neg hmod]

/-! ## Powers -/

/-- Beyond the exponent 64 only three bases have powers in the range. -/
theorem not_fits_pow {x : Int} {k : Nat} (hk : 64 ≤ k) (hx : 1 < x.natAbs) :
    Whole.fits (x ^ k) = false := by
  have hlarge : 2 ^ 64 ≤ (x ^ k).natAbs := by
    rw [Int.natAbs_pow]
    calc 2 ^ 64 ≤ 2 ^ k := Nat.pow_le_pow_right (by decide) hk
      _ ≤ x.natAbs ^ k := Nat.pow_le_pow_left hx k
  rw [Bool.eq_false_iff, Ne, Whole.fits_iff]
  unfold Whole.lowest Whole.highest
  omega

/-- The powers of `0`, `1` and `-1`. -/
theorem pow_of_natAbs_le_one {x : Int} {k : Nat} (hk : k ≠ 0) (hx : x.natAbs ≤ 1) :
    x ^ k = if k % 2 = 0 then x * x else x := by
  have hcases : x = 0 ∨ x = 1 ∨ x = -1 := by omega
  rcases hcases with rfl | rfl | rfl
  · simp [zero_pow hk]
  · simp
  · by_cases heven : k % 2 = 0
    · rw [if_pos heven, (Nat.even_iff.mpr heven).neg_one_pow]
      rfl
    · rw [if_neg heven, (Nat.odd_iff.mpr (by omega)).neg_one_pow]

/-- **What is computed is the power**, and where nothing is computed it is out of the range. -/
theorem intPow?_cases (x : Int) (k : Nat) :
    intPow? x k = some (x ^ k) ∨ intPow? x k = none ∧ Whole.fits (x ^ k) = false := by
  unfold intPow?
  by_cases hsmall : k < 64
  · exact .inl (if_pos hsmall)
  · rw [if_neg hsmall]
    by_cases hunit : x.natAbs ≤ 1
    · rw [if_pos hunit, pow_of_natAbs_le_one (by omega) hunit]
      exact .inl rfl
    · rw [if_neg hunit]
      exact .inr ⟨rfl, not_fits_pow (by omega) (by omega)⟩

/-- **A power with an exponent below `2^32`** is the exact one if that is in the range. -/
theorem pow_of_lt (x : Int) {k : Nat} (hk : k < 2 ^ 32) :
    pow (.int x) (.int k) = ofInt (x ^ k) := by
  show pow (.int x) (.int (.ofNat k)) = _
  rw [pow, if_pos (show k < 4294967296 from hk)]
  rcases intPow?_cases x k with hsome | ⟨hnone, hfits⟩
  · rw [hsome]
  · rw [hnone, ofInt_of_not_fits hfits]

/-- A larger exponent is refused, whatever the base. -/
theorem pow_of_le (x : Int) {k : Nat} (hk : 2 ^ 32 ≤ k) :
    pow (.int x) (.int k) = .error .overflow := by
  show pow (.int x) (.int (.ofNat k)) = _
  rw [pow, if_neg (show ¬ k < 4294967296 from Nat.not_lt.mpr hk)]

end DiceNotation.Number
