import Mathlib

/-!
# Quotients that are rounded

Doubles are rounded from a mantissa with two more bits: the next one, and whether there is anything
behind it.  For the quotient of two natural numbers these bits say how twice the remainder compares
to the divisor, and to shift the mantissa to the right is to double the divisor.  So what the bits
become after any number of shifts is known without looking at the single ones.

* `quotient`: the mantissa of a quotient with its two bits.
* `shiftRight_quotient`, `ofMantissaAndAccuracy_eq_quotient`: where such mantissas come from.
* `roundedMantissa_quotient`: what they are rounded to.
-/

namespace DiceNotation.Double

open Float.Model Float.Model.UnpackedFloat

variable {a b m : Nat}

/-- The quotient of two natural numbers with the two bits that rounding looks at. -/
def quotient (a b : Nat) : ExtendedMantissa where
  mantissa := a / b
  roundBit := decide (b ≤ 2 * (a % b))
  stickyBit := decide (2 * (a % b) % b ≠ 0)

/-- The two bits are zero exactly if the division is. -/
theorem bits_eq_zero_iff (hb : 0 < b) {r : Nat} (hr : r < b) :
    (b ≤ 2 * r ∨ 2 * r % b ≠ 0) ↔ r ≠ 0 := by
  constructor
  · rintro h rfl
    rw [Nat.mul_zero, Nat.zero_mod] at h
    omega
  · intro hne
    by_cases hle : b ≤ 2 * r
    · exact Or.inl hle
    · rw [Nat.mod_eq_of_lt (by omega)]
      omega

/-- One more bit behind the mantissa is a divisor twice as large. -/
theorem shiftRightOne_quotient (hb : 0 < b) :
    (quotient a b).shiftRightOne = quotient a (b * 2) := by
  have hr : a % b < b := Nat.mod_lt a hb
  have hmod : a % (b * 2) = a % b + b * (a / b % 2) := Nat.mod_mul
  have hmantissa : a / b / 2 = a / (b * 2) := Nat.div_div_eq_div_mul a b 2
  have hround : (a / b % 2 != 0) = decide (b * 2 ≤ 2 * (a % (b * 2))) := by
    rw [hmod]
    rcases Nat.mod_two_eq_zero_or_one (a / b) with hbit | hbit
    · rw [hbit, Nat.mul_zero, Nat.add_zero]
      exact (decide_eq_false (by omega)).symm
    · rw [hbit, Nat.mul_one]
      exact (decide_eq_true (by omega)).symm
  have hsticky : (decide (b ≤ 2 * (a % b)) || decide (2 * (a % b) % b ≠ 0)) =
      decide (2 * (a % (b * 2)) % (b * 2) ≠ 0) := by
    rw [← Bool.decide_or, Nat.mul_comm b 2, Nat.mul_mod_mul_left, Nat.mod_mul_left_mod]
    refine decide_eq_decide.mpr ((bits_eq_zero_iff hb hr).trans ?_)
    omega
  unfold quotient ExtendedMantissa.shiftRightOne
  rw [hmantissa, hround, hsticky]

/-- **Shifting a quotient** multiplies the divisor. -/
theorem shiftRight_quotient (hb : 0 < b) (k : Nat) :
    quotient a b >>> k = quotient a (b * 2 ^ k) := by
  induction k with
  | zero =>
    rw [Nat.pow_zero, Nat.mul_one]
    rfl
  | succ k ih =>
    show (quotient a b >>> k).shiftRightOne = _
    rw [ih, shiftRightOne_quotient (Nat.mul_pos hb (Nat.two_pow_pos k)), Nat.mul_assoc,
      Nat.pow_succ]

/-- How exact a quotient is says its two bits. -/
theorem ofMantissaAndAccuracy_eq_quotient (hb : 0 < b) :
    ExtendedMantissa.ofMantissaAndAccuracy (a / b) (accuracyOfFraction (a % b) b) =
      quotient a b := by
  have hr : a % b < b := Nat.mod_lt a hb
  unfold accuracyOfFraction quotient
  by_cases hzero : a % b = 0
  · rw [if_pos hzero, hzero, decide_eq_false (show ¬ b ≤ 2 * 0 by omega), Nat.mul_zero,
      Nat.zero_mod]
    rfl
  · rw [if_neg hzero]
    rcases Nat.lt_trichotomy (2 * (a % b)) b with hlt | heq | hgt
    · rw [Nat.compare_eq_lt.mpr hlt, Nat.mod_eq_of_lt hlt, decide_eq_false (Nat.not_le_of_lt hlt),
        decide_eq_true (show 2 * (a % b) ≠ 0 by omega)]
      rfl
    · rw [Nat.compare_eq_eq.mpr heq, heq, decide_eq_true (Nat.le_refl b), Nat.mod_self]
      rfl
    · have hrest : 2 * (a % b) % b = 2 * (a % b) - b := by
        rw [Nat.mod_eq_sub_mod (Nat.le_of_lt hgt)]
        exact Nat.mod_eq_of_lt (by omega)
      rw [Nat.compare_eq_gt.mpr hgt, hrest, decide_eq_true (Nat.le_of_lt hgt),
        decide_eq_true (show 2 * (a % b) - b ≠ 0 by omega)]
      rfl

/-- **A quotient is rounded to the nearest natural number**, and to the even one of two. -/
theorem roundedMantissa_quotient (hb : 0 < b) (hlow : 2 * m * b ≤ 2 * a + b)
    (hhigh : 2 * a ≤ 2 * m * b + b)
    (hodd : m % 2 = 1 → 2 * m * b < 2 * a + b ∧ 2 * a < 2 * m * b + b) :
    (quotient a b).roundedMantissa = m := by
  have hr : a % b < b := Nat.mod_lt a hb
  have ha : b * (a / b) + a % b = a := Nat.div_add_mod a b
  have hround : (quotient a b).roundedMantissa =
      (accuracyOfFraction (a % b) b).roundToNearestEven (a / b) := by
    rw [← ofMantissaAndAccuracy_eq_quotient hb]
    rcases accuracyOfFraction (a % b) b with _ | ⟨_ | _ | _⟩
    all_goals rfl
  rw [hround]
  generalize a / b = q at *
  generalize a % b = r at *
  subst ha
  -- the nearest natural number is the quotient, or the next one
  have hq : q = m ∨ q + 1 = m := by
    have hle : q ≤ m := by
      by_contra hlt
      nlinarith [Nat.mul_le_mul_right b (Nat.lt_of_not_le hlt)]
    have hle' : m ≤ q + 1 := by
      by_contra hlt
      nlinarith [Nat.mul_le_mul_right b (Nat.lt_of_not_le hlt)]
    omega
  unfold accuracyOfFraction
  rcases hq with rfl | rfl
  · have hproduct : 2 * q * b = 2 * (b * q) := by ring
    rw [hproduct] at hlow hhigh hodd
    by_cases hzero : r = 0
    · rw [if_pos hzero]
      rfl
    rw [if_neg hzero]
    rcases Nat.lt_or_eq_of_le (show 2 * r ≤ b by omega) with hlt | heq
    · rw [Nat.compare_eq_lt.mpr hlt]
      rfl
    · rw [Nat.compare_eq_eq.mpr heq]
      show q + q % 2 = q
      omega
  · have hproduct : 2 * (q + 1) * b = 2 * (b * q) + 2 * b := by ring
    rw [hproduct] at hlow hhigh hodd
    rw [if_neg (show r ≠ 0 by omega)]
    rcases Nat.lt_or_eq_of_le (show b ≤ 2 * r by omega) with hlt | heq
    · rw [Nat.compare_eq_gt.mpr hlt]
      rfl
    · rw [Nat.compare_eq_eq.mpr heq.symm]
      show q + q % 2 = q + 1
      omega

end DiceNotation.Double
