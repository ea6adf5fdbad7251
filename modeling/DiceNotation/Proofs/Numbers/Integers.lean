import DiceNotation.Proofs.Decimal.Integers
import DiceNotation.Proofs.Numbers.Whole
import Mathlib

/-!
# Whole numbers as integers

Sums, differences, products, negatives, exact quotients and powers of whole numbers are those of the
integers as long as they are in the range, and an overflow is reported when they are not.  There are
two limits.  An exponent of `2^32` or more is refused for every base, also for `0`, `1` and `-1`.
And numbers are compared as doubles: two whole numbers that have the same nearest double are
equal, and all others are in their order.

* `Exactly`: the exact answer, or an overflow.
* `compare?_int`, `beq_int`: the comparison as one of integers.
* `ActAsIntegers`, `whole_numbers_act_as_integers`.
-/

namespace DiceNotation.Number

open DiceNotation.Double (nearest nearest_mono nearest_of_natAbs_le represents_ofInt
  lt_iff_of_represents beq_iff_of_represents)

variable {x y : Int}

/-- The answer is the exact one if that is in the range, and an overflow if it is not. -/
def Exactly (n : Int) (answer : Except Fault Number) : Prop :=
  (Whole.fits n = true → answer = .ok (.int n)) ∧
    (Whole.fits n = false → answer = .error .overflow)

theorem exactly_ofInt (n : Int) : Exactly n (ofInt n) := ⟨ofInt_of_fits, ofInt_of_not_fits⟩

/-! ## Comparison -/

theorem natAbs_le_of_fits (hx : Whole.fits x = true) : x.natAbs ≤ 2 ^ 63 := by
  rw [Whole.fits_iff] at hx
  unfold Whole.lowest Whole.highest at hx
  omega

/-- Whole numbers are compared as their nearest doubles. -/
theorem compare?_int (hx : Whole.fits x = true) (hy : Whole.fits y = true) :
    compare? (.int x) (.int y) = some (compare (nearest x) (nearest y)) := by
  have hx' := represents_ofInt (natAbs_le_of_fits hx)
  have hy' := represents_ofInt (natAbs_le_of_fits hy)
  have hlt : Float.ofInt x < Float.ofInt y ↔ nearest x < nearest y := by
    rw [lt_iff_of_represents hx' hy', Int.cast_lt]
  have hgt : Float.ofInt y < Float.ofInt x ↔ nearest y < nearest x := by
    rw [lt_iff_of_represents hy' hx', Int.cast_lt]
  have heq : (Float.ofInt x == Float.ofInt y) = true ↔ nearest x = nearest y := by
    rw [beq_iff_of_represents hx' hy', Int.cast_inj]
  unfold compare? toFloat
  dsimp only
  rcases lt_trichotomy (nearest x) (nearest y) with h | h | h
  · rw [if_pos (hlt.mpr h), compare_lt_iff_lt.mpr h]
  · rw [if_neg fun h' => (hlt.mp h').ne h, if_neg fun h' => (hgt.mp h').ne h.symm,
      if_pos (heq.mpr h), compare_eq_iff_eq.mpr h]
  · rw [if_neg fun h' => (hlt.mp h').not_gt h, if_pos (hgt.mpr h), compare_gt_iff_gt.mpr h]

theorem beq_int (hx : Whole.fits x = true) (hy : Whole.fits y = true) :
    (int x == int y) = decide (nearest x = nearest y) := by
  have hx' := represents_ofInt (natAbs_le_of_fits hx)
  have hy' := represents_ofInt (natAbs_le_of_fits hy)
  have heq := beq_iff_of_represents hx' hy'
  rw [Int.cast_inj] at heq
  exact Bool.eq_iff_iff.mpr (heq.trans decide_eq_true_iff.symm)

/-- Rounding to doubles makes numbers equal, but never turns their order around. -/
theorem compare_nearest (x y : Int) :
    compare (nearest x) (nearest y) = if nearest x = nearest y then .eq else compare x y := by
  split
  · next h => exact compare_eq_iff_eq.mpr h
  · next hne =>
    rcases lt_trichotomy x y with h | rfl | h
    · rw [compare_lt_iff_lt.mpr h, compare_lt_iff_lt.mpr ((nearest_mono h.le).lt_of_ne hne)]
    · exact absurd rfl hne
    · rw [compare_gt_iff_gt.mpr h,
        compare_gt_iff_gt.mpr ((nearest_mono h.le).lt_of_ne (Ne.symm hne))]

/-! ## All operations -/

/-- How two whole numbers behave under the operations and the comparisons of numbers. -/
structure ActAsIntegers (x y : Int) : Prop where
  add : Exactly (x + y) (Number.add (.int x) (.int y))
  sub : Exactly (x - y) (Number.sub (.int x) (.int y))
  mul : Exactly (x * y) (Number.mul (.int x) (.int y))
  neg : Exactly (-x) (Number.neg (.int x))
  pow : ∀ k : Nat, y = k → k < 2 ^ 32 → Exactly (x ^ k) (Number.pow (.int x) (.int y))
  pow_refused : 2 ^ 32 ≤ y → Number.pow (.int x) (.int y) = .error .overflow
  div : y ≠ 0 → y ∣ x → Exactly (x / y) (Number.div (.int x) (.int y))
  /-- The order of the integers, unless both have the same nearest double. -/
  compare? : Number.compare? (.int x) (.int y) =
    some (if nearest x = nearest y then .eq else compare x y)
  beq : (int x == int y) = decide (nearest x = nearest y)
  /-- Up to `2^53` there is no such pair of different numbers. -/
  exact : x.natAbs ≤ 2 ^ 53 → y.natAbs ≤ 2 ^ 53 → (nearest x = nearest y ↔ x = y)

/-- **Whole numbers act as the integers that they are**, apart from exponents of `2^32` and more and
from numbers that have the same nearest double. -/
theorem whole_numbers_act_as_integers (hx : Whole.fits x = true) (hy : Whole.fits y = true) :
    ActAsIntegers x y where
  add := exactly_ofInt (x + y)
  sub := exactly_ofInt (x - y)
  mul := exactly_ofInt (x * y)
  neg := exactly_ofInt (-x)
  pow := by
    rintro k rfl hk
    rw [pow_of_lt x hk]
    exact exactly_ofInt (x ^ k)
  pow_refused := by
    intro hle
    obtain ⟨k, rfl⟩ := Int.eq_ofNat_of_zero_le (show 0 ≤ y by omega)
    exact pow_of_le x (by omega)
  div := by
    intro hne hdvd
    rw [div_of_dvd hne hdvd]
    exact exactly_ofInt (x / y)
  compare? := by rw [compare?_int hx hy, compare_nearest]
  beq := beq_int hx hy
  exact := by
    intro hx' hy'
    rw [nearest_of_natAbs_le hx', nearest_of_natAbs_le hy']

/-- The least whole number and `-1`, of which the quotient and the product are out of the range. -/
theorem whole_numbers_act_as_integers_at_lowest :
    Whole.fits Whole.lowest = true ∧ Whole.fits (-1) = true ∧ ActAsIntegers Whole.lowest (-1) :=
  ⟨by decide, by decide, whole_numbers_act_as_integers (by decide) (by decide)⟩

/-- The first power of one is in the range, but refused with a long exponent; and `2^53` and the
next integer are equal as numbers. -/
theorem one_pow_refused_and_neighbours_equal :
    (Whole.fits ((1 : Int) ^ 4294967296) = true ∧
      Number.pow (.int 1) (.int 4294967296) = .error .overflow) ∧
    (Number.compare? (.int 9007199254740992) (.int 9007199254740993) = some .eq ∧
      (int 9007199254740992 == int 9007199254740993) = true ∧
      compare (9007199254740992 : Int) 9007199254740993 = .lt) := by
  have hequal : nearest 9007199254740992 = nearest 9007199254740993 := by decide
  refine ⟨⟨?_, rfl⟩, ?_, ?_, by decide⟩
  · rw [one_pow]
    decide
  · rw [compare?_int (by decide) (by decide), compare_eq_iff_eq.mpr hequal]
  · rw [beq_int (by decide) (by decide), decide_eq_true hequal]

end DiceNotation.Number
