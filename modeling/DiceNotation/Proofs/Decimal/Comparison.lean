import DiceNotation.Proofs.Decimal.Bits
import Mathlib

/-!
# Comparing doubles

Two doubles of the same sign are compared by their exponents first and by their mantissas only if
those are the same.  That is right because the first bit of a mantissa is always set unless the
exponent is the least one: a greater exponent then means a greater number, whatever the mantissas
are.  So the comparison of two finite doubles is the comparison of the rational numbers that they
stand for, of which zero is the only one with two doubles.

* `Represents`: the number that a finite double stands for.
* `then_compare`: exponents before mantissas.
* `compare_of_represents`, `lt_iff_of_represents`, `beq_iff_of_represents`.
-/

namespace DiceNotation.Double

open Float.Model Float.Model.UnpackedFloat

variable {m₁ m₂ : Nat} {e₁ e₂ : Int} {u v : UnpackedFloat} {p q : ℚ}

/-- The rational number that a finite double stands for. -/
inductive Represents : UnpackedFloat → ℚ → Prop where
  | zero (s : Sign) : Represents (.zero s) 0
  | positive {m : Nat} {e : Int} (h : Canonical m e) :
    Represents (.finite .positive m e h.pos) (m * 2 ^ e)
  | negative {m : Nat} {e : Int} (h : Canonical m e) :
    Represents (.finite .negative m e h.pos) (-(m * 2 ^ e))

theorem Canonical.value_pos {m : Nat} {e : Int} (h : Canonical m e) : (0 : ℚ) < m * 2 ^ e :=
  mul_pos (Nat.cast_pos.mpr h.pos) (zpow_pos (by norm_num) e)

/-- A greater exponent means a greater number. -/
theorem value_lt_of_exponent_lt (h₁ : Canonical m₁ e₁) (h₂ : Canonical m₂ e₂) (he : e₁ < e₂) :
    (m₁ : ℚ) * 2 ^ e₁ < m₂ * 2 ^ e₂ := by
  have hleast := h₁.least
  have hlt : (m₁ : ℚ) < 2 ^ 53 := mod_cast h₁.lt
  have hfull : (2 ^ 52 : ℚ) ≤ m₂ := mod_cast h₂.normal.resolve_right (by omega)
  have hpos : (0 : ℚ) < 2 ^ e₁ := zpow_pos (by norm_num) e₁
  calc (m₁ : ℚ) * 2 ^ e₁ < 2 ^ 53 * 2 ^ e₁ := mul_lt_mul_of_pos_right hlt hpos
    _ = 2 ^ 52 * 2 ^ (e₁ + 1) := by rw [zpow_add_one₀ (by norm_num)]; ring
    _ ≤ m₂ * 2 ^ e₂ :=
      mul_le_mul hfull (zpow_le_zpow_right₀ (by norm_num) (by omega)) (zpow_pos (by norm_num) _).le
        (Nat.cast_nonneg m₂)

/-- **Exponents before mantissas** is the order of the numbers. -/
theorem then_compare (h₁ : Canonical m₁ e₁) (h₂ : Canonical m₂ e₂) :
    (compare e₁ e₂).then (compare m₁ m₂) = compare ((m₁ : ℚ) * 2 ^ e₁) (m₂ * 2 ^ e₂) := by
  rcases lt_trichotomy e₁ e₂ with hlt | rfl | hgt
  · rw [compare_lt_iff_lt.mpr hlt, compare_lt_iff_lt.mpr (value_lt_of_exponent_lt h₁ h₂ hlt)]
    rfl
  · have hpos : (0 : ℚ) < 2 ^ e₁ := zpow_pos (by norm_num) e₁
    rw [compare_eq_iff_eq.mpr (rfl : e₁ = e₁)]
    show compare m₁ m₂ = _
    rcases lt_trichotomy m₁ m₂ with hlt | rfl | hgt
    · have hq : (m₁ : ℚ) < m₂ := mod_cast hlt
      rw [compare_lt_iff_lt.mpr hlt, compare_lt_iff_lt.mpr (mul_lt_mul_of_pos_right hq hpos)]
    · rw [compare_eq_iff_eq.mpr rfl, compare_eq_iff_eq.mpr rfl]
    · have hq : (m₂ : ℚ) < m₁ := mod_cast hgt
      rw [compare_gt_iff_gt.mpr hgt, compare_gt_iff_gt.mpr (mul_lt_mul_of_pos_right hq hpos)]
  · rw [compare_gt_iff_gt.mpr hgt, compare_gt_iff_gt.mpr (value_lt_of_exponent_lt h₂ h₁ hgt)]
    rfl

theorem compare_neg_neg (p q : ℚ) : compare (-p) (-q) = (compare p q).swap := by
  rcases lt_trichotomy p q with hlt | rfl | hgt
  · rw [compare_lt_iff_lt.mpr hlt, compare_gt_iff_gt.mpr (neg_lt_neg hlt)]
    rfl
  · rw [compare_eq_iff_eq.mpr rfl, compare_eq_iff_eq.mpr rfl]
    rfl
  · rw [compare_gt_iff_gt.mpr hgt, compare_lt_iff_lt.mpr (neg_lt_neg hgt)]
    rfl

/-- **Finite doubles are compared as the numbers that they stand for.** -/
theorem compare_of_represents (hu : Represents u p) (hv : Represents v q) :
    UnpackedFloat.compare u v = some (compare p q) := by
  cases hu with
  | zero s =>
    cases hv with
    | zero s' => rw [compare_eq_iff_eq.mpr rfl]; rfl
    | positive h => rw [compare_lt_iff_lt.mpr h.value_pos]; rfl
    | negative h => rw [compare_gt_iff_gt.mpr (neg_lt_zero.mpr h.value_pos)]; rfl
  | positive h =>
    cases hv with
    | zero s => rw [compare_gt_iff_gt.mpr h.value_pos]; rfl
    | positive h' => rw [← then_compare h h']; rfl
    | negative h' =>
      rw [compare_gt_iff_gt.mpr ((neg_lt_zero.mpr h'.value_pos).trans h.value_pos)]
      rfl
  | negative h =>
    cases hv with
    | zero s => rw [compare_lt_iff_lt.mpr (neg_lt_zero.mpr h.value_pos)]; rfl
    | positive h' =>
      rw [compare_lt_iff_lt.mpr ((neg_lt_zero.mpr h.value_pos).trans h'.value_pos)]
      rfl
    | negative h' => rw [compare_neg_neg, ← then_compare h h']; rfl

variable {x y : Float}

theorem lt_iff_of_represents (hx : Represents x.toModel.unpack p)
    (hy : Represents y.toModel.unpack q) : x < y ↔ p < q := by
  show decide (UnpackedFloat.lt x.toModel.unpack y.toModel.unpack = true) = true ↔ _
  rw [decide_eq_true_eq, UnpackedFloat.lt, compare_of_represents hx hy, beq_iff_eq,
    Option.some.injEq, compare_lt_iff_lt]

theorem beq_iff_of_represents (hx : Represents x.toModel.unpack p)
    (hy : Represents y.toModel.unpack q) : (x == y) = true ↔ p = q := by
  show UnpackedFloat.beq x.toModel.unpack y.toModel.unpack = true ↔ _
  rw [UnpackedFloat.beq, compare_of_represents hx hy, beq_iff_eq, Option.some.injEq,
    compare_eq_iff_eq]

end DiceNotation.Double
