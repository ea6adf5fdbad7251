import DiceNotation.Proofs.Decimal.Quotients
import Mathlib

/-!
# Rounding quotients to doubles

A finite double that is not zero is `m * 2^e`, where `m` has 53 bits, or fewer if `e` is the least
exponent.  The numbers that round to it lie half a step around it, or a quarter below it where the
next smaller double is nearer; the ends belong to an even `m`.  A quotient is rounded in two steps:
its mantissa is shifted until it has 53 bits, and then the bits behind it are rounded off, which may
carry into a bit more.  The result is the double to which the quotient belongs in the first sense.

Division of doubles first makes the mantissa of the dividend so long that this can be done, for
which the positions of the first bits are compared.

* `Canonical`, `roundWithAccuracy_canonical`: doubles, which are rounded to themselves.
* `RoundsTo`: the numbers that round to a double.
* `roundWithAccuracy_quotient`, `div_finite`: quotients, and those of doubles.
-/

namespace DiceNotation.Double

open Float.Model Float.Model.UnpackedFloat

variable {a b m k : Nat} {e : Int} {s : Sign}

/-- The mantissa and the exponent of a finite double that is not zero. -/
structure Canonical (m : Nat) (e : Int) : Prop where
  pos : 0 < m
  lt : m < 2 ^ 53
  least : -1074 ≤ e
  normal : 2 ^ 52 ≤ m ∨ e = -1074

/-- The exponent that a double gets from the position of its first bit. -/
theorem targetExponent_eq (m : Nat) (e : Int) :
    Format.binary64.targetExponent (totalExponent m e) = max ((m.log2 : Int) + e - 52) (-1074) := by
  show max ((m.log2 : Int) + 1 + e - 53) (-1074) = _
  congr 1
  omega

theorem shiftToTargetExponent_eq (m : Nat) (e : Int) (acc : Accuracy) :
    shiftToTargetExponent Format.binary64 m e acc =
      (ExtendedMantissa.ofMantissaAndAccuracy m acc >>>
          (max ((m.log2 : Int) + e - 52) (-1074) - e).toNat,
        e + (max ((m.log2 : Int) + e - 52) (-1074) - e).toNat) := by
  unfold shiftToTargetExponent
  rw [targetExponent_eq]
  rfl

/-- A double stays what it is. -/
theorem shiftToTargetExponent_canonical (h : Canonical m e) :
    shiftToTargetExponent Format.binary64 m e .exact = (⟨m, false, false⟩, e) := by
  have hlog : m.log2 < 53 := (Nat.log2_lt (Nat.ne_of_gt h.pos)).mpr h.lt
  have hleast := h.least
  have hshift : (max ((m.log2 : Int) + e - 52) (-1074) - e).toNat = 0 := by omega
  rw [shiftToTargetExponent_eq, hshift]
  show (_, e + 0) = _
  rw [Int.add_zero]
  rfl

/-- **A double is rounded to itself.** -/
theorem roundWithAccuracy_canonical (h : Canonical m e) :
    roundWithAccuracy Format.binary64 s m e .exact = .finite s m e h.pos := by
  unfold roundWithAccuracy
  rw [shiftToTargetExponent_canonical h]
  dsimp only
  rw [show ExtendedMantissa.roundedMantissa ⟨m, false, false⟩ = m from rfl,
    shiftToTargetExponent_canonical h]
  exact dif_neg (Nat.ne_of_gt h.pos)

/-- After rounding up to the next power of two there is one bit too many. -/
theorem shiftToTargetExponent_carry (he : -1074 ≤ e) :
    shiftToTargetExponent Format.binary64 (2 ^ 53) e .exact = (⟨2 ^ 52, false, false⟩, e + 1) := by
  have hshift : (max (((2 ^ 53).log2 : Int) + e - 52) (-1074) - e).toNat = 1 := by
    rw [Nat.log2_two_pow]
    omega
  rw [shiftToTargetExponent_eq, hshift]
  rfl

/-- A quotient is shifted to the exponent that its first bit asks for. -/
theorem shiftToTargetExponent_quotient (hb : 0 < b)
    (hk : max (((a / b).log2 : Int) + e - 52) (-1074) = e + k) :
    shiftToTargetExponent Format.binary64 (a / b) e (accuracyOfFraction (a % b) b) =
      (quotient a (b * 2 ^ k), e + k) := by
  have hshift : (e + k - e).toNat = k := by omega
  rw [shiftToTargetExponent_eq, ofMantissaAndAccuracy_eq_quotient hb, hk, hshift,
    shiftRight_quotient hb]

/-- The quotient of `a` and `b` is rounded to `m`. -/
structure Nearest (a b m : Nat) : Prop where
  low : 2 * m * b ≤ 2 * a + b
  high : 2 * a ≤ 2 * m * b + b
  odd : m % 2 = 1 → 2 * m * b < 2 * a + b ∧ 2 * a < 2 * m * b + b

theorem roundWithAccuracy_of_nearest (hb : 0 < b) (h : Canonical m (e + k))
    (hk : max (((a / b).log2 : Int) + e - 52) (-1074) = e + k) (hm : Nearest a (b * 2 ^ k) m) :
    roundWithAccuracy Format.binary64 s (a / b) e (accuracyOfFraction (a % b) b) =
      .finite s m (e + k) h.pos := by
  have hrounded :=
    roundedMantissa_quotient (Nat.mul_pos hb (Nat.two_pow_pos k)) hm.low hm.high hm.odd
  unfold roundWithAccuracy
  rw [shiftToTargetExponent_quotient hb hk]
  dsimp only
  rw [hrounded, shiftToTargetExponent_canonical h]
  exact dif_neg (Nat.ne_of_gt h.pos)

theorem roundWithAccuracy_of_carry (hb : 0 < b) (he : -1074 ≤ e + k)
    (hk : max (((a / b).log2 : Int) + e - 52) (-1074) = e + k)
    (hm : Nearest a (b * 2 ^ k) (2 ^ 53)) :
    roundWithAccuracy Format.binary64 s (a / b) e (accuracyOfFraction (a % b) b) =
      .finite s (2 ^ 52) (e + k + 1) (by decide) := by
  have hrounded :=
    roundedMantissa_quotient (Nat.mul_pos hb (Nat.two_pow_pos k)) hm.low hm.high hm.odd
  unfold roundWithAccuracy
  rw [shiftToTargetExponent_quotient hb hk]
  dsimp only
  rw [hrounded, shiftToTargetExponent_carry he]
  exact dif_neg (show (2 : Nat) ^ 52 ≠ 0 by decide)

/-- Whether the next smaller double is half as far away as the next greater one. -/
def Tight (m : Nat) (e : Int) : Prop := m = 2 ^ 52 ∧ e ≠ -1074

instance (m : Nat) (e : Int) : Decidable (Tight m e) := inferInstanceAs (Decidable (_ ∧ _))

/-- The number `w`, counted in steps of the double, is rounded to the double. -/
structure RoundsTo (w : ℚ) (m : Nat) (e : Int) : Prop where
  low : (m : ℚ) - (if Tight m e then 1 / 4 else 1 / 2) ≤ w
  high : w ≤ m + 1 / 2
  odd : m % 2 = 1 → (m : ℚ) - 1 / 2 < w ∧ w < m + 1 / 2

variable {w : ℚ}

theorem RoundsTo.sub_half_le (hw : RoundsTo w m e) : (m : ℚ) - 1 / 2 ≤ w := by
  have hlow := hw.low
  split at hlow
  · linarith
  · exact hlow

theorem RoundsTo.lt (hw : RoundsTo w m e) (h : Canonical m e) : w < 2 ^ 53 := by
  have hm : (m : ℚ) + 1 ≤ 2 ^ 53 := by exact_mod_cast h.lt
  linarith [hw.high]

theorem nearest_of_roundsTo (hb : 0 < b) (hw : RoundsTo w m e) (ha : (a : ℚ) = w * b) :
    Nearest a b m := by
  have hb' : (0 : ℚ) < b := by exact_mod_cast hb
  have hlow := mul_le_mul_of_nonneg_right hw.sub_half_le hb'.le
  have hhigh := mul_le_mul_of_nonneg_right hw.high hb'.le
  refine ⟨?_, ?_, fun hodd => ⟨?_, ?_⟩⟩
  · have hq : 2 * (m : ℚ) * b ≤ 2 * a + b := by linarith
    exact_mod_cast hq
  · have hq : 2 * (a : ℚ) ≤ 2 * m * b + b := by linarith
    exact_mod_cast hq
  · have hstrict := mul_lt_mul_of_pos_right (hw.odd hodd).1 hb'
    have hq : 2 * (m : ℚ) * b < 2 * a + b := by linarith
    exact_mod_cast hq
  · have hstrict := mul_lt_mul_of_pos_right (hw.odd hodd).2 hb'
    have hq : 2 * (a : ℚ) < 2 * m * b + b := by linarith
    exact_mod_cast hq

/-- The double just below which a number lies has a mantissa of which the steps change. -/
theorem RoundsTo.tight (hw : RoundsTo w m e) (h : Canonical m e) (hsmall : w < 2 ^ 52)
    (he : e ≠ -1074) : m = 2 ^ 52 ∧ 2 ^ 52 - 1 / 4 ≤ w := by
  have hnormal : 2 ^ 52 ≤ m := h.normal.resolve_right he
  have hm : m = 2 ^ 52 := by
    have hlt : (m : ℚ) < 2 ^ 52 + 1 := by linarith [hw.sub_half_le]
    have hlt : m < 2 ^ 52 + 1 := by exact_mod_cast hlt
    omega
  have hlow := hw.low
  rw [if_pos ⟨hm, he⟩, hm] at hlow
  push_cast at hlow
  exact ⟨hm, hlow⟩

/-- What a quotient is in steps of another exponent. -/
theorem eq_mul_of_quotient {e' : Int} (hb : 0 < b) (hvalue : (a : ℚ) / b * 2 ^ e' = w * 2 ^ e)
    (he : e = e' + k) : (a : ℚ) = w * ((b * 2 ^ k : Nat) : ℚ) := by
  have hb' : (b : ℚ) ≠ 0 := by exact_mod_cast Nat.ne_of_gt hb
  have hpos : (2 : ℚ) ^ e' ≠ 0 := zpow_ne_zero _ (by norm_num)
  rw [he, zpow_add₀ (by norm_num), zpow_natCast] at hvalue
  field_simp at hvalue
  push_cast
  linarith

/-- Below a power of two, so is the first bit of a quotient. -/
theorem div_lt_of_eq_mul {j : Nat} (hb : 0 < b) (ha : (a : ℚ) = w * ((b * 2 ^ k : Nat) : ℚ))
    (hhigh : w < 2 ^ j) : a / b < 2 ^ (j + k) := by
  have hpos : (0 : ℚ) < ((b * 2 ^ k : Nat) : ℚ) := by
    exact_mod_cast Nat.mul_pos hb (Nat.two_pow_pos k)
  have hlt := mul_lt_mul_of_pos_right hhigh hpos
  rw [← ha] at hlt
  have hnat : a < 2 ^ j * (b * 2 ^ k) := by exact_mod_cast hlt
  rwa [Nat.div_lt_iff_lt_mul hb, Nat.pow_add, Nat.mul_assoc, Nat.mul_comm (2 ^ k)]

theorem log2_lt_of_eq_mul {j : Nat} (hb : 0 < b) (ha : (a : ℚ) = w * ((b * 2 ^ k : Nat) : ℚ))
    (hj : 0 < j) (hhigh : w < 2 ^ j) : (a / b).log2 < j + k := by
  by_cases hzero : a / b = 0
  · rw [hzero, Nat.log2_zero]
    omega
  · exact (Nat.log2_lt hzero).mpr (div_lt_of_eq_mul hb ha hhigh)

/-- Between two powers of two, the first bit of a quotient is known. -/
theorem log2_of_eq_mul {j : Nat} (hb : 0 < b) (ha : (a : ℚ) = w * ((b * 2 ^ k : Nat) : ℚ))
    (hlow : 2 ^ j ≤ w) (hhigh : w < 2 ^ (j + 1)) : (a / b).log2 = j + k := by
  have hpos : (0 : ℚ) < ((b * 2 ^ k : Nat) : ℚ) := by
    exact_mod_cast Nat.mul_pos hb (Nat.two_pow_pos k)
  have hle := mul_le_mul_of_nonneg_right hlow hpos.le
  rw [← ha] at hle
  have hnat : 2 ^ j * (b * 2 ^ k) ≤ a := by exact_mod_cast hle
  have hdiv : 2 ^ (j + k) ≤ a / b := by
    rwa [Nat.le_div_iff_mul_le hb, Nat.pow_add, Nat.mul_assoc, Nat.mul_comm (2 ^ k)]
  have hne : a / b ≠ 0 := Nat.ne_of_gt (Nat.lt_of_lt_of_le (Nat.two_pow_pos _) hdiv)
  have hlt := div_lt_of_eq_mul hb ha hhigh
  rw [Nat.add_right_comm] at hlt
  exact (Nat.log2_eq_iff hne).mpr ⟨hdiv, hlt⟩

/-- **A quotient is rounded to the nearest double.** -/
theorem roundWithAccuracy_quotient {e' : Int} (hb : 0 < b) (h : Canonical m e)
    (hw : RoundsTo w m e) (hvalue : (a : ℚ) / b * 2 ^ e' = w * 2 ^ e) (he : e' ≤ e)
    (hcarry : w < 2 ^ 52 → e ≠ -1074 → e' < e) :
    roundWithAccuracy Format.binary64 s (a / b) e' (accuracyOfFraction (a % b) b) =
      .finite s m e h.pos := by
  have hleast := h.least
  by_cases hsmall : w < 2 ^ 52 ∧ e ≠ -1074
  · -- the first bit is one place lower, and rounding carries into it
    obtain ⟨hm, hlow⟩ := hw.tight h hsmall.1 hsmall.2
    have hlt := hcarry hsmall.1 hsmall.2
    obtain ⟨k, rfl⟩ : ∃ k : Nat, e = e' + k + 1 := ⟨(e - e' - 1).toNat, by omega⟩
    subst hm
    have ha : (a : ℚ) = 2 * w * ((b * 2 ^ k : Nat) : ℚ) := by
      rw [eq_mul_of_quotient hb hvalue (k := k + 1) (by push_cast; ring)]
      push_cast
      ring
    have hdouble : RoundsTo (2 * w) (2 ^ 53) (e' + k) := by
      refine ⟨?_, ?_, fun hodd => absurd hodd (by decide)⟩
      · rw [if_neg fun htight => absurd htight.1 (by decide)]
        push_cast
        linarith
      · push_cast
        linarith [hsmall.1]
    have hlog : (a / b).log2 = 52 + k :=
      log2_of_eq_mul hb ha (by linarith) (by rw [pow_succ]; linarith [hsmall.1])
    have hne := hsmall.2
    refine roundWithAccuracy_of_carry hb (by omega) ?_
      (nearest_of_roundsTo (Nat.mul_pos hb (Nat.two_pow_pos k)) hdouble ha)
    rw [hlog]
    omega
  · obtain ⟨k, rfl⟩ : ∃ k : Nat, e = e' + k := ⟨(e - e').toNat, by omega⟩
    have ha := eq_mul_of_quotient hb hvalue rfl
    refine roundWithAccuracy_of_nearest hb h ?_
      (nearest_of_roundsTo (Nat.mul_pos hb (Nat.two_pow_pos k)) hw ha)
    by_cases hfull : 2 ^ 52 ≤ w
    · rw [log2_of_eq_mul hb ha hfull (hw.lt h)]
      omega
    · -- the double is smaller than the least one with all its bits
      have he : e' + (k : Int) = -1074 := by
        by_contra hne
        exact hsmall ⟨not_le.mp hfull, hne⟩
      have hlog := log2_lt_of_eq_mul hb ha (by decide) (not_le.mp hfull)
      omega

/-! ## Division -/

/-- A quotient is at least the power of two that the positions of the first bits tell. -/
theorem zpow_le_quotient {m₁ m₂ : Nat} (h₁ : 0 < m₁) (h₂ : 0 < m₂) (e₁ e₂ : Int) :
    (2 : ℚ) ^ ((m₁.log2 : Int) + e₁ - (m₂.log2 + 1 + e₂)) ≤ m₁ * 2 ^ e₁ / (m₂ * 2 ^ e₂) := by
  have hlow : (2 : ℚ) ^ (m₁.log2 : Int) ≤ m₁ := by
    exact_mod_cast Nat.log2_self_le (Nat.ne_of_gt h₁)
  have hhigh : (m₂ : ℚ) ≤ 2 ^ ((m₂.log2 : Int) + 1) := by
    exact_mod_cast (Nat.lt_log2_self (n := m₂)).le
  have hpos : (0 : ℚ) < m₂ := by exact_mod_cast h₂
  rw [zpow_sub₀ (by norm_num), zpow_add₀ (by norm_num), zpow_add₀ (by norm_num) _ e₂]
  gcongr

/-- **The quotient of two doubles is rounded to the nearest double.** -/
theorem div_finite {m₁ m₂ : Nat} {e₁ e₂ : Int} {s₁ s₂ : Sign} (h₁ : 0 < m₁) (h₂ : 0 < m₂)
    (h : Canonical m e) (hw : RoundsTo w m e)
    (hvalue : (m₁ : ℚ) * 2 ^ e₁ / (m₂ * 2 ^ e₂) = w * 2 ^ e) :
    UnpackedFloat.div Format.binary64 (.finite s₁ m₁ e₁ h₁) (.finite s₂ m₂ e₂ h₂) =
      .finite (s₁ / s₂) m e h.pos := by
  have hleast := h.least
  have hbits := zpow_le_quotient h₁ h₂ e₁ e₂
  rw [hvalue] at hbits
  have hbound : ∀ j : Nat, w < 2 ^ j →
      (m₁.log2 : Int) + e₁ - (m₂.log2 + 1 + e₂) < j + e := by
    intro j hj
    have hpos : (0 : ℚ) < 2 ^ e := zpow_pos (by norm_num) e
    have hlt : w * 2 ^ e < 2 ^ ((j : Int) + e) := by
      rw [zpow_add₀ (by norm_num), zpow_natCast]
      exact mul_lt_mul_of_pos_right hj hpos
    exact (zpow_lt_zpow_iff_right₀ (by norm_num : (1 : ℚ) < 2)).mp (hbits.trans_lt hlt)
  have htarget : Format.binary64.targetExponent (totalExponent m₁ e₁ - totalExponent m₂ e₂) =
      max ((m₁.log2 : Int) + e₁ - (m₂.log2 + 1 + e₂) - 52) (-1074) := by
    show max ((m₁.log2 : Int) + 1 + e₁ - (m₂.log2 + 1 + e₂) - 53) (-1074) = _
    congr 1
    omega
  obtain ⟨t, ht⟩ : ∃ t, t = min (e₁ - e₂) (Format.binary64.targetExponent
      (totalExponent m₁ e₁ - totalExponent m₂ e₂)) := ⟨_, rfl⟩
  have hdiv : UnpackedFloat.div Format.binary64 (.finite s₁ m₁ e₁ h₁) (.finite s₂ m₂ e₂ h₂) =
      roundWithAccuracy Format.binary64 (s₁ / s₂) (m₁ <<< (e₁ - e₂ - t).toNat / m₂) t
        (accuracyOfFraction (m₁ <<< (e₁ - e₂ - t).toNat % m₂) m₂) := by
    rw [ht]
    rfl
  rw [htarget] at ht
  have hfull := hbound 53 (hw.lt h)
  rw [hdiv]
  refine roundWithAccuracy_quotient h₂ h hw ?_ (by omega) fun hsmall hne => ?_
  · obtain ⟨n, hn⟩ : ∃ n : Nat, e₁ = e₂ + t + n := ⟨(e₁ - e₂ - t).toNat, by omega⟩
    have hshift : (e₁ - e₂ - t).toNat = n := by omega
    rw [← hvalue, hshift, Nat.shiftLeft_eq, hn, zpow_add₀ (by norm_num), zpow_add₀ (by norm_num),
      zpow_natCast]
    have hpos : (2 : ℚ) ^ e₂ ≠ 0 := zpow_ne_zero _ (by norm_num)
    have hpos' : (m₂ : ℚ) ≠ 0 := by exact_mod_cast Nat.ne_of_gt h₂
    push_cast
    field_simp
  · have hless := hbound 52 hsmall
    omega

end DiceNotation.Double
