import DiceNotation.Proofs.Decimal.Bits
import Mathlib

/-!
# Reading decimals

A decimal with places behind its point is a natural number divided by a power of ten.  If both are
doubles, it is read by dividing these; otherwise the division is done on mantissas that may have any
number of bits.  Either way there is one rounding, and so the double that is read is the one to
which the decimal rounds.

* `isPowerOfTen_getElem`, `unpack_toFloat`: powers of ten and natural numbers that are doubles.
* `places_le`: how many places a decimal has that does not round to zero.
* `ofScientific_eq`.
-/

namespace DiceNotation.Double

open Float.Model Float.Model.UnpackedFloat

variable {m d k : Nat} {e : Int} {w : ℚ}

/-- A power of two with natural powers. -/
theorem two_zpow_mul (e : Int) : (2 : ℚ) ^ e * 2 ^ (-e).toNat = 2 ^ e.toNat := by
  rcases Int.le_total 0 e with he | he
  · obtain ⟨n, rfl⟩ := Int.eq_ofNat_of_zero_le he
    simp
  · obtain ⟨n, hn⟩ := Int.eq_ofNat_of_zero_le (Int.neg_nonneg.mpr he)
    obtain rfl : e = -(n : Int) := by omega
    simp

/-! ## Naturals and powers of ten that are doubles -/

/-- A positive double is the power of ten with the exponent. -/
def isPowerOfTen (k : Nat) : UnpackedFloat → Bool
  | .finite .positive m e _ => decide (m * 2 ^ e.toNat = 10 ^ k * 2 ^ (-e).toNat)
  | _ => false

theorem exists_of_isPowerOfTen {u : UnpackedFloat} (h : isPowerOfTen k u = true) :
    ∃ m e hm, u = .finite .positive m e hm ∧ (m : ℚ) * 2 ^ e = 10 ^ k := by
  unfold isPowerOfTen at h
  split at h
  · next m e hm =>
    refine ⟨m, e, hm, rfl, ?_⟩
    have hnat : m * 2 ^ e.toNat = 10 ^ k * 2 ^ (-e).toNat := of_decide_eq_true h
    have hq : (m : ℚ) * 2 ^ e.toNat = 10 ^ k * 2 ^ (-e).toNat := by exact_mod_cast hnat
    have hpos : (2 : ℚ) ^ (-e).toNat ≠ 0 := pow_ne_zero _ (by norm_num)
    rw [← two_zpow_mul e, ← mul_assoc] at hq
    exact mul_right_cancel₀ hpos hq
  · cases h

theorem isPowerOfTen_getElem : ∀ k : Fin 23,
    isPowerOfTen k (getElem Float.exactlyRepresentablePowersOfTen k.val (by
      simp [Float.exactlyRepresentablePowersOfTen])).toModel.unpack = true := by
  decide +kernel

/-- A natural number of at most 53 bits is a double. -/
theorem unpack_toFloat (hd : 0 < d) (hlt : d < 2 ^ 53) :
    ∃ m e, ∃ h : Canonical m e, d.toUInt64.toFloat.toModel.unpack = .finite .positive m e h.pos ∧
      e ≤ 0 ∧ (m : ℚ) * 2 ^ e = d := by
  have hne := Nat.ne_of_gt hd
  have hlog : d.log2 < 53 := (Nat.log2_lt hne).mpr hlt
  obtain ⟨n, hn⟩ : ∃ n, d.log2 + n = 52 := ⟨52 - d.log2, by omega⟩
  have hcanonical : Canonical (d * 2 ^ n) (-(n : Int)) := by
    refine ⟨Nat.mul_pos hd (Nat.two_pow_pos n), ?_, by omega, Or.inl ?_⟩
    · calc d * 2 ^ n < 2 ^ (d.log2 + 1) * 2 ^ n :=
            Nat.mul_lt_mul_of_pos_right Nat.lt_log2_self (Nat.two_pow_pos n)
        _ = 2 ^ 53 := by rw [← Nat.pow_add, show d.log2 + 1 + n = 53 by omega]
    · calc 2 ^ 52 = 2 ^ d.log2 * 2 ^ n := by rw [← Nat.pow_add, hn]
        _ ≤ d * 2 ^ n := Nat.mul_le_mul_right _ (Nat.log2_self_le hne)
  have htoNat : d.toUInt64.toNat = d := by
    show d % 2 ^ 64 = d
    omega
  have hround : UnpackedFloat.ofUInt64 Format.binary64 d.toUInt64 =
      .finite .positive (d * 2 ^ n) (-(n : Int)) hcanonical.pos := by
    have htarget : Format.binary64.targetExponent (totalExponent d 0) = -(n : Int) := by
      rw [targetExponent_eq]
      omega
    have hshift : (0 - -(n : Int)).toNat = n := by omega
    have hpositive : compare (d : Int) 0 = .gt := Int.compare_eq_gt.mpr (by omega)
    show UnpackedFloat.normalize Format.binary64 (d.toUInt64.toNat : Int) 0 .positive = _
    rw [htoNat]
    unfold UnpackedFloat.normalize
    rw [hpositive]
    obtain ⟨t, ht⟩ : ∃ t, t = Format.binary64.targetExponent (totalExponent d 0) := ⟨_, rfl⟩
    have hround : UnpackedFloat.round Format.binary64 .positive d 0 =
        roundWithAccuracy Format.binary64 .positive (d <<< (0 - t).toNat)
          (0 - ((0 - t).toNat : Int)) .exact := by
      rw [ht]
      rfl
    rw [htarget] at ht
    show UnpackedFloat.round Format.binary64 .positive d 0 = _
    rw [hround, ht, hshift, Nat.shiftLeft_eq, Int.zero_sub]
    exact roundWithAccuracy_canonical hcanonical
  refine ⟨d * 2 ^ n, -(n : Int), hcanonical, ?_, by omega, ?_⟩
  · show (Float.Model.pack (UnpackedFloat.ofUInt64 Format.binary64 d.toUInt64)).unpack = _
    rw [hround]
    exact unpack_pack hcanonical (by omega) .positive
  · push_cast
    rw [zpow_neg, zpow_natCast]
    field_simp

/-! ## Decimals -/

/-- A decimal that is rounded to a double is not too small to be looked at. -/
theorem places_le (h : Canonical m e) (hw : RoundsTo w m e)
    (hvalue : (d : ℚ) / 10 ^ k = w * 2 ^ e) : k ≤ d.log2 + 1076 := by
  have hm : (1 : ℚ) ≤ m := by exact_mod_cast h.pos
  have hhalf : (2 : ℚ) ^ (-1 : Int) ≤ w := by
    rw [zpow_neg_one]
    linarith [hw.sub_half_le]
  have hleast : (2 : ℚ) ^ (-1074 : Int) ≤ 2 ^ e := zpow_le_zpow_right₀ (by norm_num) h.least
  have hlow : (2 : ℚ) ^ (-1075 : Int) ≤ d / 10 ^ k := by
    rw [hvalue, show (-1075 : Int) = -1 + -1074 from rfl, zpow_add₀ (by norm_num)]
    exact mul_le_mul hhalf hleast (by positivity) (by linarith [hw.sub_half_le])
  have hpower : (2 : ℚ) ^ k ≤ 10 ^ k := pow_le_pow_left₀ (by norm_num) (by norm_num) k
  have hbits : (d : ℚ) < 2 ^ (d.log2 + 1) := by exact_mod_cast Nat.lt_log2_self
  have hlt : (2 : ℚ) ^ k < 2 ^ (d.log2 + 1 + 1075) := by
    rw [zpow_neg, le_div_iff₀ (by positivity), inv_mul_le_iff₀ (by positivity)] at hlow
    calc (2 : ℚ) ^ k ≤ 2 ^ (1075 : Int) * d := hpower.trans hlow
      _ < 2 ^ (1075 : Int) * 2 ^ (d.log2 + 1) := mul_lt_mul_of_pos_left hbits (by positivity)
      _ = 2 ^ (d.log2 + 1 + 1075) := by rw [pow_add _ (d.log2 + 1), mul_comm]; rfl
  have hexp := (pow_lt_pow_iff_right₀ (by norm_num : (1 : ℚ) < 2)).mp hlt
  omega

/-- **A decimal is read as the nearest double.** -/
theorem ofScientific_eq (hd : 0 < d) (hk : 0 < k) (h : Canonical m e)
    (hw : RoundsTo w m e) (hvalue : (d : ℚ) / 10 ^ k = w * 2 ^ e) :
    Float.ofScientific d true k =
      Float.ofModel (Float.Model.pack (.finite .positive m e h.pos)) := by
  have hdiv : ∀ {m₁ m₂ : Nat} {e₁ e₂ : Int} (h₁ : 0 < m₁) (h₂ : 0 < m₂),
      (m₁ : ℚ) * 2 ^ e₁ = d → (m₂ : ℚ) * 2 ^ e₂ = 10 ^ k →
        UnpackedFloat.div Format.binary64 (.finite .positive m₁ e₁ h₁)
          (.finite .positive m₂ e₂ h₂) = .finite .positive m e h.pos := by
    intro m₁ m₂ e₁ e₂ h₁ h₂ hd' hk'
    exact div_finite h₁ h₂ h hw (by rw [hd', hk', hvalue])
  unfold Float.ofScientific
  by_cases hfast : d < 2 ^ 53 ∧ k ≤ 22
  · -- both are doubles, and their quotient is rounded
    rw [dif_pos hfast]
    obtain ⟨m₁, e₁, h₁, hm₁, -, hd'⟩ := unpack_toFloat hd hfast.1
    obtain ⟨m₂, e₂, h₂, hm₂, hk'⟩ :=
      exists_of_isPowerOfTen (isPowerOfTen_getElem ⟨k, Nat.lt_succ_of_le hfast.2⟩)
    show Float.ofModel (Float.Model.pack (UnpackedFloat.div Format.binary64
      d.toUInt64.toFloat.toModel.unpack (getElem Float.exactlyRepresentablePowersOfTen k (by
        simp [Float.exactlyRepresentablePowersOfTen]; omega)).toModel.unpack)) = _
    rw [hm₁, hm₂, hdiv h₁.pos h₂ hd' hk']
  · rw [dif_neg hfast]
    have hplaces := places_le h hw hvalue
    have hnat : Int.negOfNat k = -(k : Int) := Int.negOfNat_eq
    show Float.ofModel (Float.Model.pack (UnpackedFloat.ofScientific Format.binary64 d
      (Int.negOfNat k))) = _
    rw [hnat]
    unfold UnpackedFloat.ofScientific
    have hten : (-(-(k : Int))).toNat = k := by omega
    have hsmall : ¬ -(k : Int) < -((2 ^ 11 : Int) + d.log2) := by omega
    have hlarge : ¬ -(k : Int) > 2 ^ 11 := by omega
    have hneg : ¬ 0 ≤ -(k : Int) := by omega
    rw [dif_neg (Nat.ne_of_gt hd), if_neg hlarge, if_neg hsmall, if_neg hneg]
    refine congrArg (fun u => Float.ofModel (Float.Model.pack u)) (hdiv _ _ ?_ ?_)
    · rw [zpow_zero, mul_one]
    · rw [hten, zpow_zero, mul_one]
      push_cast
      rfl

end DiceNotation.Double
