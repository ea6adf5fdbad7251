import DiceNotation.Proofs.Decimal.Comparison
import DiceNotation.Proofs.Decimal.Reading
import Mathlib

/-!
# Whole numbers as doubles

A whole number of more than 53 bits is not a double in general.  It becomes the nearest one, and of
two the one with the even mantissa: all bits but the first 53 are rounded off.  Nothing is lost up
to `2^53`, and beyond that the order is kept, though different numbers may become the same.

Rounding is monotone for a fixed number of bits that are cut off, because there it is rounding to a
natural number; and where one more bit is cut off the power of two in between is a double.

* `nearestNat`, `Nearest.le_of_le`: rounding a quotient to a natural number.
* `nearestOfNat`, `nearest`: the nearest double, as a whole number.
* `nearest_of_natAbs_le`, `nearest_mono`.
* `represents_ofInt`.
-/

namespace DiceNotation.Double

open Float.Model Float.Model.UnpackedFloat

variable {a a' b m m' n n' : Nat} {e : Int} {s : Sign}

/-! ## Rounding to natural numbers -/

/-- The natural number nearest to a quotient, and the even one of two. -/
def nearestNat (a b : Nat) : Nat :=
  if 2 * (a % b) < b ∨ 2 * (a % b) = b ∧ a / b % 2 = 0 then a / b else a / b + 1

theorem nearest_nearestNat (a : Nat) (hb : 0 < b) : Nearest a b (nearestNat a b) := by
  have hr : a % b < b := Nat.mod_lt a hb
  have ha : b * (a / b) + a % b = a := Nat.div_add_mod a b
  unfold nearestNat
  generalize a / b = q at *
  generalize a % b = r at *
  have hq : 2 * q * b = 2 * (b * q) := by ring
  have hq' : 2 * (q + 1) * b = 2 * (b * q) + 2 * b := by ring
  split
  · refine ⟨?_, ?_, fun hodd => ?_⟩ <;> omega
  · refine ⟨?_, ?_, fun hodd => ?_⟩ <;> omega

/-- A natural number is rounded to itself. -/
theorem nearest_mul (m : Nat) (hb : 0 < b) : Nearest (m * b) b m := by
  have hproduct : 2 * m * b = 2 * (m * b) := by ring
  refine ⟨?_, ?_, fun _ => ?_⟩ <;> omega

/-- **Rounding keeps the order.** -/
theorem Nearest.le_of_le (hb : 0 < b) (hm : Nearest a b m) (hm' : Nearest a' b m') (h : a ≤ a') :
    m ≤ m' := by
  by_contra hlt
  have hlow := hm.low
  have hhigh := hm'.high
  rcases Nat.lt_or_eq_of_le (Nat.lt_of_not_le hlt) with hfar | hnext
  · have hstep : (m' + 2) * b ≤ m * b := Nat.mul_le_mul_right b hfar
    have hleft : 2 * m * b = 2 * (m * b) := by ring
    have hright : 2 * m' * b = 2 * (m' * b) := by ring
    have htwo : (m' + 2) * b = m' * b + 2 * b := by ring
    omega
  · -- the quotients are half-way between two neighbours, of which one is odd
    obtain rfl : m = m' + 1 := hnext.symm
    have hproduct : 2 * (m' + 1) * b = 2 * m' * b + 2 * b := by ring
    rcases Nat.mod_two_eq_zero_or_one m' with heven | hodd
    · have hstrict := hm.odd (by omega)
      omega
    · have hstrict := hm'.odd hodd
      omega

theorem Nearest.eq (hb : 0 < b) (hm : Nearest a b m) (hm' : Nearest a b m') : m = m' :=
  Nat.le_antisymm (hm.le_of_le hb hm' le_rfl) (hm'.le_of_le hb hm le_rfl)

/-- Rounding does not depend on how the quotient is written. -/
theorem Nearest.mul_right {c : Nat} (hc : 0 < c) (hm : Nearest a b m) :
    Nearest (a * c) (b * c) m := by
  have hlow := Nat.mul_le_mul_right c hm.low
  have hhigh := Nat.mul_le_mul_right c hm.high
  have hproduct : 2 * m * (b * c) = 2 * m * b * c := by ring
  have hdouble : 2 * a * c = 2 * (a * c) := by ring
  have hleft : (2 * a + b) * c = 2 * (a * c) + b * c := by ring
  have hright : (2 * m * b + b) * c = 2 * m * b * c + b * c := by ring
  refine ⟨by omega, by omega, fun hodd => ?_⟩
  have hstrict := Nat.mul_lt_mul_of_pos_right (hm.odd hodd).1 hc
  have hstrict' := Nat.mul_lt_mul_of_pos_right (hm.odd hodd).2 hc
  exact ⟨by omega, by omega⟩

/-! ## The nearest double -/

/-- How many bits of a natural number are rounded off. -/
def spare (n : Nat) : Nat := n.log2 - 52

/-- The double nearest to a natural number. -/
def nearestOfNat (n : Nat) : Nat := nearestNat n (2 ^ spare n) * 2 ^ spare n

/-- **The double nearest to a whole number.** -/
def nearest (x : Int) : Int := x.sign * nearestOfNat x.natAbs

theorem nearest_spare (n : Nat) : Nearest n (2 ^ spare n) (nearestNat n (2 ^ spare n)) :=
  nearest_nearestNat n (Nat.two_pow_pos _)

theorem lt_of_spare (n : Nat) : n < 2 ^ 53 * 2 ^ spare n := by
  rw [← Nat.pow_add]
  refine Nat.lt_of_lt_of_le Nat.lt_log2_self (Nat.pow_le_pow_right (by decide) ?_)
  unfold spare
  omega

theorem le_of_spare_pos (h : 0 < spare n) : 2 ^ 52 * 2 ^ spare n ≤ n := by
  have hlog : 52 + spare n = n.log2 := by
    unfold spare at *
    omega
  rw [← Nat.pow_add, hlog]
  refine Nat.log2_self_le ?_
  rintro rfl
  exact absurd h (by decide)

/-- What is left is a mantissa, or the next power of two. -/
theorem nearestNat_le (n : Nat) : nearestNat n (2 ^ spare n) ≤ 2 ^ 53 :=
  (nearest_spare n).le_of_le (Nat.two_pow_pos _) (nearest_mul _ (Nat.two_pow_pos _))
    (lt_of_spare n).le

theorem le_nearestNat (h : 0 < spare n) : 2 ^ 52 ≤ nearestNat n (2 ^ spare n) :=
  (nearest_mul _ (Nat.two_pow_pos _)).le_of_le (Nat.two_pow_pos _) (nearest_spare n)
    (le_of_spare_pos h)

/-- **Up to `2^53` nothing is rounded off.** -/
theorem nearestOfNat_of_le (h : n ≤ 2 ^ 53) : nearestOfNat n = n := by
  have hexact : ∀ m, n = m * 2 ^ spare n → nearestOfNat n = n := by
    intro m hm
    have hmul : Nearest n (2 ^ spare n) m := by
      have hm' := nearest_mul m (Nat.two_pow_pos (spare n))
      rwa [← hm] at hm'
    rw [nearestOfNat, (nearest_spare n).eq (Nat.two_pow_pos _) hmul, ← hm]
  rcases Nat.lt_or_eq_of_le h with hlt | rfl
  · have hlog : n.log2 < 53 := by
      by_cases hzero : n = 0
      · rw [hzero, Nat.log2_zero]
        decide
      · exact (Nat.log2_lt hzero).mpr hlt
    have hspare : spare n = 0 := by
      unfold spare
      omega
    exact hexact n (by rw [hspare, Nat.pow_zero, Nat.mul_one])
  · exact hexact (2 ^ 52) (by rw [spare, Nat.log2_two_pow]; rfl)

/-- **The order is kept.** -/
theorem nearestOfNat_mono (h : n ≤ n') : nearestOfNat n ≤ nearestOfNat n' := by
  have hspare : spare n ≤ spare n' := by
    have hlog : n.log2 ≤ n'.log2 := by
      by_cases hzero : n = 0
      · rw [hzero, Nat.log2_zero]
        exact Nat.zero_le _
      · exact (Nat.le_log2 (by omega)).mpr ((Nat.log2_self_le hzero).trans h)
    unfold spare
    omega
  unfold nearestOfNat
  rcases Nat.lt_or_eq_of_le hspare with hlt | heq
  · -- a power of two lies between the two numbers
    calc nearestNat n (2 ^ spare n) * 2 ^ spare n ≤ 2 ^ 53 * 2 ^ spare n :=
          Nat.mul_le_mul_right _ (nearestNat_le n)
      _ = 2 ^ 52 * 2 ^ (spare n + 1) := by rw [Nat.pow_succ]; ring
      _ ≤ 2 ^ 52 * 2 ^ spare n' := Nat.mul_le_mul_left _ (Nat.pow_le_pow_right (by decide) hlt)
      _ ≤ nearestNat n' (2 ^ spare n') * 2 ^ spare n' :=
          Nat.mul_le_mul_right _ (le_nearestNat (by omega))
  · rw [heq]
    have hn := nearest_spare n
    rw [heq] at hn
    exact Nat.mul_le_mul_right _ (hn.le_of_le (Nat.two_pow_pos _) (nearest_spare n') h)

theorem nearest_natCast (n : Nat) : nearest n = nearestOfNat n := by
  rcases Nat.eq_zero_or_pos n with rfl | hpos
  · decide
  · rw [nearest, Int.sign_eq_one_of_pos (Int.natCast_pos.mpr hpos), Int.one_mul, Int.natAbs_natCast]

theorem nearest_neg (x : Int) : nearest (-x) = -nearest x := by
  rw [nearest, nearest, Int.sign_neg, Int.natAbs_neg, Int.neg_mul]

theorem nearest_of_natAbs_le {x : Int} (h : x.natAbs ≤ 2 ^ 53) : nearest x = x := by
  rw [nearest, nearestOfNat_of_le h, Int.sign_mul_natAbs]

/-- **Whole numbers keep their order as doubles.** -/
theorem nearest_mono : Monotone nearest := by
  have hnat : ∀ n n' : Nat, n ≤ n' → nearest n ≤ nearest n' := by
    intro n n' h
    rw [nearest_natCast, nearest_natCast]
    exact Int.ofNat_le.mpr (nearestOfNat_mono h)
  have hnonneg : ∀ n : Nat, 0 ≤ nearest n := by
    intro n
    rw [nearest_natCast]
    exact Int.natCast_nonneg _
  intro x y h
  obtain ⟨n, rfl | rfl⟩ := x.eq_nat_or_neg
  · obtain ⟨n', rfl⟩ := Int.eq_ofNat_of_zero_le ((Int.natCast_nonneg n).trans h)
    exact hnat n n' (Int.ofNat_le.mp h)
  · obtain ⟨n', rfl | rfl⟩ := y.eq_nat_or_neg
    · rw [nearest_neg]
      exact (Int.neg_nonpos_of_nonneg (hnonneg n)).trans (hnonneg n')
    · rw [nearest_neg, nearest_neg]
      exact Int.neg_le_neg (hnat n' n (Int.ofNat_le.mp (Int.neg_le_neg_iff.mp h)))

/-! ## What whole numbers are converted to -/

/-- More zeros behind a mantissa do not change what it is rounded to. -/
theorem roundWithAccuracy_mul_two_pow (h : Canonical m e) (k : Nat) :
    roundWithAccuracy Format.binary64 s (m * 2 ^ k) (e - k) .exact = .finite s m e h.pos := by
  have hround : RoundsTo (m : ℚ) m e := by
    refine ⟨?_, by linarith, fun _ => ⟨by linarith, by linarith⟩⟩
    split <;> linarith
  have hvalue : ((m * 2 ^ k : Nat) : ℚ) / (1 : Nat) * 2 ^ (e - k) = m * 2 ^ e := by
    rw [zpow_sub₀ (by norm_num), zpow_natCast]
    push_cast
    field_simp
  have hnormal : (m : ℚ) < 2 ^ 52 → e ≠ -1074 → e - k < e := by
    intro hlt hne
    have hfull : (2 ^ 52 : ℚ) ≤ m := mod_cast h.normal.resolve_right hne
    exact absurd hlt (not_lt.mpr hfull)
  have hquotient :=
    roundWithAccuracy_quotient (s := s) Nat.one_pos h hround hvalue (by omega) hnormal
  rwa [Nat.div_one, Nat.mod_one] at hquotient

theorem unpack_one :
    (getElem Float.exactlyRepresentablePowersOfTen 0 (by decide)).toModel.unpack =
      .finite .positive (2 ^ 52) (-52) (by decide) := by
  rfl

/-- The double that a natural number becomes. -/
structure Becomes (n m : Nat) (e : Int) : Prop where
  canonical : Canonical m e
  le : e ≤ 971
  value : (m : ℚ) * 2 ^ e = nearestOfNat n
  unpack : (Float.ofNat n).toModel.unpack = .finite .positive m e canonical.pos

theorem mul_positive {m₁ m₂ : Nat} {e₁ e₂ : Int} (h₁ : 0 < m₁) (h₂ : 0 < m₂) :
    UnpackedFloat.mul Format.binary64 (.finite .positive m₁ e₁ h₁) (.finite .positive m₂ e₂ h₂) =
      roundWithAccuracy Format.binary64 .positive (m₁ * m₂) (e₁ + e₂) .exact := rfl

/-- A number of at most 53 bits is multiplied by the double one. -/
theorem exists_becomes_of_lt (hpos : 0 < n) (hn : n < 2 ^ 53) : ∃ m e, Becomes n m e := by
  obtain ⟨m, e, h, hunpack, he, hvalue⟩ := unpack_toFloat hpos hn
  refine ⟨m, e, h, by omega, by rw [hvalue, nearestOfNat_of_le hn.le], ?_⟩
  show (Float.ofScientific n false 0).toModel.unpack = _
  unfold Float.ofScientific
  rw [dif_pos ⟨hn, by decide⟩]
  show (Float.Model.pack (UnpackedFloat.mul Format.binary64 n.toUInt64.toFloat.toModel.unpack
    (getElem Float.exactlyRepresentablePowersOfTen 0 (by decide)).toModel.unpack)).unpack = _
  have hexponent : e + -52 = e - ((52 : Nat) : Int) := rfl
  rw [hunpack, unpack_one, mul_positive h.pos, hexponent, roundWithAccuracy_mul_two_pow h,
    unpack_pack h (by omega)]

theorem ofScientific_zero (hn : n ≠ 0) : UnpackedFloat.ofScientific Format.binary64 n 0 =
    roundWithAccuracy Format.binary64 .positive (n * 2 ^ 53) (-53) .exact := by
  have hlarge : ¬ (0 : Int) > 2 ^ 11 := by decide
  have hsmall : ¬ (0 : Int) < -((2 ^ 11 : Int) + n.log2) := by omega
  have hbits : Format.binary64.mantissaBits = 53 := rfl
  have hone : (10 : Nat) ^ (0 : Int).toNat = 1 := rfl
  unfold UnpackedFloat.ofScientific
  rw [dif_neg hn, if_neg hlarge, if_neg hsmall, if_pos (le_refl (0 : Int)), mul_positive, hbits,
    hone, Nat.shiftLeft_eq, Nat.mul_one, Int.add_zero]
  rfl

/-- A longer number is rounded. -/
theorem ofNat_eq_round (hn : 2 ^ 53 ≤ n) :
    (Float.ofNat n).toModel = Float.Model.pack (roundWithAccuracy Format.binary64 .positive
      (n * 2 ^ 53 / 1) (-53) (accuracyOfFraction (n * 2 ^ 53 % 1) 1)) := by
  have hne : n ≠ 0 := by omega
  have hlong : (Float.ofNat n).toModel =
      Float.Model.pack (UnpackedFloat.ofScientific Format.binary64 n 0) := by
    show (Float.ofScientific n false 0).toModel = _
    unfold Float.ofScientific
    rw [dif_neg fun h => absurd h.1 (Nat.not_lt.mpr hn)]
    rfl
  rw [hlong, ofScientific_zero hne, Nat.div_one, Nat.mod_one]
  rfl

theorem log2_mul_two_pow (hn : n ≠ 0) (k : Nat) : (n * 2 ^ k).log2 = n.log2 + k := by
  have hne : n * 2 ^ k ≠ 0 := Nat.mul_ne_zero hn (Nat.two_pow_pos k).ne'
  refine (Nat.log2_eq_iff hne).mpr ⟨?_, ?_⟩
  · rw [Nat.pow_add]
    exact Nat.mul_le_mul_right _ (Nat.log2_self_le hn)
  · rw [Nat.add_right_comm, Nat.pow_add]
    exact Nat.mul_lt_mul_of_pos_right Nat.lt_log2_self (Nat.two_pow_pos k)

theorem exists_becomes_of_le (hn : 2 ^ 53 ≤ n) (hbound : n ≤ 2 ^ 63) : ∃ m e, Becomes n m e := by
  have hne : n ≠ 0 := by omega
  have hlow : 53 ≤ n.log2 := (Nat.le_log2 hne).mpr hn
  have hhigh : n.log2 < 64 := (Nat.log2_lt hne).mpr (by omega)
  obtain ⟨k, hk⟩ : ∃ k, k = spare n := ⟨_, rfl⟩
  have hlog : n.log2 = 52 + k := by
    unfold spare at hk
    omega
  have hnear := (nearest_spare n).mul_right (Nat.two_pow_pos 53)
  have hfull := le_nearestNat (n := n) (by omega)
  have hle := nearestNat_le n
  have hvalue : nearestOfNat n = nearestNat n (2 ^ k) * 2 ^ k := by rw [nearestOfNat, hk]
  rw [← hk] at hnear hfull hle
  generalize nearestNat n (2 ^ k) = m at *
  rw [← Nat.pow_add, ← Nat.one_mul (2 ^ (k + 53))] at hnear
  have hexponent : (-53 : Int) + ((k + 53 : Nat) : Int) = k := by omega
  have htarget : max (((n * 2 ^ 53 / 1).log2 : Int) + -53 - 52) (-1074) =
      -53 + ((k + 53 : Nat) : Int) := by
    rw [Nat.div_one, log2_mul_two_pow hne, hlog]
    omega
  rcases Nat.lt_or_eq_of_le hle with hlt | rfl
  · have h : Canonical m (-53 + ((k + 53 : Nat) : Int)) := ⟨by omega, hlt, by omega, .inl hfull⟩
    refine ⟨m, -53 + ((k + 53 : Nat) : Int), h, by omega, ?_, ?_⟩
    · rw [hvalue, hexponent, zpow_natCast]
      push_cast
      rfl
    · rw [ofNat_eq_round hn, roundWithAccuracy_of_nearest Nat.one_pos h htarget hnear,
        unpack_pack h (by omega)]
  · -- rounding up gives the next power of two
    have h : Canonical (2 ^ 52) (-53 + ((k + 53 : Nat) : Int) + 1) :=
      ⟨by decide, by decide, by omega, .inl le_rfl⟩
    refine ⟨2 ^ 52, -53 + ((k + 53 : Nat) : Int) + 1, h, by omega, ?_, ?_⟩
    · rw [hvalue, hexponent, zpow_add_one₀ (by norm_num), zpow_natCast]
      push_cast
      ring
    · rw [ofNat_eq_round hn, roundWithAccuracy_of_carry Nat.one_pos (by omega) htarget hnear,
        unpack_pack h (by omega)]

theorem exists_becomes (hpos : 0 < n) (hbound : n ≤ 2 ^ 63) : ∃ m e, Becomes n m e := by
  rcases Nat.lt_or_ge n (2 ^ 53) with hlt | hge
  · exact exists_becomes_of_lt hpos hlt
  · exact exists_becomes_of_le hge hbound

/-- **A whole number becomes the nearest double.** -/
theorem represents_ofInt {x : Int} (hbound : x.natAbs ≤ 2 ^ 63) :
    Represents (Float.ofInt x).toModel.unpack (nearest x) := by
  cases x with
  | ofNat n =>
    rcases Nat.eq_zero_or_pos n with rfl | hpos
    · have hzero : (Float.ofInt (.ofNat 0)).toModel.unpack = .zero .positive := rfl
      rw [hzero]
      exact .zero .positive
    · obtain ⟨m, e, h⟩ := exists_becomes hpos hbound
      show Represents (Float.ofNat n).toModel.unpack (nearest (n : Int))
      rw [h.unpack, nearest_natCast, Int.cast_natCast, ← h.value]
      exact .positive h.canonical
  | negSucc n =>
    obtain ⟨m, e, h⟩ := exists_becomes n.succ_pos hbound
    have hneg : (Float.ofInt (.negSucc n)).toModel.unpack =
        (Float.Model.pack (Float.ofNat n.succ).toModel.unpack.neg).unpack := rfl
    have hopposite : UnpackedFloat.neg (.finite .positive m e h.canonical.pos) =
        .finite .negative m e h.canonical.pos := rfl
    rw [hneg, h.unpack, hopposite, unpack_pack h.canonical h.le, Int.negSucc_eq,
      ← Nat.cast_succ, nearest_neg, nearest_natCast, Int.cast_neg, Int.cast_natCast, ← h.value]
    exact .negative h.canonical

end DiceNotation.Double
