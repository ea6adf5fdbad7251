import DiceNotation.Proofs.Decimal.Reading
import Mathlib

/-!
# The shortest decimal reads back

The search for the shortest decimal ends with one that rounds to the double, because the double
itself lies on the finest grid that is tried.  The comparisons of the search are made between
natural numbers.  Divided by the common factor they say that the decimal lies where numbers round to
the double, and so reading gives the double again, with all its bits.

* `roundsTo_shortest`, `pos_of_roundsTo`: the search succeeds, and not with zero.
* `roundsTo_quotient`: what its comparisons say.
* `ofScientific_shortest`.
-/

namespace DiceNotation.Decimal.Binary

open DiceNotation.Double

variable {b : Binary} {d : Nat} {p : Int}

/-! ## There is a hit -/

theorem roundsTo_of_hit? (h : b.hit? p = some d) : b.roundsTo d p = true := by
  unfold hit? at h
  dsimp only at h
  split at h
  · next hbelow habove =>
    split at h
    · cases h
      exact hbelow
    · cases h
      exact habove
  · next hbelow _ =>
    cases h
    exact hbelow
  · next habove =>
    cases h
    exact habove
  · cases h

/-- The grids are tried one after the other until there is a hit. -/
theorem roundsTo_firstHit {steps j : Nat} (hj : j < steps) (h : (b.hit? (p - j)).isSome = true) :
    b.roundsTo (b.firstHit p steps).1 (b.firstHit p steps).2 = true := by
  induction steps generalizing p j with
  | zero => exact absurd hj (Nat.not_lt_zero j)
  | succ steps ih =>
    unfold firstHit
    cases hit : b.hit? p with
    | some d => exact roundsTo_of_hit? hit
    | none =>
      cases j with
      | zero =>
        rw [Int.natCast_zero, Int.sub_zero, hit] at h
        cases h
      | succ j =>
        refine ih (Nat.lt_of_succ_lt_succ hj) ?_
        rwa [show p - 1 - (j : Int) = p - ((j + 1 : Nat) : Int) by omega]

/-- A point of a grid that is the value rounds to it. -/
theorem roundsTo_of_eq (hm : b.mantissa ≠ 0)
    (h : d * b.gridScale p = 4 * b.mantissa * b.valueScale p) : b.roundsTo d p = true := by
  have hscale : 0 < b.valueScale p := by
    unfold valueScale
    exact Nat.mul_pos (Nat.pow_pos (by decide)) (Nat.pow_pos (by decide))
  have hlow : (4 * b.mantissa - if b.tight then 1 else 2) * b.valueScale p <
      4 * b.mantissa * b.valueScale p := by
    refine Nat.mul_lt_mul_of_pos_right ?_ hscale
    split
    · omega
    · omega
  have hhigh : 4 * b.mantissa * b.valueScale p < (4 * b.mantissa + 2) * b.valueScale p :=
    Nat.mul_lt_mul_of_pos_right (by omega) hscale
  unfold roundsTo
  dsimp only
  rw [h, decide_eq_true hlow, decide_eq_true hhigh, decide_eq_true hlow.le, decide_eq_true hhigh.le]
  split
  · rfl
  · rfl

/-- The value lies on the finest grid. -/
theorem exists_on_finest (b : Binary) : ∃ d, d * b.gridScale (min b.exponent 0) =
    4 * b.mantissa * b.valueScale (min b.exponent 0) := by
  unfold gridScale valueScale
  rcases Int.lt_or_le b.exponent 0 with hneg | hnonneg
  · obtain ⟨n, hn⟩ : ∃ n : Nat, b.exponent = -(n : Int) := ⟨(-b.exponent).toNat, by omega⟩
    refine ⟨b.mantissa * 5 ^ n, ?_⟩
    rw [hn, show min (-(n : Int)) 0 = -(n : Int) by omega,
      show (2 - -(n : Int)).toNat = n + 2 by omega, show (-(n : Int)).toNat = 0 by omega,
      show (-(n : Int) - 2).toNat = 0 by omega, show (- -(n : Int)).toNat = n by omega]
    show b.mantissa * 5 ^ n * (2 ^ (n + 2) * 1) = 4 * b.mantissa * (1 * (5 * 2) ^ n)
    rw [Nat.mul_pow]
    ring
  · refine ⟨b.mantissa * 2 ^ b.exponent.toNat, ?_⟩
    have hpower : 2 ^ b.exponent.toNat * 2 ^ (2 - b.exponent).toNat =
        4 * 2 ^ (b.exponent - 2).toNat := by
      rw [show 4 = 2 ^ 2 from rfl, ← Nat.pow_add, ← Nat.pow_add]
      congr 1
      omega
    rw [show min b.exponent 0 = 0 by omega]
    show b.mantissa * 2 ^ b.exponent.toNat * (2 ^ (2 - b.exponent).toNat * 1) =
      4 * b.mantissa * (2 ^ (b.exponent - 2).toNat * 1)
    rw [Nat.mul_one, Nat.mul_one, Nat.mul_assoc, hpower]
    ring

theorem isSome_hit?_finest (hm : b.mantissa ≠ 0) : (b.hit? (min b.exponent 0)).isSome = true := by
  obtain ⟨d, hd⟩ := b.exists_on_finest
  have hgrid : 0 < b.gridScale (min b.exponent 0) := by
    unfold gridScale
    exact Nat.mul_pos (Nat.pow_pos (by decide)) (Nat.pow_pos (by decide))
  have hbelow : 4 * b.mantissa * b.valueScale (min b.exponent 0) / b.gridScale (min b.exponent 0) =
      d := by
    rw [← hd]
    exact Nat.mul_div_cancel d hgrid
  unfold hit?
  dsimp only
  rw [hbelow, roundsTo_of_eq hm hd]
  split
  · rfl
  · rfl
  · rfl
  · next h _ => cases h

/-- **The shortest decimal rounds to the value.** -/
theorem roundsTo_shortest (hm : b.mantissa ≠ 0) :
    b.roundsTo b.shortest.1 b.shortest.2 = true := by
  have hstart : min b.exponent 0 ≤ b.startExponent := by
    unfold startExponent
    dsimp only
    split
    · omega
    · omega
  unfold shortest
  refine roundsTo_firstHit (j := (b.startExponent - min b.exponent 0).toNat) (by omega) ?_
  rw [show b.startExponent - ((b.startExponent - min b.exponent 0).toNat : Int) =
    min b.exponent 0 by omega]
  exact isSome_hit?_finest hm

theorem pos_of_roundsTo (hm : b.mantissa ≠ 0) (h : b.roundsTo d p = true) : 0 < d := by
  rw [Nat.pos_iff_ne_zero]
  rintro rfl
  have hlow : 0 < (4 * b.mantissa - if b.tight then 1 else 2) * b.valueScale p := by
    unfold valueScale
    refine Nat.mul_pos ?_ (Nat.mul_pos (Nat.pow_pos (by decide)) (Nat.pow_pos (by decide)))
    split
    · omega
    · omega
  unfold roundsTo at h
  dsimp only at h
  rw [Nat.zero_mul, decide_eq_false (Nat.not_le_of_lt hlow),
    decide_eq_false (Nat.not_lt_zero _)] at h
  split at h
  · cases h
  · cases h

/-- The bounds between which a decimal rounds to a value. -/
theorem bounds_of_roundsTo (h : b.roundsTo d p = true) :
    (4 * b.mantissa - if b.tight then 1 else 2) * b.valueScale p ≤ d * b.gridScale p ∧
      d * b.gridScale p ≤ (4 * b.mantissa + 2) * b.valueScale p ∧
      (b.mantissa % 2 = 1 →
        (4 * b.mantissa - if b.tight then 1 else 2) * b.valueScale p < d * b.gridScale p ∧
          d * b.gridScale p < (4 * b.mantissa + 2) * b.valueScale p) := by
  unfold roundsTo at h
  dsimp only at h
  split at h
  · next heven =>
    rw [Bool.and_eq_true, decide_eq_true_eq, decide_eq_true_eq] at h
    exact ⟨h.1, h.2, fun hodd => absurd (heven.symm.trans hodd) (by decide)⟩
  · rw [Bool.and_eq_true, decide_eq_true_eq, decide_eq_true_eq] at h
    exact ⟨h.1.le, h.2.le, fun _ => h⟩

/-- Grids and values are scaled alike. -/
theorem scales_eq (b : Binary) (d k : Nat) :
    (d : ℚ) * b.gridScale (-(k : Int)) =
      4 * (d / 10 ^ k / 2 ^ b.exponent) * b.valueScale (-(k : Int)) := by
  have hpower := two_zpow_mul (b.exponent - 2)
  rw [zpow_sub₀ (by norm_num), show -(b.exponent - 2) = 2 - b.exponent by omega] at hpower
  have hpos : (2 : ℚ) ^ b.exponent ≠ 0 := zpow_ne_zero _ (by norm_num)
  have hgrid : b.gridScale (-(k : Int)) = 2 ^ (2 - b.exponent).toNat := by
    unfold gridScale
    rw [show (-(k : Int)).toNat = 0 by omega]
    exact Nat.mul_one _
  have hvalue : b.valueScale (-(k : Int)) = 2 ^ (b.exponent - 2).toNat * 10 ^ k := by
    unfold valueScale
    rw [neg_neg, Int.toNat_natCast]
    rfl
  rw [hgrid, hvalue]
  push_cast
  rw [← hpower]
  field_simp
  norm_num

/-- **A decimal with places rounds to the value** also as a fraction. -/
theorem roundsTo_quotient {k : Nat} (hm : b.mantissa ≠ 0)
    (htight : b.tight = true ↔ Tight b.mantissa b.exponent) (h : b.roundsTo d (-(k : Int)) = true) :
    RoundsTo ((d : ℚ) / 10 ^ k / 2 ^ b.exponent) b.mantissa b.exponent := by
  obtain ⟨hlow, hhigh, hodd⟩ := bounds_of_roundsTo h
  have hpoint := b.scales_eq d k
  generalize (d : ℚ) / 10 ^ k / 2 ^ b.exponent = w at *
  have hscale : (0 : ℚ) < b.valueScale (-(k : Int)) := by
    have hnat : 0 < b.valueScale (-(k : Int)) :=
      Nat.mul_pos (Nat.pow_pos (by decide)) (Nat.pow_pos (by decide))
    exact_mod_cast hnat
  -- four times the step from the value down to the bound
  obtain ⟨c, hc⟩ : ∃ c, c = if b.tight then 1 else 2 := ⟨_, rfl⟩
  rw [← hc] at hlow hodd
  have hcle : c ≤ 4 * b.mantissa := by
    rw [hc]
    split
    · omega
    · omega
  have hmantissa : ((4 * b.mantissa - c : Nat) : ℚ) = 4 * b.mantissa - c := by
    rw [Nat.cast_sub hcle]
    push_cast
    rfl
  have hquarter : (if Tight b.mantissa b.exponent then 1 / 4 else 1 / 2 : ℚ) = c / 4 := by
    rw [hc]
    by_cases ht : b.tight = true
    · rw [if_pos (htight.mp ht), if_pos ht]
      norm_num
    · rw [if_neg fun h => ht (htight.mpr h), if_neg ht]
      norm_num
  refine ⟨?_, ?_, fun hm' => ⟨?_, ?_⟩⟩
  · have hq : ((4 * b.mantissa - c : Nat) : ℚ) * b.valueScale (-(k : Int)) ≤
        d * b.gridScale (-(k : Int)) := by exact_mod_cast hlow
    rw [hmantissa, hpoint] at hq
    rw [hquarter]
    linarith [le_of_mul_le_mul_right hq hscale]
  · have hq : (d : ℚ) * b.gridScale (-(k : Int)) ≤
        (4 * b.mantissa + 2) * b.valueScale (-(k : Int)) := by exact_mod_cast hhigh
    rw [hpoint] at hq
    linarith [le_of_mul_le_mul_right hq hscale]
  · have hnot : ¬ b.tight = true := by
      intro ht
      have heven := (htight.mp ht).1
      omega
    have hq : ((4 * b.mantissa - c : Nat) : ℚ) * b.valueScale (-(k : Int)) <
        d * b.gridScale (-(k : Int)) := by exact_mod_cast (hodd hm').1
    rw [hmantissa, hpoint, hc, if_neg hnot] at hq
    have hlt := lt_of_mul_lt_mul_right hq hscale.le
    push_cast at hlt
    linarith
  · have hq : (d : ℚ) * b.gridScale (-(k : Int)) <
        (4 * b.mantissa + 2) * b.valueScale (-(k : Int)) := by exact_mod_cast (hodd hm').2
    rw [hpoint] at hq
    linarith [lt_of_mul_lt_mul_right hq hscale.le]

/-- **The shortest decimal is read back**, if it has places behind the point. -/
theorem ofScientific_shortest {n : Nat} (hn : n < 2 ^ 63) (hb : ofBits? n = some b)
    (hm : b.mantissa ≠ 0) (hp : b.shortest.2 < 0) :
    (Float.ofScientific b.shortest.1 true (-b.shortest.2).toNat).toBits.toNat = n ∧
      (-Float.ofScientific b.shortest.1 true (-b.shortest.2).toNat).toBits.toNat = 2 ^ 63 + n := by
  obtain ⟨hcanonical, hexponent, hbits, htight⟩ := canonical_of_ofBits? hn hb hm
  have hround := roundsTo_shortest hm
  obtain ⟨k, hk⟩ : ∃ k : Nat, b.shortest.2 = -(k : Int) := ⟨(-b.shortest.2).toNat, by omega⟩
  rw [hk] at hround
  have hpos : (2 : ℚ) ^ b.exponent ≠ 0 := zpow_ne_zero _ (by norm_num)
  have hread : Float.ofScientific b.shortest.1 true (-b.shortest.2).toNat = Float.ofModel
      (Float.Model.pack (.finite .positive b.mantissa b.exponent hcanonical.pos)) := by
    rw [hk, neg_neg, Int.toNat_natCast]
    exact ofScientific_eq (pos_of_roundsTo hm hround) (by omega) hcanonical
      (roundsTo_quotient hm htight hround) (div_mul_cancel₀ _ hpos).symm
  rw [hread]
  refine ⟨?_, ?_⟩
  · refine (toBits_pack hcanonical hexponent .positive).trans ?_
    rw [hbits]
    exact Nat.zero_add n
  · rw [toBits_neg_pack hcanonical hexponent, hbits]

end DiceNotation.Decimal.Binary
