import DiceNotation.Decimal.Shortest
import DiceNotation.Proofs.Decimal.Rounding
import Mathlib

/-!
# The bits of a double

The 64 bits of a double are its sign, its exponent and all bits of its mantissa but the first,
which the exponent tells.  So they determine one another: what is packed is unpacked again, the bits
of the opposite differ in the sign, and the parts of a double that its text is made from are those
that it was packed from.

* `bitsOf`, `toBits_pack`, `toBits_neg_pack`: the bits as a number.
* `unpack_pack`.
* `canonical_of_ofBits?`.
-/

namespace DiceNotation.Double

open Float.Model Float.Model.UnpackedFloat

variable {m : Nat} {e : Int} {s : Sign}

/-- The bits of a sign, an exponent and a mantissa side by side. -/
theorem toNat_packComponents (s : Sign) (x : BitVec 11) (y : BitVec 52) :
    (packComponents Format.binary64 s x y).toNat =
      (s.toBitVec.toNat * 2 ^ 11 + x.toNat) * 2 ^ 52 + y.toNat := by
  show ((s.toBitVec ++ x) ++ y).toNat = _
  rw [BitVec.toNat_append, BitVec.toNat_append, ← Nat.shiftLeft_add_eq_or_of_lt y.isLt,
    ← Nat.shiftLeft_add_eq_or_of_lt x.isLt, Nat.shiftLeft_eq, Nat.shiftLeft_eq]

/-- The exponent as it is stored, which is zero if the first bit of the mantissa is. -/
def biased (m : Nat) (e : Int) : Nat := if m < 2 ^ 52 then 0 else (e + 1075).toNat

theorem pack_finite (h : Canonical m e) (he : e ≤ 971) :
    UnpackedFloat.pack Format.binary64 (.finite s m e h.pos) =
      packComponents Format.binary64 s (BitVec.ofNat 11 (biased m e)) (BitVec.ofNat 52 m) := by
  have hleast := h.least
  have hne := Nat.ne_of_gt h.pos
  have hsum : e + ((1023 : Nat) : Int) + ((52 : Nat) : Int) = e + 1075 := by omega
  have hpack : UnpackedFloat.pack Format.binary64 (.finite s m e h.pos) =
      if 2 ^ 11 ≤ (e + 1075).toNat + 1 then packedInfinity Format.binary64 s
      else if m.log2 + 1 = 53 then
        packComponents Format.binary64 s (BitVec.ofNat 11 (e + 1075).toNat) (BitVec.ofNat 52 m)
      else packComponents Format.binary64 s 0#11 (BitVec.ofNat 52 m) := by
    rw [← hsum]
    rfl
  rw [hpack, if_neg (by omega)]
  unfold biased
  by_cases hsmall : m < 2 ^ 52
  · have hlog : m.log2 < 52 := (Nat.log2_lt hne).mpr hsmall
    rw [if_neg (by omega), if_pos hsmall]
  · have hlog : m.log2 = 52 := (Nat.log2_eq_iff hne).mpr ⟨Nat.le_of_not_lt hsmall, h.lt⟩
    rw [if_pos (by omega), if_neg hsmall]

/-- The bits of a double as a number. -/
def bitsOf (m : Nat) (e : Int) : Nat := biased m e * 2 ^ 52 + m % 2 ^ 52

theorem biased_lt (m : Nat) (he : e ≤ 971) : biased m e < 2047 := by
  unfold biased
  split
  · decide
  · omega

/-- **The bits of a finite double.** -/
theorem toBits_pack (h : Canonical m e) (he : e ≤ 971) (s : Sign) :
    (Float.Model.pack (.finite s m e h.pos)).toBits.toNat =
      s.toBitVec.toNat * 2 ^ 63 + bitsOf m e := by
  have hbiased := biased_lt m he
  show (UnpackedFloat.pack Format.binary64 (.finite s m e h.pos)).toNat = _
  rw [pack_finite h he, toNat_packComponents, BitVec.toNat_ofNat, BitVec.toNat_ofNat,
    Nat.mod_eq_of_lt (by omega)]
  unfold bitsOf
  ring

theorem unpackSign_packComponents (s : Sign) (x : BitVec 11) (y : BitVec 52) :
    @unpackSign Format.binary64 (packComponents Format.binary64 s x y) = s.toBitVec := by
  ext i hi
  have hzero : i = 0 := by omega
  subst hzero
  have hbits : (packComponents Format.binary64 s x y).getLsbD 63 = s.toBitVec.getLsbD 0 := by
    show ((s.toBitVec ++ x) ++ y).getLsbD 63 = _
    rw [BitVec.getLsbD_append, BitVec.getLsbD_append]
    rfl
  simpa [unpackSign] using hbits

/-- **A finite double is unpacked to what was packed.** -/
theorem unpack_pack (h : Canonical m e) (he : e ≤ 971) (s : Sign) :
    (Float.Model.pack (.finite s m e h.pos)).unpack = .finite s m e h.pos := by
  have hleast := h.least
  have hlt := h.lt
  have hpos := h.pos
  have hbiased := biased_lt m he
  have hexponent : (BitVec.ofNat 11 (biased m e)).toNat = biased m e := by
    rw [BitVec.toNat_ofNat, Nat.mod_eq_of_lt (by omega)]
  have hfinite : BitVec.ofNat 11 (biased m e) ≠ -1#11 := by
    intro heq
    have htop := congrArg BitVec.toNat heq
    rw [hexponent] at htop
    exact Nat.ne_of_lt hbiased htop
  have hsign : Sign.ofBitVec s.toBitVec = s := by
    cases s with
    | negative => rfl
    | positive => rfl
  show UnpackedFloat.unpack Format.binary64
    (UnpackedFloat.pack Format.binary64 (.finite s m e h.pos)) = _
  rw [pack_finite h he]
  unfold UnpackedFloat.unpack
  simp only [unpackMantissa_packComponents, unpackExponent_packComponents,
    unpackSign_packComponents, hsign]
  rw [if_neg hfinite]
  by_cases hsmall : m < 2 ^ 52
  · have hzero : biased m e = 0 := if_pos hsmall
    have hmantissa : (BitVec.ofNat 52 m).toNat = m := by
      rw [BitVec.toNat_ofNat, Nat.mod_eq_of_lt hsmall]
    have hne : BitVec.ofNat 52 m ≠ 0#52 := by
      intro heq
      have hm := congrArg BitVec.toNat heq
      rw [hmantissa] at hm
      exact Nat.ne_of_gt hpos hm
    obtain rfl : e = -1074 := h.normal.resolve_left (Nat.not_le_of_lt hsmall)
    rw [if_pos (by rw [hzero]), dif_neg hne]
    simp only [hmantissa, hzero]
    rfl
  · have hvalue : biased m e = (e + 1075).toNat := if_neg hsmall
    have hne : BitVec.ofNat 11 (biased m e) ≠ 0#11 := by
      intro heq
      have hm := congrArg BitVec.toNat heq
      rw [hexponent] at hm
      have hm : biased m e = 0 := hm
      omega
    have hmantissa : (1#1 ++ BitVec.ofNat 52 m).toNat = m := by
      rw [BitVec.toNat_append, ← Nat.shiftLeft_add_eq_or_of_lt (BitVec.isLt _), BitVec.toNat_ofNat]
      show 1 <<< 52 + m % 2 ^ 52 = m
      omega
    rw [if_neg hne]
    simp only [hmantissa, hexponent]
    congr 1
    show (biased m e : Int) - (1023 + 52) = e
    omega

/-- The bits of the opposite of a double that is not zero. -/
theorem toBits_neg_pack (h : Canonical m e) (he : e ≤ 971) :
    (-Float.ofModel (Float.Model.pack (.finite .positive m e h.pos))).toBits.toNat =
      2 ^ 63 + bitsOf m e := by
  have hneg : -Float.ofModel (Float.Model.pack (.finite .positive m e h.pos)) =
      Float.ofModel (Float.Model.pack
        (Float.Model.pack (.finite .positive m e h.pos)).unpack.neg) := rfl
  rw [hneg, unpack_pack h he]
  refine (toBits_pack h he .negative).trans ?_
  rw [show Sign.negative.toBitVec.toNat = 1 from rfl, Nat.one_mul]

/-- **The parts of a double** are those that its bits were taken apart into. -/
theorem canonical_of_ofBits? {n : Nat} {b : Decimal.Binary} (hn : n < 2 ^ 63)
    (hb : Decimal.Binary.ofBits? n = some b) (hm : b.mantissa ≠ 0) :
    Canonical b.mantissa b.exponent ∧ b.exponent ≤ 971 ∧ bitsOf b.mantissa b.exponent = n ∧
      (b.tight = true ↔ Tight b.mantissa b.exponent) := by
  have hparts : n = n / 2 ^ 52 % 2 ^ 11 * 2 ^ 52 + n % 2 ^ 52 := by omega
  unfold Decimal.Binary.ofBits? at hb
  dsimp only at hb
  rw [show Nat.pow 2 52 = 2 ^ 52 from rfl, show Nat.pow 2 11 = 2 ^ 11 from rfl] at hb
  unfold bitsOf biased Tight
  generalize hx : n / 2 ^ 52 % 2 ^ 11 = x at *
  generalize hf : n % 2 ^ 52 = f at *
  have hflt : f < 2 ^ 52 := by omega
  have hxlt : x < 2 ^ 11 := by omega
  split at hb
  · cases hb
  split at hb
  · next hzero =>
    cases hb
    dsimp only at hm ⊢
    refine ⟨⟨by omega, by omega, by omega, Or.inr rfl⟩, by omega, ?_, ?_⟩
    · rw [if_pos hflt]
      omega
    · simp
  · next hinfinite hzero =>
    cases hb
    dsimp only at hm ⊢
    refine ⟨⟨by omega, by omega, by omega, Or.inl (by omega)⟩, by omega, ?_, ?_⟩
    · rw [if_neg (by omega)]
      omega
    · rw [Bool.and_eq_true, beq_iff_eq, bne_iff_ne]
      omega

end DiceNotation.Double
