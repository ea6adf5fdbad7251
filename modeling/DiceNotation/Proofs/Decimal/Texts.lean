import DiceNotation.Number
import DiceNotation.Proofs.Decimal.Shortest
import DiceNotation.Proofs.Numerals
import Mathlib

/-!
# The texts of doubles

A finite double is written as digits without a point, which are those of a natural number, or as
digits on both sides of one.  In the second case the digits and their number behind the point say
which decimal the text is, and this is the shortest one: so the double that is read from the text is
the one that was written.

* `exists_renderNat_of_positional`, `exists_of_positional`: the two kinds of texts.
* `decimalValue_eq`: what is read from the second kind.
* `ofBits?_add`, `exists_ofBits?_eq`: a double and its opposite differ in their sign only.
* `floatText_decimalValue`: what is read is written as before, with and without a minus.
-/

namespace DiceNotation.Decimal

open Text

variable {d n : Nat} {p : Int} {b : Binary}

theorem ofDigitChars_zeros (n : Nat) (t : Text) :
    Nat.ofDigitChars 10 (List.replicate n '0' ++ t) 0 = Nat.ofDigitChars 10 t 0 := by
  induction n with
  | zero => rfl
  | succ n ih =>
    rw [List.replicate_succ, List.cons_append, Nat.ofDigitChars_cons]
    exact ih

/-- Without a point the text of a positive number is that of a natural one. -/
theorem exists_renderNat_of_positional (hd : 0 < d) (hp : 0 ≤ p) :
    ∃ m, 0 < m ∧ positional d p = Whole.renderNat m := by
  have hzeros : ∀ k : Nat, ∃ m, 0 < m ∧
      Nat.toDigits 10 d ++ List.replicate k '0' = Whole.renderNat m := by
    intro k
    induction k with
    | zero => exact ⟨d, hd, List.append_nil _⟩
    | succ k ih =>
      obtain ⟨m, hm, ht⟩ := ih
      refine ⟨10 * m + 0, by omega, ?_⟩
      unfold Whole.renderNat at ht ⊢
      rw [← Nat.toDigits_append_toDigits (by decide) hm (by decide), ← ht, Nat.toDigits_zero,
        List.append_assoc, List.replicate_succ']
  unfold positional
  rw [if_pos hp]
  exact hzeros p.toNat

/-- With places behind the point there are digits on both sides of it, and without the point they
are those of the number of places. -/
theorem exists_of_positional (hp : p < 0) :
    ∃ w f, positional d p = w ++ '.' :: f ∧ Numeral w ∧ Numeral f ∧ f.length = (-p).toNat ∧
      Nat.ofDigitChars 10 (w ++ f) 0 = d := by
  have hdigits : Numeral (Nat.toDigits 10 d) := numeral_renderNat d
  have hvalue : Nat.ofDigitChars 10 (Nat.toDigits 10 d) 0 = d := by simp
  have hplaces : 0 < (-p).toNat := by omega
  unfold positional
  dsimp only
  rw [if_neg (by omega)]
  by_cases hshort : (Nat.toDigits 10 d).length ≤ (-p).toNat
  · rw [if_pos hshort]
    refine ⟨['0'], List.replicate ((-p).toNat - (Nat.toDigits 10 d).length) '0' ++
      Nat.toDigits 10 d, rfl, ⟨List.cons_ne_nil _ _, by decide⟩, ⟨?_, ?_⟩, ?_, ?_⟩
    · exact List.append_ne_nil_of_right_ne_nil _ hdigits.ne_nil
    · intro c hc
      rcases List.mem_append.mp hc with hc | hc
      · obtain rfl := List.eq_of_mem_replicate hc
        decide
      · exact hdigits.isDigit c hc
    · rw [List.length_append, List.length_replicate]
      omega
    · exact (ofDigitChars_zeros (_ + 1) _).trans hvalue
  · rw [if_neg hshort]
    refine ⟨_, _, rfl, ⟨?_, fun c hc => hdigits.isDigit c (List.mem_of_mem_take hc)⟩,
      ⟨?_, fun c hc => hdigits.isDigit c (List.mem_of_mem_drop hc)⟩, ?_, ?_⟩
    · rw [← List.length_pos_iff, List.length_take]
      omega
    · rw [← List.length_pos_iff, List.length_drop]
      omega
    · rw [List.length_drop]
      omega
    · rw [List.take_append_drop, hvalue]

/-- The value of digits on both sides of a point. -/
theorem decimalValue_eq {w f : Text} (hw : Numeral w) :
    Expr.decimalValue (w ++ '.' :: f) =
      Float.ofScientific (Nat.ofDigitChars 10 (w ++ f) 0) true f.length := by
  have hpoint : ∀ c ∈ w, (c != '.') = true := by
    intro c hc
    exact hw.forall_mem (p := fun c => (c != '.') = true) (by decide) c hc
  unfold Expr.decimalValue
  rw [List.takeWhile_append_of_pos hpoint, List.dropWhile_append_of_pos hpoint,
    List.takeWhile_cons_of_neg (by decide), List.dropWhile_cons_of_neg (by decide), List.append_nil]
  rfl

/-- The sign of a double does not change its magnitude. -/
theorem ofBits?_add (n : Nat) : Binary.ofBits? (2 ^ 63 + n) = Binary.ofBits? n := by
  have hbiased : (2 ^ 63 + n) / Nat.pow 2 52 % Nat.pow 2 11 = n / Nat.pow 2 52 % Nat.pow 2 11 := by
    show (9223372036854775808 + n) / 4503599627370496 % 2048 = n / 4503599627370496 % 2048
    omega
  have hfraction : (2 ^ 63 + n) % Nat.pow 2 52 = n % Nat.pow 2 52 := by
    show (9223372036854775808 + n) % 4503599627370496 = n % 4503599627370496
    omega
  unfold Binary.ofBits?
  rw [hbiased, hfraction]

theorem exists_ofBits?_eq (x : Float) :
    ∃ n < 2 ^ 63, Binary.ofBits? n = Binary.ofBits? x.toBits.toNat := by
  have hlt : x.toBits.toNat < 2 ^ 64 := x.toBits.toNat_lt
  by_cases hpositive : x.toBits.toNat < 2 ^ 63
  · exact ⟨_, hpositive, rfl⟩
  · obtain ⟨n, hn⟩ := Nat.exists_eq_add_of_le (Nat.le_of_not_lt hpositive)
    exact ⟨n, by omega, by rw [hn, ofBits?_add]⟩

/-- The text of a finite double that is not zero. -/
theorem floatText_eq {x : Float} (hb : Binary.ofBits? x.toBits.toNat = some b)
    (hm : b.mantissa ≠ 0) :
    Number.floatText x = (if x.toBits.toNat < 2 ^ 63 then [] else ['-']) ++
      positional b.shortest.1 b.shortest.2 := by
  unfold Number.floatText
  dsimp only
  rw [hb]
  dsimp only
  rw [if_neg hm]
  rfl

/-- **A double is read back from its text**, if this has a point. -/
theorem floatText_decimalValue (hn : n < 2 ^ 63) (hb : Binary.ofBits? n = some b)
    (hm : b.mantissa ≠ 0) (hp : b.shortest.2 < 0) :
    ∃ w f, positional b.shortest.1 b.shortest.2 = w ++ '.' :: f ∧ Numeral w ∧ Numeral f ∧
      Number.floatText (Expr.decimalValue (w ++ '.' :: f)) = w ++ '.' :: f ∧
      Number.floatText (-Expr.decimalValue (w ++ '.' :: f)) = '-' :: (w ++ '.' :: f) := by
  obtain ⟨w, f, ht, hw, hf, hlength, hvalue⟩ := exists_of_positional (d := b.shortest.1) hp
  obtain ⟨hpositive, hnegative⟩ := Binary.ofScientific_shortest hn hb hm hp
  rw [← hvalue, ← hlength, ← decimalValue_eq hw] at hpositive hnegative
  refine ⟨w, f, ht, hw, hf, ?_, ?_⟩
  · rw [floatText_eq (by rw [hpositive, hb]) hm, hpositive, if_pos hn, List.nil_append, ht]
  · rw [floatText_eq (by rw [hnegative, ofBits?_add, hb]) hm, hnegative, if_neg (by omega), ht]
    rfl

end DiceNotation.Decimal
