import DiceNotation.Proofs.Decimal.Texts
import DiceNotation.Proofs.Runs.Operands
import Mathlib

/-!
# The values of runs

What a run is folded to is written in one of few ways: as digits, as a minus before them, as one of
these with a fraction, or as one of three words that are no numbers.  A single number with a
fraction that is the text of a double is folded to itself, because the double is read back from its
text.

* `NumberText`, `RunValue`: how numbers and values are written.
* `fold_single`, `fold_minus`: what single numbers are folded to.
* `numberText_of_fold`, `runValue_of_fold`: no value is written otherwise.
-/

namespace DiceNotation

open Text Decimal

namespace NumberRun

/-- What is written for doubles that are not finite. -/
def words : List Text := ["inf".toList, "-inf".toList, "NaN".toList]

theorem mem_words_iff {v : Text} :
    v ∈ words ↔ v = "inf".toList ∨ v = '-' :: "inf".toList ∨ v = "NaN".toList := by
  simp [words]

/-- A word has no digit at its start, and none behind its first character. -/
theorem notMem_words {v : Text} (hne : v ≠ []) (hv : ∀ c ∈ v.head?, isDecimalDigit c = true) :
    v ∉ words ∧ ∀ c, c :: v ∉ words := by
  obtain ⟨d, v, rfl⟩ := List.exists_cons_of_ne_nil hne
  have hd := hv d rfl
  have hall : ∀ w ∈ words, ∀ i < 2, ∀ c ∈ w[i]?, isDecimalDigit c = false := by decide
  refine ⟨fun hmem => ?_, fun c hmem => ?_⟩
  · cases hd.symm.trans (hall _ hmem 0 (by decide) d rfl)
  · cases hd.symm.trans (hall _ hmem 1 (by decide) d rfl)

/-- A number with a fraction that is written as its own value, with and without a minus. -/
structure Shortest (n : Text) : Prop where
  exists_numerals : ∃ w f, Numeral w ∧ Numeral f ∧ n = w ++ '.' :: f
  fold_eq : fold [n] = .ok n
  fold_minus_eq : fold [['-'], n] = .ok ('-' :: n)

/-- How numbers are written. -/
inductive NumberText : Text → Prop
  | natural (m : Nat) : NumberText (Whole.renderNat m)
  | negative {m : Nat} (hm : 0 < m) : NumberText ('-' :: Whole.renderNat m)
  | decimal {n : Text} (hn : Shortest n) : NumberText n
  | negativeDecimal {n : Text} (hn : Shortest n) : NumberText ('-' :: n)
  | word {v : Text} (hv : v ∈ words) : NumberText v

/-- How the value of a run is written: as a number is, or as the digits that it was. -/
inductive RunValue : Text → Prop
  | whole {w : Text} (hw : Numeral w) : RunValue w
  | negative {m : Nat} (hm : 0 < m) : RunValue ('-' :: Whole.renderNat m)
  | decimal {n : Text} (hn : Shortest n) : RunValue n
  | negativeDecimal {n : Text} (hn : Shortest n) : RunValue ('-' :: n)
  | word {v : Text} (hv : v ∈ words) : RunValue v

namespace Shortest

variable {n : Text}

theorem unsigned (h : Shortest n) : Unsigned n := by
  obtain ⟨w, f, hw, hf, rfl⟩ := h.exists_numerals
  exact .of_numerals hw hf

theorem point_mem (h : Shortest n) : '.' ∈ n := by
  obtain ⟨w, f, -, -, rfl⟩ := h.exists_numerals
  exact List.mem_append_right w List.mem_cons_self

theorem forall_mem (h : Shortest n) {p : Char → Prop} (hp : ∀ c ∈ "0123456789.".toList, p c) :
    ∀ c ∈ n, p c := by
  have hdigits : ∀ c ∈ "0123456789".toList, p c := by
    have hall : ∀ c ∈ "0123456789".toList, c ∈ "0123456789.".toList := by decide
    exact fun c hc => hp c (hall c hc)
  obtain ⟨w, f, hw, hf, rfl⟩ := h.exists_numerals
  intro c hc
  rcases List.mem_append.mp hc with hc | hc
  · exact hw.forall_mem hdigits c hc
  rcases List.mem_cons.mp hc with rfl | hc
  · exact hp '.' (by decide)
  · exact hf.forall_mem hdigits c hc

end Shortest

theorem NumberText.runValue {v : Text} (h : NumberText v) : RunValue v := by
  cases h with
  | natural m => exact .whole (numeral_renderNat m)
  | negative hm => exact .negative hm
  | decimal hn => exact .decimal hn
  | negativeDecimal hn => exact .negativeDecimal hn
  | word hv => exact .word hv

namespace RunValue

variable {v : Text}

/-- What holds of the characters that values are written with holds of those of a value. -/
theorem forall_mem (hv : RunValue v) {p : Char → Prop}
    (h : ∀ c ∈ "0123456789.-infNa".toList, p c) : ∀ c ∈ v, p c := by
  have hdigits : ∀ c ∈ "0123456789".toList, p c := by
    have hall : ∀ c ∈ "0123456789".toList, c ∈ "0123456789.-infNa".toList := by decide
    exact fun c hc => h c (hall c hc)
  have hdecimal : ∀ {n : Text}, Shortest n → ∀ c ∈ n, p c := by
    intro n hn
    have hall : ∀ c ∈ "0123456789.".toList, c ∈ "0123456789.-infNa".toList := by decide
    exact hn.forall_mem fun c hc => h c (hall c hc)
  intro c hc
  cases hv with
  | whole hw => exact hw.forall_mem hdigits c hc
  | @negative m _ =>
    rcases List.mem_cons.mp hc with rfl | hc
    · exact h '-' (by decide)
    · exact (numeral_renderNat m).forall_mem hdigits c hc
  | decimal hn => exact hdecimal hn c hc
  | negativeDecimal hn =>
    rcases List.mem_cons.mp hc with rfl | hc
    · exact h '-' (by decide)
    · exact hdecimal hn c hc
  | word hw =>
    have hall : ∀ w ∈ words, w ⊆ "0123456789.-infNa".toList := by decide
    exact h c (hall v hw hc)

theorem ne_nil (hv : RunValue v) : v ≠ [] := by
  cases hv with
  | whole hw => exact hw.ne_nil
  | negative _ => exact List.cons_ne_nil _ _
  | decimal hn => exact hn.unsigned.ne_nil
  | negativeDecimal _ => exact List.cons_ne_nil _ _
  | word hw =>
    have hall : ∀ w ∈ words, w ≠ [] := by decide
    exact hall v hw

theorem not_isBlank (hv : RunValue v) : ∀ c ∈ v, isBlank c = false := hv.forall_mem (by decide)

/-- A value is a word, or it is a number with a minus or without. -/
theorem mem_words_or_unsigned (hv : RunValue v) :
    v ∈ words ∨ Unsigned v ∨ ∃ n, v = '-' :: n ∧ Unsigned n := by
  cases hv with
  | whole hw => exact Or.inr (Or.inl (.of_numeral hw))
  | negative _ => exact Or.inr (Or.inr ⟨_, rfl, .of_numeral (numeral_renderNat _)⟩)
  | decimal hn => exact Or.inr (Or.inl hn.unsigned)
  | negativeDecimal hn => exact Or.inr (Or.inr ⟨_, rfl, hn.unsigned⟩)
  | word hw => exact Or.inl hw

/-- Only at the start of a value stands a character that does not glue. -/
theorem glues_of_mem_tail (hv : RunValue v) : ∀ c ∈ v.tail, glues c = true := by
  have hnumeral : ∀ {w : Text}, Numeral w → ∀ c ∈ w, glues c = true := fun hw =>
    hw.forall_mem (p := fun c => glues c = true) (by decide)
  have hdecimal : ∀ {n : Text}, Shortest n → ∀ c ∈ n, glues c = true := fun hn =>
    hn.forall_mem (p := fun c => glues c = true) (by decide)
  intro c hc
  cases hv with
  | whole hw => exact hnumeral hw c (List.mem_of_mem_tail hc)
  | negative _ => exact hnumeral (numeral_renderNat _) c hc
  | decimal hn => exact hdecimal hn c (List.mem_of_mem_tail hc)
  | negativeDecimal hn => exact hdecimal hn c hc
  | word hw =>
    have hall : ∀ w ∈ words, ∀ c ∈ w.tail, glues c = true := by decide
    exact hall v hw c hc

end RunValue

/-- What a single number is folded to that is not made of digits alone. -/
theorem fold_single {n t : Text} {v : Number} (hplain : n.all Char.isDigit = false)
    (h : evaluate Bindings.none n = .ok v) (ht : v.text = t) : fold [n] = .ok t := by
  have hexpression : expression false [n] = n := by
    rw [Strung.expression_cons (Or.inl rfl)]
    exact List.append_nil n
  unfold fold
  rw [show isPlainNumber [n] = false from hplain, if_neg Bool.false_ne_true, hexpression, h, ← ht]
  rfl

/-- What a number after a minus is folded to. -/
theorem fold_minus {n t : Text} {v : Number} (h : evaluate Bindings.none ('-' :: n) = .ok v)
    (ht : v.text = t) : fold [['-'], n] = .ok t := by
  have hexpression : expression false [['-'], n] = '-' :: n := by
    rw [Strung.expression_cons (Or.inl rfl)]
    show '-' :: expression false [n] = _
    rw [Strung.expression_cons (Or.inl rfl)]
    exact congrArg ('-' :: ·) (List.append_nil n)
  unfold fold
  rw [show isPlainNumber [['-'], n] = false from rfl, if_neg Bool.false_ne_true, hexpression, h,
    ← ht]
  rfl

/-- The text of a finite double that is not zero, with and without a minus. -/
theorem numberText_positional {n : Nat} {b : Binary} (hn : n < 2 ^ 63)
    (hb : Binary.ofBits? n = some b) (hm : b.mantissa ≠ 0) :
    NumberText (positional b.shortest.1 b.shortest.2) ∧
      NumberText ('-' :: positional b.shortest.1 b.shortest.2) := by
  by_cases hp : 0 ≤ b.shortest.2
  · have hpositive := Binary.pos_of_roundsTo hm (Binary.roundsTo_shortest hm)
    obtain ⟨m, hm, ht⟩ := exists_renderNat_of_positional hpositive hp
    rw [ht]
    exact ⟨.natural m, .negative hm⟩
  · obtain ⟨w, f, ht, hw, hf, hpositive, hnegative⟩ :=
      floatText_decimalValue hn hb hm (Int.not_le.mp hp)
    have hplain : (w ++ '.' :: f).all Char.isDigit = false := by
      rw [List.all_append, List.all_cons, show Char.isDigit '.' = false from rfl, Bool.false_and,
        Bool.and_false]
    have hshortest : Shortest (w ++ '.' :: f) :=
      ⟨⟨w, f, hw, hf, rfl⟩, fold_single hplain (evaluate_decimal hw hf) hpositive,
        fold_minus (evaluate_minus_decimal hw hf) hnegative⟩
    rw [ht]
    exact ⟨.decimal hshortest, .negativeDecimal hshortest⟩

/-- **The text of a double.** -/
theorem numberText_floatText (x : Float) : NumberText (Number.floatText x) := by
  obtain ⟨n, hn, hbits⟩ := exists_ofBits?_eq x
  unfold Number.floatText
  dsimp only
  cases hb : Binary.ofBits? x.toBits.toNat with
  | none =>
    dsimp only
    by_cases hinfinite : x.toBits.toNat % Nat.pow 2 52 = 0
    · rw [if_pos hinfinite]
      split
      · exact .word (by decide)
      · exact .word (by decide)
    · rw [if_neg hinfinite]
      exact .word (by decide)
  | some b =>
    dsimp only
    by_cases hm : b.mantissa = 0
    · rw [if_pos hm]
      exact .natural 0
    · rw [if_neg hm]
      obtain ⟨hpositive, hnegative⟩ := numberText_positional hn (hbits.trans hb) hm
      split
      · exact hpositive
      · exact hnegative

theorem numberText_render (n : Int) : NumberText (Whole.render n) := by
  cases n with
  | ofNat m => exact .natural m
  | negSucc m => exact .negative (Nat.succ_pos m)

/-- What a run is folded to that is not one number without a sign and a fraction. -/
theorem numberText_of_fold {v : Text} {tokens : List Text} (hplain : ¬ isPlainNumber tokens = true)
    (h : fold tokens = .ok v) : NumberText v := by
  unfold fold at h
  rw [if_neg hplain] at h
  obtain ⟨value, -, h⟩ := exists_of_bind_eq_ok h
  cases h
  cases value with
  | int n => exact numberText_render n
  | float x => exact numberText_floatText x

/-- **What a run is folded to** is the text of a value. -/
theorem runValue_of_fold {t rest v : Text} {tokens more : List Text}
    (hoperand : operand? t = some (tokens, rest)) (h : fold (tokens ++ more) = .ok v) :
    RunValue v := by
  by_cases hplain : isPlainNumber (tokens ++ more) = true
  · unfold fold at h
    rw [if_pos hplain] at h
    cases h
    unfold isPlainNumber at hplain
    split at hplain
    · next w heq =>
      have hne : w ≠ [] := by
        obtain ⟨n, hn, -, ⟨rfl, -⟩ | ⟨c, -, rfl, -⟩⟩ := operand?_eq_some_iff.mp hoperand
        · obtain rfl : n = w := List.head_eq_of_cons_eq heq
          exact hn.ne_nil
        · cases heq
      rw [heq, List.flatten_singleton]
      exact .whole ⟨hne, List.all_eq_true.mp hplain⟩
    · cases hplain
  · exact (numberText_of_fold hplain h).runValue

end NumberRun

end DiceNotation
