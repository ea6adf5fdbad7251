import DiceNotation.Proofs.Runs.Fixed
import DiceNotation.Proofs.Runs.Sites
import Mathlib

/-!
# Values that are left alone

A value `v` stands before a text `w` that begins with no digit, and there may be a sign before it
that was copied.  Whether all of this is left alone is a question of the value where it stands, and
of `w` apart from it.

A word is copied, and so it is left alone.  A number is a run of its own, so it has to end where the
value does, or behind the fraction that a whole value gets from `w`, and has to be folded to itself.
The values without a point and the texts of doubles are.  A text with another fraction is read as a
double and written as its shortest text, which is a different one, and so it is not.  A plus before
a number is dropped, and a minus is dropped before zero only.

* `shortest_iff`: the texts of doubles.
* `Alone`, `Unsigned.alone_minus_iff`: what it takes of a value and of what stands behind it.
* `RunValue.fixed_append_iff`: a value with no sign before it.
* `NumberText.fixed_minus_append_iff`, `RunValue.not_fixed_plus_append`,
  `RunValue.fixed_glued_append_iff`: a value behind a minus, behind a plus, and behind a sign that
  is glued to a word.
-/

namespace DiceNotation.NumberRun

open Text

/-! ## Fractions -/

theorem fraction_append (t : Text) : (fraction t).1 ++ (fraction t).2 = t := by
  fun_cases fraction t with
  | case1 t _ => rfl
  | case2 t _ => exact congrArg ('.' :: ·) (digits_append_afterDigits t)
  | case3 t _ => rfl

/-- A fraction is a point and digits. -/
theorem exists_of_fraction {t : Text} (h : (fraction t).1 ≠ []) :
    ∃ f, f ≠ [] ∧ (∀ c ∈ f, isDecimalDigit c = true) ∧ (fraction t).1 = '.' :: f := by
  revert h
  fun_cases fraction t with
  | case1 t _ => exact fun h => absurd rfl h
  | case2 t hempty =>
    intro _
    exact ⟨digits t, fun hnil => hempty (List.isEmpty_iff.mpr hnil),
      fun c hc => List.mem_takeWhile_imp hc, rfl⟩
  | case3 t _ => exact fun h => absurd rfl h

/-- Digits get the fraction that follows them. -/
theorem number?_append {w t : Text} (hne : w ≠ []) (hw : ∀ c ∈ w, isDecimalDigit c = true)
    (ht : ∀ c ∈ t.head?, isDecimalDigit c = false) :
    number? (w ++ t) = some (w ++ (fraction t).1, (fraction t).2) := by
  obtain ⟨hdigits, hafter⟩ := digits_append hw ht
  have hempty : ¬ w.isEmpty = true := fun h => hne (List.isEmpty_iff.mp h)
  unfold number?
  rw [hdigits, hafter, if_neg hempty]
  fun_cases fraction t with
  | case1 t hnil =>
    rw [List.append_nil]
    exact if_pos hnil
  | case2 t hnil => exact if_neg hnil
  | case3 t hpoint =>
    rw [List.append_nil]
    split
    · next t => exact absurd rfl (hpoint t)
    · rfl

/-- A text with a point is no plain number. -/
theorem all_isDigit_of_point {n : Text} (h : '.' ∈ n) : n.all Char.isDigit = false :=
  List.all_eq_false.mpr ⟨'.', h, by decide⟩

theorem readInt?_eq_none_of_point {v : Text} (h : '.' ∈ v) : Whole.readInt? v = none := by
  have hdigits : ∀ {t : Text}, '.' ∈ t → Whole.readDigits? t = none := by
    intro t ht
    rw [Whole.readDigits?, all_isDigit_of_point ht, Bool.not_false, Bool.or_true, if_pos rfl]
  unfold Whole.readInt?
  split
  · rw [hdigits ((List.mem_cons.mp h).resolve_left (by decide))]
    rfl
  · rw [hdigits ((List.mem_cons.mp h).resolve_left (by decide))]
    rfl
  · rw [hdigits h]
    rfl

/-! ## Numbers with a fraction -/

/-- A value with a point is the text of a double. -/
theorem RunValue.shortest_of_point {v : Text} (hv : RunValue v) (h : '.' ∈ v) :
    Shortest v ∨ ∃ n, v = '-' :: n ∧ Shortest n := by
  have hnumeral : ∀ {w : Text}, Numeral w → '.' ∉ w := fun hw => hw.not_mem (by decide)
  cases hv with
  | whole hw => exact absurd h (hnumeral hw)
  | negative _ =>
    exact absurd ((List.mem_cons.mp h).resolve_left (by decide)) (hnumeral (numeral_renderNat _))
  | decimal hn => exact Or.inl hn
  | negativeDecimal hn => exact Or.inr ⟨_, rfl, hn⟩
  | word hw =>
    have hall : ∀ w ∈ words, '.' ∉ w := by decide
    exact absurd h (hall v hw)

theorem RunValue.shortest_of_head {v : Text} (hv : RunValue v) (h : '.' ∈ v)
    (hhead : ∀ c ∈ v.head?, isDecimalDigit c = true) : Shortest v := by
  rcases hv.shortest_of_point h with hn | ⟨n, rfl, -⟩
  · exact hn
  · exact absurd (hhead '-' rfl) (by decide)

/-- **The text of a double** is read back. -/
theorem shortest_iff {n : Text} (h : '.' ∈ n) (hhead : ∀ c ∈ n.head?, isDecimalDigit c = true) :
    Shortest n ↔ Number.floatText (Expr.decimalValue n) = n := by
  constructor
  · intro hn
    obtain ⟨w, f, hw, hf, rfl⟩ := hn.exists_numerals
    have hfold := fold_single (all_isDigit_of_point h) (evaluate_decimal hw hf) rfl
    exact Except.ok.inj (hfold.symm.trans hn.fold_eq)
  · intro hn
    have hvalue := (numberText_floatText (Expr.decimalValue n)).runValue
    rw [hn] at hvalue
    exact hvalue.shortest_of_head h hhead

theorem fold_eq_iff_shortest {n : Text} (h : '.' ∈ n)
    (hhead : ∀ c ∈ n.head?, isDecimalDigit c = true) : fold [n] = .ok n ↔ Shortest n := by
  refine ⟨fun hfold => ?_, Shortest.fold_eq⟩
  have hplain : ¬ isPlainNumber [n] = true := Bool.eq_false_iff.mp (all_isDigit_of_point h)
  exact (numberText_of_fold hplain hfold).runValue.shortest_of_head h hhead

theorem fold_minus_eq_iff_shortest {n : Text} (h : '.' ∈ n) :
    fold [['-'], n] = .ok ('-' :: n) ↔ Shortest n := by
  refine ⟨fun hfold => ?_, Shortest.fold_minus_eq⟩
  have hplain : ¬ isPlainNumber [['-'], n] = true := Bool.false_ne_true
  have hvalue := (numberText_of_fold hplain hfold).runValue
  rcases hvalue.shortest_of_point (List.mem_cons_of_mem _ h) with hn | ⟨m, heq, hm⟩
  · exact absurd (hn.unsigned.head '-' rfl) (by decide)
  · obtain ⟨-, rfl⟩ := List.cons.inj heq
    exact hm

/-! ## Values that are left alone -/

/-- What it takes for the value `v` to be left alone before `w`. -/
structure Alone (v w : Text) : Prop where
  fraction : TakesFraction v w →
    Number.floatText (Expr.decimalValue (magnitude v ++ (fraction w).1)) =
        magnitude v ++ (fraction w).1 ∧
      next? (NumberRun.fraction w).2 = none
  next : ¬ TakesFraction v w → v ∉ words → next? w = none

section Values

variable {n v w t rest : Text}

/-- A number at the start of a text, with a minus before it or without. -/
theorem fixed_number_iff (h : number? t = some (n, rest)) :
    (Fixed false t ↔ next? rest = none ∧ fold [n] = .ok n ∧ Fixed true rest) ∧
      (Fixed false ('-' :: t) ↔
        next? rest = none ∧ fold [['-'], n] = .ok ('-' :: n) ∧ Fixed true rest) := by
  obtain ⟨hn, hstops, rfl⟩ := number?_eq_some_iff.mp h
  have hplain : operand? (n ++ rest) = some ([n], rest) :=
    operand?_eq_some_iff.mpr ⟨n, hn, hstops, Or.inl ⟨rfl, rfl⟩⟩
  have hminus : operand? ('-' :: (n ++ rest)) = some ([['-'], n], rest) :=
    operand?_eq_some_iff.mpr ⟨n, hn, hstops, Or.inr ⟨'-', rfl, rfl, rfl⟩⟩
  rw [fixed_operand?_iff hplain, fixed_operand?_iff hminus]
  simp

/-- Digits that get a fraction, with a minus before them or without. -/
theorem fixed_fraction_iff (hv : Numeral v) (hw : ∀ c ∈ w.head?, isDecimalDigit c = false)
    (hf : (fraction w).1 ≠ []) :
    (Fixed false (v ++ w) ↔
      (Number.floatText (Expr.decimalValue (v ++ (fraction w).1)) = v ++ (fraction w).1 ∧
        next? (fraction w).2 = none) ∧ Fixed true w) ∧
      (Fixed false ('-' :: (v ++ w)) ↔
        (Number.floatText (Expr.decimalValue (v ++ (fraction w).1)) = v ++ (fraction w).1 ∧
          next? (fraction w).2 = none) ∧ Fixed true w) := by
  obtain ⟨f, hne, hdigits, hpoint⟩ := exists_of_fraction hf
  have hmem : '.' ∈ v ++ (fraction w).1 := by
    rw [hpoint]
    exact List.mem_append_right v List.mem_cons_self
  have hhead : ∀ c ∈ (v ++ (fraction w).1).head?, isDecimalDigit c = true := by
    rw [List.head?_append_of_ne_nil _ hv.ne_nil]
    exact fun c hc => hv.isDecimalDigit c (List.mem_of_head? hc)
  have hcopied : Fixed true (fraction w).2 ↔ Fixed true w := by
    conv_rhs => rw [← fraction_append w]
    refine (fixed_true_append_iff fun c hc => ?_).symm
    rw [hpoint] at hc
    rcases List.mem_cons.mp hc with rfl | hc
    · exact Or.inl (by decide)
    · exact Or.inr (hdigits c hc)
  obtain ⟨hplain, hminus⟩ := fixed_number_iff (number?_append hv.ne_nil hv.isDecimalDigit hw)
  rw [hplain, hminus, fold_eq_iff_shortest hmem hhead, fold_minus_eq_iff_shortest hmem,
    shortest_iff hmem hhead, hcopied]
  tauto

/-- Digits without a fraction, and what they stand before. -/
theorem number?_numeral_append (hv : Numeral v) (hw : ∀ c ∈ w.head?, isDecimalDigit c = false)
    (hf : (fraction w).1 = []) : number? (v ++ w) = some (v, w) := by
  have happend := fraction_append w
  rw [hf, List.nil_append] at happend
  rw [number?_append hv.ne_nil hv.isDecimalDigit hw, hf, happend, List.append_nil]

/-- A minus before digits stays, unless they are those of zero. -/
theorem fold_minus_renderNat {m : Nat} (h : Whole.lowest < -(m : Int)) :
    fold [['-'], Whole.renderNat m] = .ok ('-' :: Whole.renderNat m) ↔ m ≠ 0 := by
  rw [fold_minus (evaluate_minus_renderNat h) rfl]
  cases m with
  | zero => exact iff_of_false (by decide) (by decide)
  | succ m => exact iff_of_true rfl (Nat.succ_ne_zero m)

theorem alone_iff_of_takesFraction (h : TakesFraction v w) :
    Alone v w ↔ Number.floatText (Expr.decimalValue (magnitude v ++ (fraction w).1)) =
        magnitude v ++ (fraction w).1 ∧ next? (fraction w).2 = none :=
  ⟨fun halone => halone.fraction h, fun hf => ⟨fun _ => hf, fun hno => absurd h hno⟩⟩

theorem alone_iff_next? (h : ¬ TakesFraction v w) (hv : v ∉ words) : Alone v w ↔ next? w = none :=
  ⟨fun halone => halone.next h hv, fun hnext => ⟨fun hf => absurd hf h, fun _ _ => hnext⟩⟩

/-- A word is copied. -/
theorem fixed_word_append_iff (hv : v ∈ words) : Fixed false (v ++ w) ↔ Fixed true w := by
  have hletters : ∀ {t : Text}, t ⊆ "infNa".toList → ∀ c ∈ "infNa".toList,
      (Fixed false (c :: (t ++ w)) ↔ Fixed true w) := by
    intro t ht c hc
    have hall : ∀ c ∈ "infNa".toList,
        isSign c = false ∧ isDecimalDigit c = false ∧ glues c = true := by decide
    obtain ⟨hsign, hdigit, hglues⟩ := hall c hc
    have hnone := operand?_eq_none hsign hdigit (t ++ w)
    rw [fixed_cons_iff (Or.inr hnone), follows_of_operand?_eq_none hnone, hglues]
    exact fixed_true_append_iff fun d hd => Or.inl (hall d (ht hd)).2.2
  have hinf : Fixed false ("inf".toList ++ w) ↔ Fixed true w :=
    hletters (t := "nf".toList) (by decide) 'i' (by decide)
  rcases mem_words_iff.mp hv with rfl | rfl | rfl
  · exact hinf
  · rw [List.cons_append, fixed_sign_iff rfl (number?_eq_none (by rintro c ⟨⟩; decide))]
    exact hinf
  · exact hletters (t := "aN".toList) (by decide) 'N' (by decide)

/-- A value with digits at its start has no sign. -/
theorem Unsigned.readInt?_eq (hv : Unsigned v) :
    Whole.readInt? v = (Whole.readDigits? v).map Int.ofNat := by
  unfold Whole.readInt?
  split
  · exact absurd (hv.head '-' rfl) (by decide)
  · exact absurd (hv.head '+' rfl) (by decide)
  · rfl

theorem Unsigned.magnitude_eq (hv : Unsigned v) : magnitude v = v := by
  unfold magnitude
  split
  · exact absurd (hv.head '-' rfl) (by decide)
  · rfl

theorem Unsigned.takesFraction_minus_iff (hv : Unsigned v) :
    TakesFraction ('-' :: v) w ↔ TakesFraction v w := by
  unfold TakesFraction
  rw [hv.readInt?_eq, Whole.readInt?]
  cases Whole.readDigits? v with | _ => rfl

/-- A value without a minus is left alone where it is with one. -/
theorem Unsigned.alone_minus_iff (hv : Unsigned v) : Alone ('-' :: v) w ↔ Alone v w := by
  obtain ⟨hplain, hminus⟩ := notMem_words hv.ne_nil hv.head
  have htakes := hv.takesFraction_minus_iff (w := w)
  constructor
  · intro h
    refine ⟨fun hf => ?_, fun hno _ => h.next (mt htakes.mp hno) (hminus '-')⟩
    rw [hv.magnitude_eq]
    exact h.fraction (htakes.mpr hf)
  · intro h
    refine ⟨fun hf => ?_, fun hno _ => h.next (mt htakes.mpr hno) hplain⟩
    have hshortest := h.fraction (htakes.mp hf)
    rwa [hv.magnitude_eq] at hshortest

/-! ### The kinds of values -/

/-- The text of a double is a run of its own, with a minus before it or without. -/
theorem Shortest.fixed_append_iff (hv : Shortest v) (hw : ∀ c ∈ w.head?, isDecimalDigit c = false) :
    (Fixed false (v ++ w) ↔ Alone v w ∧ Fixed true w) ∧
      (Fixed false ('-' :: (v ++ w)) ↔ Alone v w ∧ Fixed true w) := by
  have hnumber : number? (v ++ w) = some (v, w) :=
    number?_eq_some_iff.mpr ⟨hv.unsigned, ⟨hw, fun h => absurd hv.point_mem h⟩, rfl⟩
  have hno : ¬ TakesFraction v w := by
    rintro ⟨hread, -⟩
    rw [readInt?_eq_none_of_point hv.point_mem] at hread
    cases hread
  have hwords := (notMem_words hv.unsigned.ne_nil hv.unsigned.head).1
  obtain ⟨hplain, hminus⟩ := fixed_number_iff hnumber
  rw [hplain, hminus, alone_iff_next? hno hwords]
  simp [hv.fold_eq, hv.fold_minus_eq]

/-- Digits are a run of their own, alone or with the fraction that follows them. -/
theorem fixed_numeral_append_iff (hv : Numeral v) (hw : ∀ c ∈ w.head?, isDecimalDigit c = false) :
    Fixed false (v ++ w) ↔ Alone v w ∧ Fixed true w := by
  have hunsigned := Unsigned.of_numeral hv
  by_cases hf : (fraction w).1 = []
  · have hno : ¬ TakesFraction v w := fun h => h.2 hf
    have hwords := (notMem_words hunsigned.ne_nil hunsigned.head).1
    rw [alone_iff_next? hno hwords, (fixed_number_iff (number?_numeral_append hv hw hf)).1, hv.fold]
    simp
  · have htakes : TakesFraction v w := ⟨by rw [hv.readInt?_eq]; rfl, hf⟩
    rw [alone_iff_of_takesFraction htakes, hunsigned.magnitude_eq]
    exact (fixed_fraction_iff hv hw hf).1

/-- With a minus before them they are, unless they are those of zero and are not followed by a
fraction. -/
theorem fixed_minus_renderNat_append_iff {m : Nat} (hw : ∀ c ∈ w.head?, isDecimalDigit c = false)
    (hrange : ¬ TakesFraction (Whole.renderNat m) w → Whole.lowest < -(m : Int)) :
    Fixed false ('-' :: (Whole.renderNat m ++ w)) ↔
      (m = 0 → TakesFraction (Whole.renderNat m) w) ∧ Alone (Whole.renderNat m) w ∧
        Fixed true w := by
  have hv := numeral_renderNat m
  have hunsigned := Unsigned.of_numeral hv
  by_cases hf : (fraction w).1 = []
  · have hno : ¬ TakesFraction (Whole.renderNat m) w := fun h => h.2 hf
    have hwords := (notMem_words hunsigned.ne_nil hunsigned.head).1
    rw [alone_iff_next? hno hwords, (fixed_number_iff (number?_numeral_append hv hw hf)).2,
      fold_minus_renderNat (hrange hno)]
    tauto
  · have htakes : TakesFraction (Whole.renderNat m) w := ⟨by rw [hv.readInt?_eq]; rfl, hf⟩
    rw [alone_iff_of_takesFraction htakes, hunsigned.magnitude_eq, (fixed_fraction_iff hv hw hf).2]
    exact (and_iff_right fun _ => htakes).symm

/-! ### Values and signs -/

/-- **A value is left alone** if it is a run by itself, and what stands behind it is left alone. -/
theorem RunValue.fixed_append_iff (hv : RunValue v) (hw : ∀ c ∈ w.head?, isDecimalDigit c = false)
    (hrange : ¬ TakesFraction v w → ∀ n ∈ Whole.readInt? v, n < 0 → Whole.lowest < n) :
    Fixed false (v ++ w) ↔ Alone v w ∧ Fixed true w := by
  cases hv with
  | whole hv => exact fixed_numeral_append_iff hv hw
  | @negative m hm =>
    have hunsigned := Unsigned.of_numeral (numeral_renderNat m)
    have hread : Whole.readInt? ('-' :: Whole.renderNat m) = some (-(m : Int)) := by
      rw [Whole.readInt?, Whole.readDigits?_renderNat]
      rfl
    have hlowest : ¬ TakesFraction (Whole.renderNat m) w → Whole.lowest < -(m : Int) := fun hno =>
      hrange (mt hunsigned.takesFraction_minus_iff.mp hno) _ hread (by omega)
    rw [hunsigned.alone_minus_iff, List.cons_append, fixed_minus_renderNat_append_iff hw hlowest]
    exact and_iff_right fun hzero => absurd hzero (Nat.ne_of_gt hm)
  | decimal hn => exact (hn.fixed_append_iff hw).1
  | negativeDecimal hn =>
    rw [hn.unsigned.alone_minus_iff]
    exact (hn.fixed_append_iff hw).2
  | word hv =>
    have hread : ∀ v ∈ words, Whole.readInt? v = none := by decide
    have hno : ¬ TakesFraction v w := by
      rintro ⟨hsome, -⟩
      rw [hread v hv] at hsome
      cases hsome
    rw [fixed_word_append_iff hv]
    exact (and_iff_right ⟨fun h => absurd h hno, fun _ h => absurd hv h⟩).symm

/-- A value comes to stand behind a minus that was copied. -/
theorem NumberText.fixed_minus_append_iff (hv : NumberText v) (hd : number? v ≠ none)
    (hw : ∀ c ∈ w.head?, isDecimalDigit c = false)
    (hrange : ¬ TakesFraction v w → ∀ n ∈ Whole.readInt? v, n ≤ Whole.highest) :
    Fixed false ('-' :: (v ++ w)) ↔ (v = ['0'] → TakesFraction v w) ∧ Alone v w ∧ Fixed true w := by
  have hminus : ∀ n : Text, number? ('-' :: n) = none := fun n =>
    number?_eq_none (by rintro c ⟨⟩; decide)
  cases hv with
  | natural m =>
    have hlowest : ¬ TakesFraction (Whole.renderNat m) w → Whole.lowest < -(m : Int) := by
      intro hno
      have hhighest := hrange hno m (Whole.readInt?_render m)
      unfold Whole.lowest
      unfold Whole.highest at hhighest
      omega
    have hzero : Whole.renderNat m = ['0'] ↔ m = 0 := by
      refine ⟨fun h => ?_, by rintro rfl; rfl⟩
      have hdigits := Whole.readDigits?_renderNat m
      rw [h] at hdigits
      exact (Option.some.inj hdigits).symm
    rw [fixed_minus_renderNat_append_iff hw hlowest, hzero]
  | negative _ => exact absurd (hminus _) hd
  | decimal hn =>
    have hzero : v ≠ ['0'] := by
      rintro rfl
      exact absurd hn.point_mem (by decide)
    rw [(hn.fixed_append_iff hw).2]
    exact (and_iff_right fun h => absurd h hzero).symm
  | negativeDecimal _ => exact absurd (hminus _) hd
  | word hv =>
    have hall : ∀ v ∈ words, number? v = none := by decide
    exact absurd (hall v hv) hd

/-- Whether a text begins with a number does not depend on what stands behind it. -/
theorem number?_append_eq_none_iff (hne : v ≠ []) : number? (v ++ w) = none ↔ number? v = none := by
  rw [number?_eq_none_iff, number?_eq_none_iff, List.head?_append_of_ne_nil _ hne]

/-- No value is left alone behind a plus that was copied. -/
theorem RunValue.not_fixed_plus_append (hv : RunValue v) (hd : number? v ≠ none) :
    ¬ Fixed false ('+' :: (v ++ w)) := by
  rw [Ne, ← number?_append_eq_none_iff (w := w) hv.ne_nil] at hd
  obtain ⟨⟨n, rest⟩, hnumber⟩ := Option.ne_none_iff_exists'.mp hd
  obtain ⟨hn, hstops, heq⟩ := number?_eq_some_iff.mp hnumber
  have hoperand : operand? ('+' :: (v ++ w)) = some ([['+'], n], rest) :=
    operand?_eq_some_iff.mpr ⟨n, hn, hstops, Or.inr ⟨'+', rfl, rfl, by rw [heq]⟩⟩
  rw [fixed_operand?_iff hoperand]
  rintro ⟨-, hfold, -⟩
  have hvalue : RunValue ('+' :: [n].flatten) := runValue_of_fold hoperand hfold
  exact hvalue.forall_mem (p := fun c => c ≠ '+') (by decide) '+' List.mem_cons_self rfl

/-- A value that becomes the number of a sign that is glued to a word is copied. -/
theorem RunValue.fixed_glued_append_iff (hv : RunValue v) (hd : number? v ≠ none) {c : Char}
    (hc : isSign c = true) : Fixed true (c :: (v ++ w)) ↔ Fixed true w := by
  have hsome : operand? (c :: (v ++ w)) ≠ none := by
    rwa [Ne, operand?_eq_none_iff, if_pos hc, number?_append_eq_none_iff hv.ne_nil]
  rw [fixed_cons_iff (Or.inl rfl), follows_of_operand? hsome]
  refine fixed_true_append_iff fun d hmem => ?_
  have htail := hv.glues_of_mem_tail
  cases v with
  | nil => cases hmem
  | cons e v =>
    rcases List.mem_cons.mp hmem with rfl | hmem
    · rw [Ne, number?_eq_none_iff] at hd
      exact Or.inr (by simpa using hd)
    · exact Or.inl (htail d hmem)

end Values

end DiceNotation.NumberRun
