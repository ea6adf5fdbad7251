import DiceNotation.Proofs.Refolding
import Mathlib

/-!
# What follows a number

Whether a number ends at a place of a text is decided by at most two characters behind it: no digit
may follow, and after a number without a fraction no point with a digit behind it.  So a number is
read again at the start of another text if that one goes on in the same way, and of a text behind
a number no more than its first two characters matter.

* `Unsigned`: how a number without a sign is written.
* `Stops`: that a number ends before a text.
* `number?_eq_some_iff`, `operand?_eq_some_iff`.
* `operand?_eq_none_of_next?`, `next?_continuation`: where a run ends.
* `exists_run`: the text of a run.
-/

namespace DiceNotation.NumberRun

open Text

/-- A number without a sign: digits, and a fraction after them or none. -/
inductive Unsigned : Text → Prop
  | whole {w : Text} (hne : w ≠ []) (hw : ∀ c ∈ w, isDecimalDigit c = true) : Unsigned w
  | fraction {w f : Text} (hne : w ≠ []) (hw : ∀ c ∈ w, isDecimalDigit c = true) (hne' : f ≠ [])
    (hf : ∀ c ∈ f, isDecimalDigit c = true) : Unsigned (w ++ '.' :: f)

/-- No fraction begins a text. -/
def NoFraction (s : Text) : Prop := ∀ u, s = '.' :: u → ∀ c ∈ u.head?, isDecimalDigit c = false

/-- The number `n` ends before `s`. -/
structure Stops (n s : Text) : Prop where
  digit : ∀ c ∈ s.head?, isDecimalDigit c = false
  fraction : '.' ∉ n → NoFraction s

theorem head?_afterDigits (t : Text) : ∀ c ∈ (afterDigits t).head?, isDecimalDigit c = false := by
  intro c hc
  have hnot := List.head?_dropWhile_not isDecimalDigit t
  unfold afterDigits at hc
  rw [hc] at hnot
  simpa using hnot

theorem head?_of_digits_eq_nil {t : Text} (h : digits t = []) :
    ∀ c ∈ t.head?, isDecimalDigit c = false := by
  have hafter := digits_append_afterDigits t
  rw [h, List.nil_append] at hafter
  rw [← hafter]
  exact head?_afterDigits t

theorem digits_eq_nil {t : Text} (h : ∀ c ∈ t.head?, isDecimalDigit c = false) :
    digits t = [] := (digits_append (w := []) (by rintro c ⟨⟩) h).1

namespace Unsigned

variable {n : Text}

theorem ne_nil (h : Unsigned n) : n ≠ [] := by
  cases h with
  | whole hne _ => exact hne
  | fraction hne _ _ _ => exact List.append_ne_nil_of_left_ne_nil hne _

/-- A number begins with a digit. -/
theorem head (h : Unsigned n) : ∀ c ∈ n.head?, isDecimalDigit c = true := by
  intro c hc
  cases h with
  | whole _ hw => exact hw c (List.mem_of_head? hc)
  | fraction hne hw _ _ =>
    rw [List.head?_append_of_ne_nil _ hne] at hc
    exact hw c (List.mem_of_head? hc)

/-- A number has no blanks. -/
theorem not_isBlank (h : Unsigned n) : ∀ c ∈ n, isBlank c = false := by
  intro c hc
  cases h with
  | whole _ hw => exact not_isBlank_of_isDecimalDigit (hw c hc)
  | fraction _ hw _ hf =>
    rcases List.mem_append.mp hc with hc | hc
    · exact not_isBlank_of_isDecimalDigit (hw c hc)
    rcases List.mem_cons.mp hc with rfl | hc
    · decide
    · exact not_isBlank_of_isDecimalDigit (hf c hc)

/-- A number ends with a digit. -/
theorem getLast (hn : Unsigned n) :
    ∃ c ∈ n.getLast?, isDecimalDigit c = true := by
  have hdigits : ∀ {w : Text}, w ≠ [] → (∀ c ∈ w, isDecimalDigit c = true) →
      ∃ c ∈ w.getLast?, isDecimalDigit c = true := fun hne hw =>
    ⟨_, List.getLast?_eq_some_getLast hne, hw _ (List.getLast_mem hne)⟩
  cases hn with
  | whole hne hw => exact hdigits hne hw
  | @fraction w f _ _ hne hf =>
    obtain ⟨c, hc, hdigit⟩ := hdigits hne hf
    refine ⟨c, ?_, hdigit⟩
    rw [List.getLast?_append, List.getLast?_cons, Option.mem_def.mp hc]
    rfl

/-- A numeral is a number. -/
theorem of_numeral (h : Numeral n) : Unsigned n :=
  .whole h.ne_nil h.isDecimalDigit

/-- Numerals on both sides of a point are a number. -/
theorem of_numerals {w f : Text} (hw : Numeral w) (hf : Numeral f) : Unsigned (w ++ '.' :: f) :=
  .fraction hw.ne_nil hw.isDecimalDigit hf.ne_nil hf.isDecimalDigit

theorem point_notMem_of_whole {w : Text} (hw : ∀ c ∈ w, isDecimalDigit c = true) : '.' ∉ w := by
  intro hc
  have hdigit := hw '.' hc
  revert hdigit
  decide

end Unsigned

/-- **The number at the start of a text** is one that ends before the rest. -/
theorem number?_eq_some_iff {t n s : Text} :
    number? t = some (n, s) ↔ Unsigned n ∧ Stops n s ∧ t = n ++ s := by
  constructor
  · intro h
    have ht := eq_append_of_number? h
    have hhead := head?_afterDigits t
    unfold number? at h
    split at h
    · exact absurd h (by simp)
    next hd =>
    have hne : digits t ≠ [] := fun he => hd (by rw [he]; rfl)
    have hdigits : ∀ c ∈ digits t, isDecimalDigit c = true := fun c hc => List.mem_takeWhile_imp hc
    split at h
    · next rest heq =>
      split at h
      · next hf =>
        cases h
        refine ⟨.whole hne hdigits, ⟨heq ▸ hhead, fun _ u hu => ?_⟩, ht⟩
        obtain rfl : rest = u := List.tail_eq_of_cons_eq hu
        exact head?_of_digits_eq_nil (List.isEmpty_iff.mp hf)
      · next hf =>
        cases h
        refine ⟨.fraction hne hdigits (fun he => hf (by rw [he]; rfl)) fun c hc =>
          List.mem_takeWhile_imp hc, ⟨head?_afterDigits rest, fun hpoint => ?_⟩, ht⟩
        exact absurd (List.mem_append_right _ List.mem_cons_self) hpoint
    · next hno =>
      cases h
      exact ⟨.whole hne hdigits, ⟨hhead, fun _ u hu => absurd hu (hno u)⟩, ht⟩
  · rintro ⟨hn, hs, rfl⟩
    unfold number?
    cases hn with
    | whole hne hw =>
      obtain ⟨hdigits, hafter⟩ := digits_append hw hs.digit
      have hempty : ¬ n.isEmpty = true := fun h => hne (List.isEmpty_iff.mp h)
      rw [hdigits, hafter, if_neg hempty]
      split
      · next rest =>
        have hnil := digits_eq_nil (hs.fraction (Unsigned.point_notMem_of_whole hw) rest rfl)
        rw [hnil]
        rfl
      · rfl
    | @fraction w f hne hw hne' hf =>
      rw [List.append_assoc, List.cons_append]
      obtain ⟨hdigits, hafter⟩ := digits_append (t := '.' :: (f ++ s)) hw (by rintro c ⟨⟩; decide)
      obtain ⟨hdigits', hafter'⟩ := digits_append hf hs.digit
      have hempty : ¬ w.isEmpty = true := fun h => hne (List.isEmpty_iff.mp h)
      have hempty' : ¬ f.isEmpty = true := fun h => hne' (List.isEmpty_iff.mp h)
      rw [hdigits, hafter, if_neg hempty]
      show (if (digits (f ++ s)).isEmpty then _ else
        some (w ++ '.' :: digits (f ++ s), afterDigits (f ++ s))) = _
      rw [hdigits', hafter', if_neg hempty']

/-- A number that begins a text is one that begins with a digit. -/
theorem number?_eq_none_iff {t : Text} :
    number? t = none ↔ ∀ c ∈ t.head?, isDecimalDigit c = false := by
  refine ⟨fun h => ?_, number?_eq_none⟩
  refine head?_of_digits_eq_nil ?_
  by_contra hne
  have hempty : ¬ (digits t).isEmpty = true := fun he => hne (List.isEmpty_iff.mp he)
  unfold number? at h
  rw [if_neg hempty] at h
  split at h
  · split at h
    · cases h
    · cases h
  · cases h

/-- A sign is one of two characters. -/
theorem forall_of_isSign {p : Char → Prop} (h : ∀ c ∈ ['+', '-'], p c) {c : Char}
    (hc : isSign c = true) : p c := by
  rw [isSign, Bool.or_eq_true, beq_iff_eq, beq_iff_eq] at hc
  rcases hc with rfl | rfl
  · exact h _ (by decide)
  · exact h _ (by decide)

/-- **The operand at the start of a text** is a number, or one after a sign. -/
theorem operand?_eq_some_iff {t s : Text} {tokens : List Text} :
    operand? t = some (tokens, s) ↔ ∃ n, Unsigned n ∧ Stops n s ∧
      (tokens = [n] ∧ t = n ++ s ∨
        ∃ c, isSign c = true ∧ tokens = [[c], n] ∧ t = c :: (n ++ s)) := by
  constructor
  · intro h
    unfold operand? at h
    split at h
    · cases h
    · next c rest =>
      split at h
      · next hsign =>
        obtain ⟨⟨n, s'⟩, hcut, heq⟩ := Option.map_eq_some_iff.mp h
        cases heq
        obtain ⟨hn, hs, ht⟩ := number?_eq_some_iff.mp hcut
        exact ⟨n, hn, hs, Or.inr ⟨c, hsign, rfl, congrArg _ ht⟩⟩
      · obtain ⟨⟨n, s'⟩, hcut, heq⟩ := Option.map_eq_some_iff.mp h
        cases heq
        obtain ⟨hn, hs, ht⟩ := number?_eq_some_iff.mp hcut
        exact ⟨n, hn, hs, Or.inl ⟨rfl, ht⟩⟩
  · rintro ⟨n, hn, hs, ⟨rfl, rfl⟩ | ⟨c, hsign, rfl, rfl⟩⟩
    · have hnumber := number?_eq_some_iff.mpr ⟨hn, hs, rfl⟩
      obtain ⟨c, n, rfl⟩ := List.exists_cons_of_ne_nil hn.ne_nil
      have hc : ¬ isSign c = true := by
        intro hsign
        have hdigit : isDecimalDigit c = false :=
          forall_of_isSign (p := fun c => isDecimalDigit c = false) (by decide) hsign
        cases hdigit.symm.trans (hn.head c rfl)
      rw [List.cons_append] at hnumber ⊢
      unfold operand?
      dsimp only
      rw [if_neg hc, hnumber]
      rfl
    · unfold operand?
      dsimp only
      rw [if_pos hsign, number?_eq_some_iff.mpr ⟨hn, hs, rfl⟩]
      rfl

/-- A character that is no sign begins an operand exactly if it is a digit. -/
theorem operand?_eq_none_iff {c : Char} {t : Text} :
    operand? (c :: t) = none ↔
      if isSign c then number? t = none else isDecimalDigit c = false := by
  unfold operand?
  dsimp only
  by_cases hsign : isSign c = true
  · rw [if_pos hsign, if_pos hsign, Option.map_eq_none_iff]
  · rw [if_neg hsign, if_neg hsign, Option.map_eq_none_iff, number?_eq_none_iff]
    simp

/-- Where no operand begins, no digit stands. -/
theorem head_of_operand?_eq_none {t : Text} (h : operand? t = none) :
    ∀ c ∈ t.head?, isDecimalDigit c = false := by
  cases t with
  | nil => rintro c ⟨⟩
  | cons c t =>
    rintro d ⟨⟩
    rw [operand?_eq_none_iff] at h
    split at h
    · next hsign =>
      exact forall_of_isSign (p := fun c => isDecimalDigit c = false) (by decide) hsign
    · exact h

/-- An operand does not begin with a blank. -/
theorem trimStart_of_operand? {t s : Text} {tokens : List Text}
    (h : operand? t = some (tokens, s)) : trimStart t = t := by
  obtain ⟨n, hn, -, ⟨rfl, rfl⟩ | ⟨c, hsign, rfl, rfl⟩⟩ := operand?_eq_some_iff.mp h
  · exact trimStart_append_of_not_blank hn.not_isBlank hn.ne_nil s
  · exact trimStart_cons_of_not_blank
      (forall_of_isSign (p := fun c => isBlank c = false) (by decide) hsign) _

/-- The characters of an operand. -/
theorem flatten_of_operand? {t s : Text} {tokens : List Text} (h : operand? t = some (tokens, s)) :
    t = tokens.flatten ++ s ∧ tokens.flatten ≠ [] ∧ ∀ c ∈ tokens.flatten, isBlank c = false := by
  obtain ⟨n, hn, -, ⟨rfl, rfl⟩ | ⟨c, hsign, rfl, rfl⟩⟩ := operand?_eq_some_iff.mp h
  · rw [List.flatten_singleton]
    exact ⟨rfl, hn.ne_nil, hn.not_isBlank⟩
  · refine ⟨by simp, by simp, fun d hd => ?_⟩
    rw [List.flatten_cons, List.flatten_singleton, List.singleton_append] at hd
    rcases List.mem_cons.mp hd with rfl | hd
    · exact forall_of_isSign (p := fun c => isBlank c = false) (by decide) hsign
    · exact hn.not_isBlank d hd

/-- An operand ends with a digit. -/
theorem getLast_of_operand? {t s : Text} {tokens : List Text} (h : operand? t = some (tokens, s)) :
    ∃ c ∈ tokens.flatten.getLast?, isDecimalDigit c = true := by
  obtain ⟨n, hn, -, ⟨rfl, rfl⟩ | ⟨c, -, rfl, rfl⟩⟩ := operand?_eq_some_iff.mp h
  · rw [List.flatten_singleton]
    exact hn.getLast
  · obtain ⟨d, hd, hdigit⟩ := hn.getLast
    refine ⟨d, ?_, hdigit⟩
    rw [List.flatten_cons, List.flatten_singleton, List.getLast?_append, Option.mem_def.mp hd]
    rfl

/-- No run goes on with a text if no operand follows its operator. -/
theorem next?_eq_none_iff {t : Text} :
    next? t = none ↔ operand? (trimStart (operator (trimStart t)).2) = none :=
  Option.map_eq_none_iff

/-- What is written after a run does not go on with it. -/
theorem next?_continuation (t : Text) : next? (continuation t).2 = none := by
  fun_induction continuation t with
  | case1 t h => exact h
  | case2 t tokens rest h more ih => exact ih

theorem operator_suffix (t : Text) : (operator t).2 <:+ t := by
  unfold operator
  split <;> first | exact List.suffix_refl _ | exact ⟨[_], rfl⟩ | exact ⟨[_, _], rfl⟩

/-- What stands after a run is the end of the text. -/
theorem continuation_suffix (t : Text) : (continuation t).2 <:+ t := by
  fun_induction continuation t with
  | case1 t h => exact List.suffix_refl t
  | case2 t tokens rest h more ih =>
    refine ih.trans ?_
    obtain ⟨⟨number, rest'⟩, hoperand, heq⟩ := Option.map_eq_some_iff.mp h
    cases heq
    have hsuffix : rest' <:+ trimStart (operator (trimStart t)).2 := by
      obtain ⟨hflatten, -, -⟩ := flatten_of_operand? hoperand
      exact ⟨_, hflatten.symm⟩
    exact hsuffix.trans ((List.dropWhile_suffix _).trans ((operator_suffix _).trans
      (List.dropWhile_suffix _)))

/-- A number does not begin with an operator. -/
theorem Unsigned.operator_append {n : Text} (hn : Unsigned n) (t : Text) :
    operator (n ++ t) = ([], n ++ t) := by
  obtain ⟨c, n, rfl⟩ := List.exists_cons_of_ne_nil hn.ne_nil
  refine operator_of_notMem (fun hc => ?_) _
  have hall : ∀ c ∈ "+-*/".toList, isDecimalDigit c = false := by decide
  cases (hall c hc).symm.trans (hn.head c rfl)

/-- Where a run ends no operand begins. -/
theorem operand?_eq_none_of_next? {t : Text} (h : next? t = none) : operand? t = none := by
  by_contra hne
  obtain ⟨⟨tokens, s⟩, hsome⟩ := Option.ne_none_iff_exists'.mp hne
  obtain ⟨n, hn, hstops, hcases⟩ := operand?_eq_some_iff.mp hsome
  have hnumber : operand? (n ++ s) = some ([n], s) :=
    operand?_eq_some_iff.mpr ⟨n, hn, hstops, Or.inl ⟨rfl, rfl⟩⟩
  have htrim := trimStart_append_of_not_blank hn.not_isBlank hn.ne_nil s
  rcases hcases with ⟨rfl, rfl⟩ | ⟨c, hsign, rfl, rfl⟩
  · rw [next?_eq_none_iff, htrim, hn.operator_append, htrim, hnumber] at h
    cases h
  · have hoperator : operator (c :: (n ++ s)) = ([[c]], n ++ s) :=
      forall_of_isSign (p := fun c => operator (c :: (n ++ s)) = ([[c]], n ++ s))
        (by simp [operator]) hsign
    rw [next?_eq_none_iff, trimStart_of_operand? hsome, hoperator, htrim, hnumber] at h
    cases h

/-! ## The text of a run -/

theorem not_glues_of_isBlank {c : Char} (hc : isBlank c = true) : glues c = false :=
  forall_of_isBlank (p := fun c => glues c = false) (by decide +kernel) hc

theorem not_glues_of_isSign {c : Char} (hc : isSign c = true) : glues c = false :=
  forall_of_isSign (p := fun c => glues c = false) (by decide) hc

/-- What goes on a run begins with a blank or an operator. -/
theorem head_of_next? {t : Text} (h : next? t ≠ none)
    (ht : ∀ c ∈ t.head?, isDecimalDigit c = false) : ∃ c ∈ t.head?, glues c = false := by
  cases t with
  | nil => exact absurd rfl h
  | cons c t =>
    refine ⟨c, rfl, ?_⟩
    by_cases hblank : isBlank c = true
    · exact not_glues_of_isBlank hblank
    by_cases hoperator : c ∈ "+-*/".toList
    · have hall : ∀ c ∈ "+-*/".toList, glues c = false := by decide
      exact hall c hoperator
    · refine absurd (next?_eq_none (b := []) nofun ?_) h
      rintro d ⟨⟩
      exact ⟨Bool.eq_false_iff.mpr hblank, ht c rfl, hoperator⟩

/-- What goes on a run ends with a digit. -/
theorem exists_continuation (t : Text) : next? t = none ∨
    ∃ front, t = front ++ (continuation t).2 ∧ ∃ c ∈ front.getLast?, isDecimalDigit c = true := by
  fun_induction continuation t with
  | case1 t h => exact Or.inl h
  | case2 t tokens rest h more ih =>
    refine Or.inr ?_
    obtain ⟨⟨number, rest'⟩, hoperand, heq⟩ := Option.map_eq_some_iff.mp h
    cases heq
    obtain ⟨front, hfront⟩ : trimStart (operator (trimStart t)).2 <:+ t :=
      (List.dropWhile_suffix _).trans ((operator_suffix _).trans (List.dropWhile_suffix _))
    obtain ⟨hflatten, -, -⟩ := flatten_of_operand? hoperand
    obtain ⟨c, hc, hdigit⟩ := getLast_of_operand? hoperand
    rw [hflatten] at hfront
    rcases ih with hnone | ⟨front', hrest, d, hd, hdigit'⟩
    · refine ⟨front ++ number.flatten, ?_, c, ?_, hdigit⟩
      · show t = _ ++ (continuation rest').2
        rw [Strung.continuation_of_none hnone, ← hfront, List.append_assoc]
      · rw [List.getLast?_append, Option.mem_def.mp hc]
        rfl
    · refine ⟨front ++ number.flatten ++ front', ?_, d, ?_, hdigit'⟩
      · rw [← hfront, List.append_assoc _ front', ← hrest, List.append_assoc]
      · rw [List.getLast?_append, Option.mem_def.mp hd]
        rfl

/-- **The text of a run** ends with a digit.  It is that of one number if all but its first
character glue. -/
theorem exists_run {t rest : Text} {tokens : List Text} (h : operand? t = some (tokens, rest)) :
    ∃ x, t = x ++ (continuation rest).2 ∧ (∃ c ∈ x.getLast?, isDecimalDigit c = true) ∧
      ((∀ c ∈ x.tail, glues c = true) → next? rest = none ∧ x = tokens.flatten) := by
  obtain ⟨hflatten, hne, -⟩ := flatten_of_operand? h
  by_cases hnext : next? rest = none
  · rw [Strung.continuation_of_none hnext]
    exact ⟨tokens.flatten, hflatten, getLast_of_operand? h, fun _ => ⟨hnext, rfl⟩⟩
  obtain ⟨front, hfront, d, hd, hdigit⟩ := (exists_continuation rest).resolve_left hnext
  refine ⟨tokens.flatten ++ front, ?_, ⟨d, ?_, hdigit⟩, fun hglues => ?_⟩
  · rw [List.append_assoc, ← hfront]
    exact hflatten
  · rw [List.getLast?_append, Option.mem_def.mp hd]
    rfl
  · obtain ⟨n, -, hstops, -⟩ := operand?_eq_some_iff.mp h
    obtain ⟨c, hc, hfalse⟩ := head_of_next? hnext hstops.digit
    have hmem : c ∈ front := by
      have hne' : front ≠ [] := by
        rintro rfl
        cases hd
      rw [hfront, List.head?_append_of_ne_nil _ hne'] at hc
      exact List.mem_of_head? hc
    rw [List.tail_append_of_ne_nil hne] at hglues
    cases hfalse.symm.trans (hglues c (List.mem_append_right _ hmem))

end DiceNotation.NumberRun
