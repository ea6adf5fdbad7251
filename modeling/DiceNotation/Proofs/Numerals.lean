import DiceNotation.NumberRun
import DiceNotation.Proofs.Blanks
import DiceNotation.Proofs.Words
import DiceNotation.Text.Name
import DiceNotation.Whole

/-!
# Numerals

A numeral is a text of ASCII digits.  It is what a result looks like after it has taken the
place of a group or a define, and every reader of texts finds one word in it which is no name,
holds no blank, and is its own value when numbers are folded.

* `Numeral`, `numeral_renderNat`.
* `Numeral.uniform_word`, `Numeral.not_isName`, `Numeral.trim`.
* `Numeral.read?_eq`, `Numeral.read?_plus`, `Numeral.read?_minus`.
* `Numeral.foldNumbers`.
* `Spells`, `spells_render`: a numeral after at most one minus, with its value.
-/

namespace DiceNotation

/-! What holds of the members of a short list of characters, or of an optional one, is checked for
these.  A check of every character that there is would find the same, and take too long. -/

instance (priority := 1100) decidableForallMem {p : Char → Prop} [DecidablePred p]
    (l : List Char) : Decidable (∀ c ∈ l, p c) := List.decidableBAll p l

instance (priority := 1100) decidableExistsMem {p : Char → Prop} [DecidablePred p]
    (l : List Char) : Decidable (∃ c ∈ l, p c) := List.decidableBEx p l

instance (priority := 1100) decidableForallMemOption {p : Char → Prop} [DecidablePred p]
    (o : Option Char) : Decidable (∀ c ∈ o, p c) := Option.decidableForallMem o

/-- A digit is one of ten characters. -/
theorem forall_of_isDigit {p : Char → Prop} (h : ∀ c ∈ "0123456789".toList, p c) {c : Char}
    (hc : c.isDigit = true) : p c := by
  have hbounds : 48 ≤ c.toNat ∧ c.toNat ≤ 57 := by
    rw [Char.isDigit, Bool.and_eq_true, decide_eq_true_eq, decide_eq_true_eq] at hc
    exact ⟨UInt32.le_iff_toNat_le.mp hc.1, UInt32.le_iff_toNat_le.mp hc.2⟩
  have hvalue : ∃ d ∈ "0123456789".toList, d.toNat = c.toNat := by
    have hcases : c.toNat = 48 ∨ c.toNat = 49 ∨ c.toNat = 50 ∨ c.toNat = 51 ∨ c.toNat = 52 ∨
        c.toNat = 53 ∨ c.toNat = 54 ∨ c.toNat = 55 ∨ c.toNat = 56 ∨ c.toNat = 57 := by omega
    rcases hcases with hn | hn | hn | hn | hn | hn | hn | hn | hn | hn
    all_goals
      rw [hn]
      decide
  obtain ⟨d, hd, hdc⟩ := hvalue
  have heq : d = c := by
    rw [← Char.ofNat_toNat d, ← Char.ofNat_toNat c, hdc]
  rw [← heq]
  exact h d hd

/-- The first digits of a text end before anything that is no digit. -/
theorem Text.digits_append {w t : Text} (hw : ∀ c ∈ w, isDecimalDigit c = true)
    (ht : ∀ c ∈ t.head?, isDecimalDigit c = false) :
    digits (w ++ t) = w ∧ afterDigits (w ++ t) = t :=
  takeWhile_dropWhile_append hw ht

/-- A text of ASCII digits. -/
structure Numeral (w : Text) : Prop where
  ne_nil : w ≠ []
  isDigit : ∀ c ∈ w, c.isDigit = true

theorem numeral_renderNat (n : Nat) : Numeral (Whole.renderNat n) :=
  ⟨Whole.renderNat_ne_nil n, fun _ hc => Whole.isDigit_of_mem_renderNat hc⟩

namespace Numeral

variable {w : Text}

/-- What holds of all ten digits holds of the characters of a numeral. -/
theorem forall_mem (hw : Numeral w) {p : Char → Prop} (h : ∀ c ∈ "0123456789".toList, p c) :
    ∀ c ∈ w, p c := fun c hc => forall_of_isDigit h (hw.isDigit c hc)

theorem not_mem (hw : Numeral w) {d : Char} (h : ∀ c ∈ "0123456789".toList, c ≠ d) : d ∉ w :=
  fun hd => hw.forall_mem h d hd rfl

theorem isWordChar (hw : Numeral w) : ∀ c ∈ w, Text.isWordChar c = true := hw.forall_mem (by decide)

theorem uniform_word (hw : Numeral w) : (Text.Run.word w).Uniform := ⟨hw.ne_nil, hw.isWordChar⟩

theorem not_isBlank (hw : Numeral w) : ∀ c ∈ w, Text.isBlank c = false := hw.forall_mem (by decide)

theorem not_isName (hw : Numeral w) : ¬ Text.isName w = true := by
  obtain ⟨c, w', rfl⟩ := List.exists_cons_of_ne_nil hw.ne_nil
  have hstart : ∀ d ∈ c :: w', Text.isNameStart d = false := hw.forall_mem (by decide)
  have hc : Text.isNameStart c = false := hstart c List.mem_cons_self
  rw [Text.isName_cons, hc]
  exact Bool.false_ne_true

/-! What a numeral is read as, by itself and after a sign. -/

theorem readDigits?_eq (hw : Numeral w) :
    Whole.readDigits? w = some (Nat.ofDigitChars 10 w 0) := by
  have hne : w.isEmpty = false := List.isEmpty_eq_false_iff.mpr hw.ne_nil
  have hall : w.all Char.isDigit = true := List.all_eq_true.mpr hw.isDigit
  unfold Whole.readDigits?
  rw [hne, hall]
  rfl

theorem readInt?_eq (hw : Numeral w) :
    Whole.readInt? w = some (Nat.ofDigitChars 10 w 0 : Int) := by
  obtain ⟨c, w', rfl⟩ := List.exists_cons_of_ne_nil hw.ne_nil
  rw [Whole.readInt?_of_isDigit (hw.isDigit c List.mem_cons_self), hw.readDigits?_eq]
  rfl

theorem read?_eq (hw : Numeral w) :
    Whole.read? w = Whole.fit? (Nat.ofDigitChars 10 w 0) := by
  unfold Whole.read?
  rw [hw.readInt?_eq]
  rfl

theorem read?_plus (hw : Numeral w) :
    Whole.read? ('+' :: w) = Whole.fit? (Nat.ofDigitChars 10 w 0) := by
  show ((Whole.readDigits? w).map Int.ofNat).bind Whole.fit? = _
  rw [hw.readDigits?_eq]
  rfl

theorem read?_minus (hw : Numeral w) :
    Whole.read? ('-' :: w) = Whole.fit? (-(Nat.ofDigitChars 10 w 0 : Int)) := by
  show ((Whole.readDigits? w).map fun n => -(n : Int)).bind Whole.fit? = _
  rw [hw.readDigits?_eq]
  rfl

theorem trim (hw : Numeral w) : Text.trim w = w :=
  Text.trim_of_not_blank (fun d hd => hw.not_isBlank d (List.mem_of_head? hd))
    fun d hd => hw.not_isBlank d (List.mem_of_getLast? hd)

theorem isDecimalDigit (hw : Numeral w) : ∀ c ∈ w, Text.isDecimalDigit c = true :=
  fun c hc => Text.isDecimalDigit_of_isDigit (hw.isDigit c hc)

/-- Digits go on as long as a numeral does. -/
theorem digits_append (hw : Numeral w) {t : Text}
    (ht : ∀ c ∈ t.head?, Text.isDecimalDigit c = false) :
    Text.digits (w ++ t) = w ∧ Text.afterDigits (w ++ t) = t :=
  Text.digits_append hw.isDecimalDigit ht

/-- A numeral is the number at the start of a text, if no digit and no point follows. -/
theorem number? (hw : Numeral w) {t : Text}
    (ht : ∀ c ∈ t.head?, Text.isDecimalDigit c = false ∧ c ≠ '.') :
    NumberRun.number? (w ++ t) = some (w, t) := by
  obtain ⟨hdigits, hafter⟩ := hw.digits_append fun c hc => (ht c hc).1
  have hne : ¬ w.isEmpty = true := fun h => hw.ne_nil (List.isEmpty_iff.mp h)
  unfold NumberRun.number?
  rw [hdigits, if_neg hne, hafter]
  split
  · next rest => exact absurd rfl (ht '.' rfl).2
  · rfl

/-- A numeral is an operand without a sign. -/
theorem operand? (hw : Numeral w) {t : Text}
    (ht : ∀ c ∈ t.head?, Text.isDecimalDigit c = false ∧ c ≠ '.') :
    NumberRun.operand? (w ++ t) = some ([w], t) := by
  have hnumber := hw.number? ht
  obtain ⟨c, w', rfl⟩ := List.exists_cons_of_ne_nil hw.ne_nil
  have hsigns : ∀ d ∈ c :: w', NumberRun.isSign d = false := hw.forall_mem (by decide)
  have hsign : NumberRun.isSign c = false := hsigns c List.mem_cons_self
  rw [List.cons_append] at hnumber ⊢
  show (if NumberRun.isSign c then _ else
    (NumberRun.number? (c :: (w' ++ t))).map fun cut => ([cut.1], cut.2)) = _
  rw [hsign, if_neg Bool.false_ne_true, hnumber]
  rfl

/-- A numeral is folded to itself. -/
theorem fold (hw : Numeral w) : NumberRun.fold [w] = .ok w := by
  have hplain : NumberRun.isPlainNumber [w] = true := List.all_eq_true.mpr hw.isDigit
  unfold NumberRun.fold
  rw [if_pos hplain, List.flatten_singleton]

/-- **A numeral is written as its own value.** -/
theorem foldNumbers (hw : Numeral w) : NumberRun.foldNumbers w = .ok w := by
  have hoperand := hw.operand? (t := []) (by rintro c ⟨⟩)
  rw [List.append_nil] at hoperand
  have hcontinuation : NumberRun.continuation [] = ([], []) := by
    rw [NumberRun.continuation]
    rfl
  have hfold : NumberRun.fold ([w] ++ []) = .ok w := hw.fold
  unfold NumberRun.foldNumbers
  rw [hw.trim, Text.squeeze_of_not_blank hw.not_isBlank]
  obtain ⟨c, w', hcons⟩ := List.exists_cons_of_ne_nil hw.ne_nil
  rw [hcons] at hoperand hfold ⊢
  rw [NumberRun.foldFrom]
  split
  · next hnone =>
    rw [hoperand] at hnone
    cases hnone
  · next tokens rest hsome =>
    rw [hoperand] at hsome
    cases hsome
    rw [if_neg Bool.false_ne_true, hcontinuation, hfold, NumberRun.foldFrom]
    show Except.ok ((c :: w') ++ []) = _
    rw [List.append_nil]

end Numeral

/-! ## Numerals with a minus -/

/-- A text is a numeral after at most one minus, and it is read as a whole number. -/
structure Spells (x : Text) (n : Int) : Prop where
  shape : Numeral x ∨ ∃ w, x = '-' :: w ∧ Numeral w
  value : Whole.read? x = some n

/-- The text of a number in the range spells it. -/
theorem spells_render {n : Int} (h : Whole.fits n = true) : Spells (Whole.render n) n := by
  refine ⟨?_, Whole.read?_render h⟩
  cases n with
  | ofNat n => exact Or.inl (numeral_renderNat n)
  | negSucc n => exact Or.inr ⟨_, rfl, numeral_renderNat (n + 1)⟩

namespace Spells

variable {x : Text} {n : Int}

/-- What holds of the ten digits and of the minus holds of the characters of the text. -/
theorem forall_mem (h : Spells x n) {p : Char → Prop} (hp : ∀ c ∈ "-0123456789".toList, p c) :
    ∀ c ∈ x, p c := by
  have hdigits : ∀ c ∈ "0123456789".toList, p c := fun c hc => hp c (List.mem_cons_of_mem '-' hc)
  rcases h.shape with hx | ⟨w, rfl, hw⟩
  · exact hx.forall_mem hdigits
  · intro c hc
    rcases List.mem_cons.mp hc with rfl | hc
    · exact hp '-' List.mem_cons_self
    · exact hw.forall_mem hdigits c hc

theorem ne_nil (h : Spells x n) : x ≠ [] := by
  rcases h.shape with hx | ⟨w, rfl, _⟩
  · exact hx.ne_nil
  · exact List.cons_ne_nil '-' w

theorem not_isBlank (h : Spells x n) : ∀ c ∈ x, Text.isBlank c = false := h.forall_mem (by decide)

theorem trim (h : Spells x n) : Text.trim x = x :=
  Text.trim_of_not_blank (fun d hd => h.not_isBlank d (List.mem_of_head? hd))
    fun d hd => h.not_isBlank d (List.mem_of_getLast? hd)

end Spells

end DiceNotation
