import DiceNotation.Proofs.Folding
import Mathlib

/-!
# Texts with single spaces

A text is neat if every blank of it is a space with a character behind it that is no blank.  What
`squeeze` and `trim` make of a text is neat, and does not begin with a blank; a text with these two
properties is left alone by both.  Unlike the fixed points of the two, neat texts can be taken apart
from the left, one character at a time.

* `Neat`, `Neat.of_append`, `neat_append_iff`.
* `neat_squeeze_trim`, `Neat.squeeze_trim_eq`.
-/

namespace DiceNotation.Text

/-- Every blank is a space, and a character that is no blank follows it. -/
def Neat : Text → Prop
  | [] => True
  | c :: t => (isBlank c = true → c = ' ' ∧ ∃ d ∈ t.head?, isBlank d = false) ∧ Neat t

variable {t w : Text}

theorem Neat.of_append (h : Neat (w ++ t)) : Neat t := by
  induction w with
  | nil => exact h
  | cons c w ih => exact ih h.2

/-- A text without blanks may stand before a neat one. -/
theorem neat_append_iff (hw : ∀ c ∈ w, isBlank c = false) : Neat (w ++ t) ↔ Neat t := by
  refine ⟨Neat.of_append, fun h => ?_⟩
  induction w with
  | nil => exact h
  | cons c w ih =>
    refine ⟨fun hc => ?_, ih fun d hd => hw d (List.mem_cons_of_mem c hd)⟩
    cases hc.symm.trans (hw c List.mem_cons_self)

/-- A neat text does not end with a blank. -/
theorem Neat.getLast (h : Neat t) : ∀ c ∈ t.getLast?, isBlank c = false := by
  induction t with
  | nil => rintro c ⟨⟩
  | cons c t ih =>
    cases t with
    | nil =>
      rintro d hd
      obtain rfl : c = d := Option.some.inj hd
      by_contra hblank
      obtain ⟨-, e, he, -⟩ := h.1 (Bool.not_eq_false _ ▸ hblank)
      cases he
    | cons d t =>
      rw [List.getLast?_cons_cons]
      exact ih h.2

/-- A text is neat once it is squeezed, unless it ends with a blank. -/
theorem neat_squeezeFrom (ht : ∀ c ∈ t.getLast?, isBlank c = false) (written : Bool) :
    Neat (squeezeFrom written t) ∧
      (written = true → t ≠ [] → ∃ d ∈ (squeezeFrom written t).head?, isBlank d = false) := by
  induction t generalizing written with
  | nil => exact ⟨trivial, fun _ hne => absurd rfl hne⟩
  | cons c t ih =>
    cases hc : isBlank c with
    | false =>
      rw [squeezeFrom, hc, if_neg Bool.false_ne_true]
      refine ⟨⟨fun hblank => ?_, (ih ?_ false).1⟩, fun _ _ => ⟨c, rfl, hc⟩⟩
      · cases hblank.symm.trans hc
      · intro d hd
        refine ht d ?_
        rw [List.getLast?_cons]
        simp [Option.mem_def.mp hd]
    | true =>
      have hne : t ≠ [] := by
        rintro rfl
        cases hc.symm.trans (ht c rfl)
      have hlast : ∀ d ∈ t.getLast?, isBlank d = false := by
        intro d hd
        refine ht d ?_
        rw [List.getLast?_cons]
        simp [Option.mem_def.mp hd]
      obtain ⟨hneat, hhead⟩ := ih hlast true
      rw [squeezeFrom, hc, if_pos rfl]
      cases written with
      | true => exact ⟨hneat, fun _ _ => hhead rfl hne⟩
      | false => exact ⟨⟨fun _ => ⟨rfl, hhead rfl hne⟩, hneat⟩, by rintro ⟨⟩⟩

/-- **A text without superfluous blanks** is neat. -/
theorem neat_squeeze_trim (t : Text) : Neat (squeeze (trim t)) := by
  refine (neat_squeezeFrom (fun c hc => ?_) false).1
  exact not_blank_of_getLast?_trimEnd (t := trimStart t) hc

theorem Neat.squeezeFrom_eq (h : Neat t) : squeezeFrom false t = t := by
  induction t with
  | nil => rfl
  | cons c t ih =>
    cases hc : isBlank c with
    | false => rw [squeezeFrom, hc, if_neg Bool.false_ne_true, ih h.2]
    | true =>
      obtain ⟨rfl, d, hd, hblank⟩ := h.1 hc
      obtain ⟨t, rfl⟩ : ∃ u, t = d :: u := List.head?_eq_some_iff.mp hd
      have hrest := ih h.2
      rw [squeezeFrom, hblank, if_neg Bool.false_ne_true] at hrest
      rw [squeezeFrom, hc, if_pos rfl, if_neg Bool.false_ne_true, squeezeFrom, hblank,
        if_neg Bool.false_ne_true, hrest]

/-- **A neat text that does not begin with a blank is left alone.** -/
theorem Neat.squeeze_trim_eq (h : Neat t) (ht : ∀ c ∈ t.head?, isBlank c = false) :
    squeeze (trim t) = t := by
  rw [trim_of_not_blank ht h.getLast]
  exact h.squeezeFrom_eq

end DiceNotation.Text
