import DiceNotation.Dice.Total
import DiceNotation.Proofs.Fallible
import Mathlib

/-!
# Sums of faces

Faces are added one after another, and a sum that leaves the range of whole numbers is an error even
if later faces would bring it back.  So whether faces can be added up is a condition on every part
that they begin with, and on the sum with its sign (`AddsUp`); where it holds the total is the sum,
and where it does not there is none (`total_eq_ok_iff`).

* `AddsUp`, `foldlM_addFace_eq_ok_iff`, `total_eq_ok_iff`.
* `sum_of_ne_nil`, `exists_of_sum_eq_ok`: sums of dice.
* `sum_mem_bounds`: what a sum lies between.
-/

namespace DiceNotation.Dice

/-- What fits is let through as it is. -/
theorem ok_of_fit?_iff {x v : Int} {e : RollError} :
    (match Whole.fit? x with
      | some n => Except.ok n
      | none => .error e) = .ok v ↔ Whole.fits x = true ∧ v = x := by
  cases h : Whole.fit? x with
  | some n =>
    obtain ⟨rfl, hfits⟩ := Whole.fit?_eq_some_iff.mp h
    rw [Except.ok.injEq]
    exact ⟨fun hv => ⟨hfits, hv.symm⟩, fun hv => hv.2.symm⟩
  | none =>
    rw [Whole.fit?_eq_none_iff] at h
    exact iff_of_false nofun fun hv => Bool.false_ne_true (h.symm.trans hv.1)

theorem addFace_eq_ok_iff {total face t : Int} :
    addFace total face = .ok t ↔ Whole.fits (total + face) = true ∧ t = total + face :=
  ok_of_fit?_iff

theorem signed_eq_ok_iff {d : Dice} {x v : Int} :
    d.signed x = .ok v ↔ Whole.fits (x * d.sign) = true ∧ v = x * d.sign :=
  ok_of_fit?_iff

/-- **Faces are added up if no part that they begin with leaves the range.** -/
theorem foldlM_addFace_eq_ok_iff {faces : List Int} {start t : Int}
    (hstart : Whole.fits start = true) :
    faces.foldlM addFace start = .ok t ↔
      (∀ part, part <+: faces → Whole.fits (start + part.sum) = true) ∧ t = start + faces.sum := by
  induction faces generalizing start with
  | nil =>
    rw [List.foldlM_nil, List.sum_nil, Int.add_zero]
    show (Except.ok start = Except.ok t) ↔ _
    rw [Except.ok.injEq]
    refine ⟨fun h => ⟨fun part hpart => ?_, h.symm⟩, fun h => h.2.symm⟩
    rw [List.prefix_nil.mp hpart, List.sum_nil, Int.add_zero]
    exact hstart
  | cons face faces ih =>
    rw [List.foldlM_cons, List.sum_cons, ← Int.add_assoc]
    constructor
    · intro h
      obtain ⟨next, hnext, h⟩ := exists_of_bind_eq_ok h
      obtain ⟨hfits, rfl⟩ := addFace_eq_ok_iff.mp hnext
      obtain ⟨hparts, ht⟩ := (ih hfits).mp h
      refine ⟨fun part hpart => ?_, ht⟩
      rcases List.prefix_cons_iff.mp hpart with rfl | ⟨rest, rfl, hrest⟩
      · rw [List.sum_nil, Int.add_zero]
        exact hstart
      · rw [List.sum_cons, ← Int.add_assoc]
        exact hparts rest hrest
    · rintro ⟨hparts, ht⟩
      have hlater (part : List Int) (hpart : part <+: faces) :
          Whole.fits (start + face + part.sum) = true := by
        rw [Int.add_assoc, ← List.sum_cons]
        exact hparts (face :: part) (List.cons_prefix_cons.mpr ⟨rfl, hpart⟩)
      have hfits : Whole.fits (start + face) = true := by
        have hnil := hlater [] List.nil_prefix
        rwa [List.sum_nil, Int.add_zero] at hnil
      rw [addFace_eq_ok_iff.mpr ⟨hfits, rfl⟩]
      exact (ih hfits).mpr ⟨hlater, ht⟩

/-- Whether faces can be added up, one after another and then with a sign, within the range of whole
numbers. -/
structure AddsUp (sign : Int) (faces : List Int) : Prop where
  part_fits : ∀ part, part <+: faces → Whole.fits part.sum = true
  total_fits : Whole.fits (faces.sum * sign) = true

/-- **The total of faces is their sum with the sign**, if they can be added up. -/
theorem total_eq_ok_iff {d : Dice} {faces : List Int} {v : Int} :
    d.total faces = .ok v ↔ AddsUp d.sign faces ∧ v = faces.sum * d.sign := by
  have hfold (t : Int) : faces.foldlM addFace 0 = .ok t ↔
      (∀ part, part <+: faces → Whole.fits part.sum = true) ∧ t = faces.sum := by
    rw [foldlM_addFace_eq_ok_iff (by decide)]
    simp only [Int.zero_add]
  constructor
  · intro h
    obtain ⟨t, ht, h⟩ := exists_of_bind_eq_ok h
    obtain ⟨hparts, rfl⟩ := (hfold t).mp ht
    obtain ⟨hfits, hv⟩ := signed_eq_ok_iff.mp h
    exact ⟨⟨hparts, hfits⟩, hv⟩
  · rintro ⟨hadds, hv⟩
    rw [total, (hfold faces.sum).mpr ⟨hadds.part_fits, rfl⟩]
    exact signed_eq_ok_iff.mpr ⟨hadds.total_fits, hv⟩

/-- The sum of dice with a face is the total of their faces. -/
theorem sum_of_ne_nil {d : Dice} (h : d.faces ≠ []) : d.sum = (d.total d.faces).map some := by
  rw [sum, if_neg (by rwa [List.isEmpty_iff])]
  cases d.total d.faces with
  | error e => rfl
  | ok n => rfl

/-- The sum of dice is missing if there are no faces, and else is the sum of their faces with the
sign. -/
theorem exists_of_sum_eq_ok {d : Dice} {v : Option Int} (h : d.sum = .ok v) :
    (d.faces = [] → v = none) ∧ (d.faces ≠ [] → v = some (d.faces.sum * d.sign)) := by
  refine ⟨fun hnil => ?_, fun hne => ?_⟩
  · rw [sum, if_pos (List.isEmpty_iff.mpr hnil)] at h
    exact (Except.ok.inj h).symm
  · rw [sum_of_ne_nil hne] at h
    obtain ⟨n, hn, rfl⟩ := exists_of_map_eq_ok h
    rw [(total_eq_ok_iff.mp hn).2]

/-- A sum of faces between `1` and `m`. -/
theorem sum_mem_bounds {m : Int} {faces : List Int} (h : ∀ face ∈ faces, 1 ≤ face ∧ face ≤ m) :
    (faces.length : Int) ≤ faces.sum ∧ faces.sum ≤ faces.length * m := by
  induction faces with
  | nil => exact ⟨Int.le_refl 0, by simp⟩
  | cons face faces ih =>
    obtain ⟨hlow, hhigh⟩ := ih fun f hf => h f (List.mem_cons_of_mem face hf)
    obtain ⟨hface, hface'⟩ := h face List.mem_cons_self
    rw [List.sum_cons, List.length_cons, Int.natCast_succ, Int.add_mul, Int.one_mul]
    omega

end DiceNotation.Dice
