import DiceNotation.Proofs.Dice.Ranks
import DiceNotation.Proofs.Failure
import DiceNotation.Roller.Scripted

/-!
# Totals that overflow

The total of some faces is their sum with the sign, and where that is a whole number it should not
overflow (`exactTotal`).  But a total is found step by step: the faces are added one after another,
and the sign comes last.  So it overflows also where it fits and something on the way to it does
not.  The way depends on the order of the faces.  Selecting faces by rank takes an order of its own,
so that all ranks together can have a total that the sum of the same faces has not
(`not_forall_sum_exact`).

## Faces on one side of zero

A part of some faces can only be beyond all of them if later faces take back what earlier ones have
added.  Where no face is below zero they do not, nor where none is above it (`OneSided`).  The parts
then lie between zero and the sum, so that nothing on the way is out of range except the sum itself,
before it gets the sign.  This matters for one sum alone: `2^63` is not a whole number, and with a
minus before it it is the least one.

* `exactTotal`, `total_eq_exactTotal_iff`: totals that overflow only if they have to.
* `OneSided`, `addsUp_iff_of_oneSided`: faces on one side of zero.
* `Totals`, `totals_total`: what is known of a total.
* `totals_overflow_on_the_way`: sums and selected faces.
-/

namespace DiceNotation.Dice

/-! ## Exact totals -/

/-- The sum of faces with a sign, if it is a whole number. -/
def exactTotal (sign : Int) (faces : List Int) : Except RollError Int :=
  if Whole.fits (faces.sum * sign) then .ok (faces.sum * sign) else .error .overflow

theorem exactTotal_of_fits {sign : Int} {faces : List Int}
    (h : Whole.fits (faces.sum * sign) = true) :
    exactTotal sign faces = .ok (faces.sum * sign) := if_pos h

theorem exactTotal_of_not_fits {sign : Int} {faces : List Int}
    (h : ¬ Whole.fits (faces.sum * sign) = true) : exactTotal sign faces = .error .overflow :=
  if_neg h

/-- Faces that cannot be added up overflow. -/
theorem total_eq_error_iff {d : Dice} {faces : List Int} {e : RollError} :
    d.total faces = .error e ↔ ¬ AddsUp d.sign faces ∧ e = .overflow := by
  constructor
  · intro h
    refine ⟨fun hadds => ?_, failsOnly_total d faces e h⟩
    rw [total_eq_ok_iff.mpr ⟨hadds, rfl⟩] at h
    cases h
  · rintro ⟨hadds, rfl⟩
    cases htotal : d.total faces with
    | ok v => exact absurd (total_eq_ok_iff.mp htotal).1 hadds
    | error e => rw [failsOnly_total d faces e htotal]

/-- A total is exact unless it fits and a part that the faces begin with does not. -/
theorem total_eq_exactTotal_iff {d : Dice} {faces : List Int} :
    d.total faces = exactTotal d.sign faces ↔
      (Whole.fits (faces.sum * d.sign) = true →
        ∀ part, part <+: faces → Whole.fits part.sum = true) := by
  by_cases hfits : Whole.fits (faces.sum * d.sign) = true
  · rw [exactTotal_of_fits hfits, total_eq_ok_iff]
    exact ⟨fun h _ => h.1.part_fits, fun h => ⟨⟨h hfits, hfits⟩, rfl⟩⟩
  · rw [exactTotal_of_not_fits hfits, total_eq_error_iff]
    exact ⟨fun _ h => absurd h hfits, fun _ => ⟨fun h => hfits h.total_fits, rfl⟩⟩

/-! ## Faces on one side of zero -/

/-- No face is below zero, or none is above it. -/
def OneSided (faces : List Int) : Prop :=
  (∀ face ∈ faces, 0 ≤ face) ∨ ∀ face ∈ faces, face ≤ 0

theorem OneSided.of_perm {faces faces' : List Int} (h : faces.Perm faces')
    (hsided : OneSided faces) : OneSided faces' :=
  hsided.imp (fun hlow face hface => hlow face (h.mem_iff.mpr hface))
    fun hhigh face hface => hhigh face (h.mem_iff.mpr hface)

/-- The sum of a part is between zero and the sum of all. -/
theorem OneSided.fits_part {faces part : List Int} (h : OneSided faces) (hpart : part <+: faces)
    (hfits : Whole.fits faces.sum = true) : Whole.fits part.sum = true := by
  obtain ⟨rest, rfl⟩ := hpart
  simp only [OneSided, List.forall_mem_append] at h
  rw [List.sum_append, Whole.fits_iff] at hfits
  rw [Whole.fits_iff]
  unfold Whole.lowest Whole.highest at *
  rcases h with ⟨hpart, hrest⟩ | ⟨hpart, hrest⟩
  · have hpart := List.sum_nonneg hpart
    have hrest := List.sum_nonneg hrest
    omega
  · have hpart := List.sum_le_card_nsmul part 0 hpart
    have hrest := List.sum_le_card_nsmul rest 0 hrest
    rw [nsmul_zero] at hpart hrest
    omega

/-- **Faces on one side of zero are added up unless their sum is out of range**, with or without the
sign. -/
theorem addsUp_iff_of_oneSided {sign : Int} {faces : List Int} (h : OneSided faces) :
    AddsUp sign faces ↔
      Whole.fits faces.sum = true ∧ Whole.fits (faces.sum * sign) = true :=
  ⟨fun hadds => ⟨hadds.part_fits faces List.prefix_rfl, hadds.total_fits⟩,
    fun hfits => ⟨fun _ hpart => h.fits_part hpart hfits.1, hfits.2⟩⟩

/-- A sum that is a whole number only with a minus is `2^63`. -/
theorem fits_of_fits_mul {x sign : Int} (hsign : sign = 1 ∨ sign = -1)
    (hne : x ≠ Whole.highest + 1) (h : Whole.fits (x * sign) = true) : Whole.fits x = true := by
  rw [Whole.fits_iff] at *
  unfold Whole.lowest Whole.highest at *
  rcases hsign with rfl | rfl <;> omega

/-! ## Sums and selected faces -/

/-- How some faces with a sign come to a total. -/
structure Totals (sign : Int) (faces : List Int) (x : Except RollError Int) : Prop where
  of_addsUp : AddsUp sign faces → x = .ok (faces.sum * sign)
  of_not_addsUp : ¬ AddsUp sign faces → x = .error .overflow
  /-- The total is exact unless it fits and something on the way to it does not. -/
  exact_iff : x = exactTotal sign faces ↔
    (Whole.fits (faces.sum * sign) = true → ∀ part, part <+: faces → Whole.fits part.sum = true)
  /-- There is no such thing on the way with faces on one side of zero. -/
  exact_of_oneSided : OneSided faces → sign = 1 ∨ sign = -1 → faces.sum ≠ Whole.highest + 1 →
    x = exactTotal sign faces

theorem totals_total (d : Dice) (faces : List Int) : Totals d.sign faces (d.total faces) where
  of_addsUp h := total_eq_ok_iff.mpr ⟨h, rfl⟩
  of_not_addsUp h := total_eq_error_iff.mpr ⟨h, rfl⟩
  exact_iff := total_eq_exactTotal_iff
  exact_of_oneSided hsided hsign hne := total_eq_exactTotal_iff.mpr fun hfits _ hpart =>
    hsided.fits_part hpart (fits_of_fits_mul hsign hne hfits)

/-- The order of faces on one side of zero does not matter for their total. -/
theorem total_congr {d d' : Dice} {faces faces' : List Int} (hsided : OneSided faces)
    (hfaces : faces.Perm faces') (hsign : d.sign = d'.sign) : d.total faces = d'.total faces' := by
  have hadds : AddsUp d.sign faces ↔ AddsUp d'.sign faces' := by
    rw [addsUp_iff_of_oneSided hsided, addsUp_iff_of_oneSided (hsided.of_perm hfaces), hsign,
      hfaces.sum_eq]
  by_cases h : AddsUp d.sign faces
  · rw [total_eq_ok_iff.mpr ⟨h, rfl⟩, total_eq_ok_iff.mpr ⟨hadds.mp h, rfl⟩, hsign, hfaces.sum_eq]
  · rw [total_eq_error_iff.mpr ⟨h, rfl⟩, total_eq_error_iff.mpr ⟨fun h' => h (hadds.mpr h'), rfl⟩]

theorem sum_congr {d d' : Dice} (hsided : OneSided d.faces) (hfaces : d.faces.Perm d'.faces)
    (hsign : d.sign = d'.sign) : d.sum = d'.sum := by
  rw [sum, sum, total_congr hsided hfaces hsign, hfaces.isEmpty_eq]

/-- **Totals overflow on the way.**  The sum of dice is the exact total of their faces, and that of
selected faces the exact total of what the ranks stand for, unless the total fits and a part that
it is found by does not; then there is an overflow all the same.  On one side of zero this concerns
no sum but `2^63`, and the order of the faces does not matter; it never matters for selected
faces. -/
theorem totals_overflow_on_the_way {d : Dice} (hne : d.faces ≠ []) :
    (∃ x, d.sum = x.map some ∧ Totals d.sign d.faces x) ∧
    (∃ value, RankValues d.faces value ∧
      ∀ ranks, Totals d.sign (ranks.map value) (d.select ranks)) ∧
    ∀ d' : Dice, d.faces.Perm d'.faces → d.sign = d'.sign →
      (∀ ranks, d.select ranks = d'.select ranks) ∧ (OneSided d.faces → d.sum = d'.sum) := by
  refine ⟨⟨_, sum_of_ne_nil hne, totals_total d d.faces⟩,
    ⟨_, rankValues_faceAt hne, fun ranks => ?_⟩, fun d' hfaces hsign =>
      ⟨select_congr hfaces hsign, fun hsided => sum_congr hsided hfaces hsign⟩⟩
  rw [select_eq hne]
  exact totals_total d _

/-- Three faces with a minus that are added up in their order, though not from the highest rank
down. -/
theorem totals_overflow_on_the_way_of_three :
    let d := ofFaces [] { amount := .count (-3), sides := 10 } [-2, Whole.highest, 1]
    d.faces ≠ [] ∧ d.sum = (exactTotal d.sign d.faces).map some ∧
    d.sum = .ok (some (1 - Whole.highest)) ∧
    ∃ value, RankValues d.faces value ∧ ¬ AddsUp d.sign ([3, 2, 1].map value) ∧
      d.select [3, 2, 1] = .error .overflow := by
  intro d
  have hne : d.faces ≠ [] := by decide
  have hparts : ∀ part ∈ d.faces.inits, Whole.fits part.sum = true := by decide
  have hdown : d.select [3, 2, 1] = .error .overflow := by cbv
  obtain ⟨⟨x, hsum, hx⟩, ⟨value, hvalues, hselect⟩, -⟩ := totals_overflow_on_the_way hne
  refine ⟨hne, ?_, by cbv, value, hvalues, fun hadds => ?_, hdown⟩
  · rw [hsum, hx.exact_iff.mpr fun _ part hpart => hparts part ((List.mem_inits _ _).mpr hpart)]
  · rw [(hselect _).of_addsUp hadds] at hdown
    cases hdown

/-- The greatest whole number, one and minus two have a sum that fits, and it overflows.  Selecting
them from the lowest rank up gives the sum, and from the highest down it overflows as well.  Two
dice that are taken away overflow although with the minus they are the least whole number. -/
theorem not_forall_sum_exact :
    let given : Spec := { amount := .faces [Whole.highest, 1, -2], sides := 10 }
    let taken : Spec := { amount := .count (-2), sides := Whole.highest }
    let c : Cup Scripted := { budget := some 1000, roller := ⟨[Whole.highest, 1]⟩ }
    (∃ d c', roll [] given c = (.ok d, c') ∧
      exactTotal d.sign d.faces = .ok (Whole.highest - 1) ∧ d.sum = .error .overflow ∧
      d.select [1, 2, 3] = .ok (Whole.highest - 1) ∧ d.select [3, 2, 1] = .error .overflow) ∧
    (∃ d c', roll [] taken c = (.ok d, c') ∧
      exactTotal d.sign d.faces = .ok Whole.lowest ∧ d.sum = .error .overflow) ∧
    ¬ ∀ (spec : Spec) (c c' : Cup Scripted) (d : Dice), roll [] spec c = (.ok d, c') →
      d.faces ≠ [] → d.sum = (exactTotal d.sign d.faces).map some := by
  intro given taken c
  obtain ⟨log, hgiven⟩ : ∃ log, roll [] given c =
      (.ok (settle [] given [Whole.highest, 1, -2] 1 0 log), c) := ⟨_, rfl⟩
  obtain ⟨log', c', htaken⟩ : ∃ log c', roll [] taken c =
      (.ok (settle [] taken [Whole.highest, 1] (-1) 0 log), c') := ⟨_, _, rfl⟩
  refine ⟨⟨_, _, hgiven, by rfl, by rfl, by cbv, by cbv⟩, ⟨_, _, htaken, by rfl, by rfl⟩,
    fun h => ?_⟩
  have hexact : (.error .overflow : Except RollError (Option Int)) =
      .ok (some (Whole.highest - 1)) := h given c _ _ hgiven (List.cons_ne_nil _ _)
  cases hexact

end DiceNotation.Dice
