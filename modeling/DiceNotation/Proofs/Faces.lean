import Mathlib
import DiceNotation.Proofs.Code.Encoding
import DiceNotation.Proofs.Dice.Sums
import DiceNotation.Proofs.Dice.Waves
import DiceNotation.Proofs.Outcomes

/-!
# The faces of a roll

Rolling `n` dice of `m` sides gives `n` faces between `1` and `m`, and one more for every die that
explodes.  Whatever a session is set to and whatever has happened in it, nothing else comes into the
dice: no face is lost when the extreme ones are dropped, and none is changed when the rest are
sorted.  A negative count is a count with a sign, which faces do not have and totals do.

All of this rests on the roller.  One that keeps within the bounds it is asked for is `Roller.Fair`;
rollers that replay a script are not.

* `Dice.Delivers`, `Dice.delivers_of_rollCount`: dice with the faces that were asked for.
* `rollCode_delivers`: rolling a code with a count and sides.
-/

namespace DiceNotation

open DiceCode (Recipe Parameters)

variable {ρ : Type} [Roller ρ]

namespace Dice

/-! ## What was asked for -/

/-- Dice with `n` faces between `1` and `m`, and one for each explosion, of which `rerolls` are
dropped. -/
structure Delivers (n m rerolls : Int) (d : Dice) : Prop where
  faces : ∀ face ∈ d.faces, 1 ≤ face ∧ face ≤ m
  dropped : ∀ face ∈ d.dropped, 1 ≤ face ∧ face ≤ m
  length_add : d.faces.length + d.dropped.length = n.natAbs + d.explosions
  length_dropped : d.dropped.length = Nat.min rerolls.natAbs (n.natAbs + d.explosions)
  sign : d.sign = if n < 0 then -1 else 1

/-- Settling keeps all faces and drops as many as should be. -/
theorem delivers_settle {code : Text} {spec : Spec} {n m : Int} {faces : List Int}
    {explosions : Nat} {log : List String} (hfaces : ∀ face ∈ faces, 1 ≤ face ∧ face ≤ m)
    (hlength : faces.length = n.natAbs + explosions) :
    Delivers n m spec.rerolls
      (settle code spec faces (signOf (.count n)) explosions log) := by
  have hperm := settle_perm code spec faces (signOf (.count n)) explosions log
  refine ⟨fun face hface => ?_, fun face hface => ?_, ?_, ?_, rfl⟩
  · exact hfaces face (hperm.subset (List.mem_append_left _ hface))
  · exact hfaces face (hperm.subset (List.mem_append_right _ hface))
  · rw [← List.length_append]
    exact hperm.length_eq.trans hlength
  · rw [show (settle code spec faces _ explosions log).explosions = explosions from rfl, ← hlength]
    exact Dice.length_dropped spec.rerolls faces

/-- **Rolling a count of dice delivers them.** -/
theorem delivers_of_rollCount (hρ : Roller.Fair ρ) {code : Text} {spec : Spec} {n : Int}
    (hmin : spec.min = 1) (hsides : 1 ≤ spec.sides) {c : Cup ρ} {d : Dice}
    (h : (rollCount code spec n c).1 = .ok d) : Delivers n spec.sides spec.rerolls d := by
  obtain ⟨first, more, log, hgives, hfirst, -, rfl⟩ := exists_waves_of_rollCount (Prod.ext h rfl)
  rw [hmin] at hgives
  refine delivers_settle (hgives.forall_mem hρ hsides) ?_
  rw [List.length_append, hfirst]

end Dice

/-! ## Codes with a count and sides -/

/-- The roll of a code with a count and sides: its dice are rolled, and it is reduced as the code
says. -/
theorem exists_of_rollCode_count {code : Text} {p : Parameters} {n m : Int} {s s' : Session ρ}
    {r : Roll} (hread : DiceCode.read code = .ok p) (hamount : p.amount = .count n)
    (hsides : p.sides = some m) (h : Turn.rollCode code s = .ok r s') :
    ∃ spec : Dice.Spec, spec.min = 1 ∧ spec.sides = m ∧ spec.rerolls = p.rerolls ∧
      r.reduction = s.chooseReduction p none ∧
      (Dice.rollCount (Text.trim code) spec n s.cup).1 = .ok r.dice := by
  obtain ⟨p', spec, hread', hspecify, hdice⟩ := exists_of_rollCode_eq_ok h
  obtain rfl := Except.ok.inj (hread.symm.trans hread')
  obtain ⟨amount, sides, rerolls, sort, explosion, reduction, difficulty, oneBehaviour⟩ := p
  obtain rfl : amount = .count n := hamount
  obtain rfl : sides = some m := hsides
  obtain ⟨hreduction, rfl⟩ := Prod.mk.inj (Except.ok.inj hspecify)
  rcases hdice with ⟨hcounting, -⟩ | ⟨-, hdice⟩
  · exact nomatch hcounting
  · exact ⟨_, rfl, rfl, rfl, hreduction.symm, hdice⟩

/-- The code that asks for `n` dice of `m` sides, possibly dropping some, sorting, summing up and
exploding. -/
def diceCode (n m : Int) (rerolls : Option Int) (sort summed : Bool) (bangs : Nat) : Recipe where
  amount := .count n
  sides := some m
  rerolls := rerolls
  sort := sort
  suffix := if summed then some .sum else none
  bangs := bangs

/-- **A roll of `n` dice of `m` sides delivers them.**  Every face, dropped or not, is between `1`
and `m`; there are as many as the count says, and one more for each explosion; as many are dropped
as the code says, or all of them; and the sign is that of the count.  When the code asks for a sum,
there is none without a face, and otherwise it is the sign times a number between the number of
faces and `m` times as many. -/
theorem rollCode_delivers (hρ : Roller.Fair ρ) {n m : Int} {rerolls : Option Int}
    {sort summed : Bool} {bangs : Nat} (hn : Whole.fits n = true) (hm : 1 ≤ m)
    (hm' : m ≤ Whole.highest) (hrerolls : ∀ k ∈ rerolls, Whole.fits k = true)
    {s s' : Session ρ} {r : Roll}
    (h : Turn.rollCode (diceCode n m rerolls sort summed bangs).text s = .ok r s') :
    r.dice.Delivers n m (rerolls.getD 0) ∧
      (summed = true → (r.dice.faces = [] → r.result = none) ∧
        (r.dice.faces ≠ [] → ∃ total : Int, r.result = some (r.dice.sign * total) ∧
          (r.dice.faces.length : Int) ≤ total ∧ total ≤ r.dice.faces.length * m)) := by
  have hsound : (diceCode n m rerolls sort summed bangs).Sound :=
    { ranks := fun l hl => nomatch hl
      amount := Or.inl ⟨n, rfl, hn⟩
      sides := by
        rintro _ ⟨⟩
        refine ⟨by omega, Whole.fits_iff.mpr ⟨?_, hm'⟩⟩
        unfold Whole.lowest
        omega
      rerolls := hrerolls
      suffix := by
        rintro x hx k hk
        cases summed with
        | false => exact nomatch hx
        | true =>
          cases hx
          exact nomatch hk
      exclusive := Or.inl rfl }
  have hread := (Recipe.lays_text hsound).read ⟨rfl, rfl⟩ (Recipe.not_isBlank_text hsound)
    (Recipe.distinct_settings hsound) (Recipe.ofSettings?_settings hsound)
  obtain ⟨spec, hmin, rfl, hrr, hreduction, hroll⟩ := exists_of_rollCode_count hread rfl rfl h
  have hdelivers := Dice.delivers_of_rollCount hρ hmin hm hroll
  rw [hrr] at hdelivers
  refine ⟨hdelivers, ?_⟩
  rintro rfl
  obtain ⟨v, hv⟩ := exists_total_of_rollCode_eq_ok h
  have hsum : r.dice.sum = .ok v := by
    rw [← hv, Roll.total, hreduction]
    rfl
  obtain ⟨hnone, hsome⟩ := Dice.exists_of_sum_eq_ok hsum
  rw [Roll.result_of_total hv]
  refine ⟨hnone, fun hne => ⟨r.dice.faces.sum, ?_, Dice.sum_mem_bounds hdelivers.faces⟩⟩
  rw [hsome hne, Int.mul_comm]

/-- Three dice are taken away, and one more because of a five. -/
theorem rollCode_delivers_three_below_zero :
    let s := Session.start {} (Stepping.mk 3 2)
    let code := (diceCode (-3) 6 none false true 2).text
    code = "-3d6g!!".toList ∧ ∃ r s', Turn.rollCode code s = .ok r s' ∧
      r.dice.faces = [3, 5, 1, 3] ∧ r.dice.explosions = 1 ∧ r.dice.Delivers (-3) 6 0 ∧
      ∃ total : Int, r.result = some (r.dice.sign * total) ∧ 4 ≤ total ∧ total ≤ 24 := by
  intro s code
  have houtcome : ((Turn.rollCode code).outcome s).map
      (fun r => (r.dice.faces, r.dice.explosions)) = .ok ([3, 5, 1, 3], 1) := by
    decide +kernel
  obtain ⟨r, s', hroll, hdice⟩ := Turn.exists_of_map_outcome_eq_ok houtcome
  obtain ⟨hfaces, hexplosions⟩ := Prod.mk.inj hdice
  obtain ⟨hdelivers, hsum⟩ := rollCode_delivers Stepping.fair (by decide) (by decide) (by decide)
    (by rintro _ ⟨⟩) hroll
  obtain ⟨total, hresult, hlow, hhigh⟩ := (hsum rfl).2 (by rw [hfaces]; exact List.cons_ne_nil _ _)
  rw [hfaces] at hlow hhigh
  exact ⟨by cbv, r, s', hroll, hfaces, hexplosions, hdelivers, total, hresult, hlow, hhigh⟩

end DiceNotation
