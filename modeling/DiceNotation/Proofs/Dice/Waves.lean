import DiceNotation.Proofs.Dice.Dropping
import DiceNotation.Proofs.Fallible
import DiceNotation.Roller.Scripted
import DiceNotation.Roller.Seeded
import DiceNotation.Roller.Stepping

/-!
# Explosions in waves

The faces of a roll come in waves.  The first has as many as were asked for, and each later one has
as many as exploded in the wave before it, until in one wave none does.  This is what is drawn from
the roller; dropping and sorting only rearrange it, so that the faces that count and those that do
not are together all that was drawn, and the number of explosions can be read off either.

## Why it ends

Nothing in the faces makes the explosions end, since a roller may give the highest face every time.
`Bursts` is the loop as it stands, which asks for dice while any are pending and knows of no limit.
That it ends is that there is an outcome for it, and `bursts_waves` gives one together with the
number of requests.  Each request but the last is granted and counts at least one die, so there are
no more than dice are left in the budget, and one.

## What explodes

With `e` bangs the `e` highest face values are to explode, provided that a value is left over.
The threshold is found by adding one to the sides and then taking away `e`, and the first of these
steps stays at the greatest whole number if it is there.  So dice with the greatest possible number
of sides are an exception (`Spec.explodes_highest_sides_iff`): on them one more value explodes, or
none if only the least were left.  All other dice are as they should be (`Spec.explodes_iff`).

* `Roller.Fair`: rollers that keep within their bounds.
* `Cup.Gives`, `Follow`, `InWaves`: faces that were drawn, and waves.
* `Bursts`, `bursts_waves`, `Bursts.eq_waves`: the loop, and its end.
* `exists_waves_of_rollCount`, `roll_comes_in_waves`: rolling a count of dice.
* `Spec.explodes`, `highest_faces_explode`: which faces explode.
-/

namespace DiceNotation

variable {ρ : Type} [Roller ρ]

/-! ## Fair rollers -/

/-- A roller that keeps within the bounds it is asked for, if there is anything within them. -/
def Roller.Fair (ρ : Type) [Roller ρ] : Prop :=
  ∀ (n : Nat) (lo hi : Int) (r : ρ), lo ≤ hi →
    ∀ face ∈ (Roller.rollMany n lo hi r).1, lo ≤ face ∧ face ≤ hi

theorem Stepping.fair : Roller.Fair Stepping :=
  fun n _ _ r h => forall_mem_drawEach _ (fun r => roll_mem_bounds h r) n r

theorem Seeded.fair : Roller.Fair Seeded :=
  fun n _ _ r h => forall_mem_drawEach _ (fun r => roll_mem_bounds h r) n r

theorem Cup.forall_mem_of_roll (hρ : Roller.Fair ρ) {n : Nat} {lo hi : Int} (hle : lo ≤ hi)
    {c c' : Cup ρ} {faces : List Int} (h : c.roll n lo hi = (.ok faces, c')) :
    ∀ face ∈ faces, lo ≤ face ∧ face ≤ hi := by
  rw [roll_of_le (rolls_of_roll_ok h).2.2, Prod.mk.injEq] at h
  rw [← Except.ok.inj h.1]
  exact hρ n lo hi c.roller hle

/-! ## Faces from a cup -/

/-- Waves of faces that a cup gives, each on one request, and the cup after them. -/
inductive Cup.Gives (lo hi : Int) : Cup ρ → List (List Int) → Cup ρ → Prop where
  | nothing (c : Cup ρ) : Gives lo hi c [] c
  | wave {c c₁ c' : Cup ρ} {faces : List Int} {rest : List (List Int)}
      (granted : c.roll faces.length lo hi = (.ok faces, c₁)) (later : Gives lo hi c₁ rest c') :
      Gives lo hi c (faces :: rest) c'

/-- A cup counts the faces that it gives. -/
theorem Cup.Gives.rolls_eq {lo hi : Int} {c c' : Cup ρ} {given : List (List Int)}
    (h : c.Gives lo hi given c') : c'.rolls = c.rolls + given.flatten.length := by
  induction h with
  | nothing c => rfl
  | wave granted _ ih =>
    rw [ih, (Cup.rolls_of_roll_ok granted).2.1, List.flatten_cons, List.length_append,
      Nat.add_assoc]

/-- What a cup with a fair roller gives keeps within the bounds. -/
theorem Cup.Gives.forall_mem (hρ : Roller.Fair ρ) {lo hi : Int} (hle : lo ≤ hi) {c c' : Cup ρ}
    {given : List (List Int)} (h : c.Gives lo hi given c') :
    ∀ face ∈ given.flatten, lo ≤ face ∧ face ≤ hi := by
  induction h with
  | nothing c => exact fun face hface => absurd hface List.not_mem_nil
  | wave granted _ ih =>
    intro face hface
    rw [List.flatten_cons] at hface
    rcases List.mem_append.mp hface with hface | hface
    · exact Cup.forall_mem_of_roll hρ hle granted face hface
    · exact ih face hface

namespace Dice

/-! ## Waves -/

/-- A wave of faces and those that follow it: there is one more face for each that explodes, and
nothing follows when none does. -/
inductive Follow (explodes : Int → Bool) : List Int → List (List Int) → Prop where
  | last {wave : List Int} (none_explodes : wave.countP explodes = 0) : Follow explodes wave []
  | next {wave wave' : List Int} {rest : List (List Int)} (some_explodes : 0 < wave.countP explodes)
      (length_eq : wave'.length = wave.countP explodes) (later : Follow explodes wave' rest) :
      Follow explodes wave (wave' :: rest)

/-- As many faces of all waves explode as come after the first. -/
theorem Follow.countP_flatten {explodes : Int → Bool} {wave : List Int} {more : List (List Int)}
    (h : Follow explodes wave more) :
    (wave :: more).flatten.countP explodes = more.flatten.length := by
  induction h with
  | last none_explodes =>
    rw [List.flatten_cons, List.flatten_nil, List.append_nil, none_explodes]
    rfl
  | next _ length_eq _ ih =>
    rw [List.flatten_cons, List.countP_append, ih, ← length_eq, List.flatten_cons,
      List.length_append]

/-- Dice that were rolled in waves: `n` dice, whether it is positive or negative, and then those of
the explosions. -/
structure InWaves (explodes : Int → Bool) (spec : Spec) (n : Int) (c c' : Cup ρ) (d : Dice)
    (first : List Int) (more : List (List Int)) : Prop where
  gives : c.Gives spec.min spec.sides (first :: more) c'
  length_first : first.length = n.natAbs
  follow : Follow explodes first more
  /-- No face is lost, and there are no others. -/
  perm : (d.faces ++ d.dropped).Perm (first :: more).flatten
  explosions_eq_length : d.explosions = more.flatten.length
  explosions_eq_countP : d.explosions = (d.faces ++ d.dropped).countP explodes
  rolls_eq : c'.rolls = c.rolls + n.natAbs + d.explosions

/-- Waves that are settled are dice in waves. -/
theorem inWaves_settle {explodes : Int → Bool} {spec : Spec} {n : Int} {c c' : Cup ρ}
    {first : List Int} {more : List (List Int)}
    (gives : c.Gives spec.min spec.sides (first :: more) c') (hfirst : first.length = n.natAbs)
    (follow : Follow explodes first more) (code : Text) (sign : Int) (log : List String) :
    InWaves explodes spec n c c'
      (settle code spec (first ++ more.flatten) sign more.flatten.length log) first more := by
  have hperm := settle_perm code spec (first ++ more.flatten) sign more.flatten.length log
  refine ⟨gives, hfirst, follow, hperm, rfl, ?_, ?_⟩
  · exact follow.countP_flatten.symm.trans (hperm.countP_eq explodes).symm
  · rw [gives.rolls_eq, List.flatten_cons, List.length_append, hfirst, ← Nat.add_assoc]
    rfl

/-- The waves after a wave are given by the cup and follow it. -/
theorem gives_follow_of_waves {lo hi threshold : Int} {wave : List Int} {c c' : Cup ρ}
    {more : List (List Int)}
    (h : waves lo hi threshold (exploding threshold wave) c = (.ok more, c')) :
    c.Gives lo hi more c' ∧ Follow (fun face => decide (threshold ≤ face)) wave more := by
  generalize hpending : exploding threshold wave = pending at h
  fun_induction waves lo hi threshold pending c generalizing wave more c' with
  | case1 c =>
    cases h
    exact ⟨.nothing c, .last hpending⟩
  | case2 pending c hne e cup hroll => cases h
  | case3 pending c hne next cup hroll e cup' hrest ih => cases h
  | case4 pending c hne next cup hroll rest cup' hrest ih =>
    cases h
    obtain ⟨hgives, hfollow⟩ := ih rfl hrest
    have hlength := Cup.length_of_roll_ok hroll
    refine ⟨.wave (hlength ▸ hroll) hgives, .next ?_ (hlength.trans hpending.symm) hfollow⟩
    exact Nat.pos_of_ne_zero fun hzero => hne (hpending.symm.trans hzero)

/-! ## The end of the explosions -/

/-- How the explosions go on from a number of pending dice, as a loop: while dice are pending, they
are asked for at once, and the loop is left when none is or when they are refused.  It relates the
number of requests, the dice that are pending, the cup, and the waves and the cup in the end. -/
inductive Bursts (lo hi threshold : Int) :
    Nat → Nat → Cup ρ → Except RollError (List (List Int)) × Cup ρ → Prop where
  | done (c : Cup ρ) : Bursts lo hi threshold 0 0 c (.ok [], c)
  | refused {pending : Nat} {c c' : Cup ρ} {e : RollError} (some_pending : 0 < pending)
      (refusal : c.roll pending lo hi = (.error e, c')) :
      Bursts lo hi threshold 1 pending c (.error e, c')
  | wave {requests pending : Nat} {c c₁ c' : Cup ρ} {faces : List Int}
      {outcome : Except RollError (List (List Int))} (some_pending : 0 < pending)
      (granted : c.roll pending lo hi = (.ok faces, c₁))
      (later : Bursts lo hi threshold requests (exploding threshold faces) c₁ (outcome, c')) :
      Bursts lo hi threshold (requests + 1) pending c (outcome.map (faces :: ·), c')

/-- **The loop comes to an end**, after no more requests than dice are left, and one. -/
theorem bursts_waves (lo hi threshold : Int) (pending : Nat) (c : Cup ρ) :
    ∃ requests ≤ c.limit - c.rolls + 1,
      Bursts lo hi threshold requests pending c (waves lo hi threshold pending c) := by
  fun_induction waves lo hi threshold pending c with
  | case1 c => exact ⟨0, Nat.zero_le _, .done c⟩
  | case2 pending c hne e cup hroll =>
    exact ⟨1, Nat.le_add_left _ _, .refused (Nat.pos_of_ne_zero hne) hroll⟩
  | case3 pending c hne wave cup hroll e cup' hrest ih
  | case4 pending c hne wave cup hroll rest cup' hrest ih =>
    obtain ⟨requests, hle, hbursts⟩ := ih
    rw [hrest] at hbursts
    have hcount := Cup.rolls_of_roll_ok hroll
    exact ⟨requests + 1, by omega, .wave (Nat.pos_of_ne_zero hne) hroll hbursts⟩

/-- The outcome of the loop is that of `waves`. -/
theorem Bursts.eq_waves {lo hi threshold : Int} {requests pending : Nat} {c : Cup ρ}
    {out : Except RollError (List (List Int)) × Cup ρ}
    (h : Bursts lo hi threshold requests pending c out) :
    out = waves lo hi threshold pending c := by
  induction h with
  | done c => rw [waves, if_pos rfl]
  | refused some_pending refusal =>
    rw [waves, if_neg (Nat.ne_of_gt some_pending)]
    split
    · next heq =>
      rw [refusal] at heq
      cases heq
      rfl
    · next heq =>
      rw [refusal] at heq
      cases heq
  | wave some_pending granted later ih =>
    rw [waves, if_neg (Nat.ne_of_gt some_pending)]
    split
    · next heq =>
      rw [granted] at heq
      cases heq
    · next heq =>
      rw [granted] at heq
      cases heq
      rw [← ih]
      split
      · next heq => cases heq; rfl
      · next heq => cases heq; rfl

/-- **The explosions end for every roller**: from whatever dice are pending, the loop makes no more
requests than dice are left in the budget, and one, and its outcome is that of `waves`. -/
theorem bursts_iff_of_budget {c : Cup ρ} {B : Nat} (h : c.budget = some B) (lo hi threshold : Int)
    (pending : Nat) :
    ∃ requests ≤ B - c.rolls + 1, ∀ out, Bursts lo hi threshold requests pending c out ↔
      out = waves lo hi threshold pending c := by
  have hlimit : c.limit = B := by
    rw [Cup.limit, h]
    rfl
  obtain ⟨requests, hle, hbursts⟩ := bursts_waves lo hi threshold pending c
  refine ⟨requests, hlimit ▸ hle, fun out => ⟨Bursts.eq_waves, ?_⟩⟩
  rintro rfl
  exact hbursts

/-! ## Rolling a count of dice -/

/-- Whether a face explodes. -/
def Spec.explodes (s : Spec) (face : Int) : Bool :=
  match s.explosionThreshold? with
  | none => false
  | some threshold => decide (threshold ≤ face)

theorem Spec.explodes_of_none {s : Spec} (h : s.explosionThreshold? = none) :
    s.explodes = fun _ => false := by
  funext face
  rw [Spec.explodes, h]

theorem Spec.explodes_of_some {s : Spec} {t : Int} (h : s.explosionThreshold? = some t) :
    s.explodes = fun face => decide (t ≤ face) := by
  funext face
  rw [Spec.explodes, h]

/-- **A count of dice is rolled in waves**, and then all faces are settled. -/
theorem exists_waves_of_rollCount {code : Text} {spec : Spec} {n : Int} {c c' : Cup ρ} {d : Dice}
    (h : rollCount code spec n c = (.ok d, c')) :
    ∃ first more log, c.Gives spec.min spec.sides (first :: more) c' ∧
      first.length = n.natAbs ∧ Follow spec.explodes first more ∧
      d = settle code spec (first ++ more.flatten) (signOf (.count n)) more.flatten.length log := by
  unfold rollCount at h
  split at h
  · cases h
  · next first c₁ hfirst =>
    have hlength := Cup.length_of_roll_ok hfirst
    have hgiven : c.roll first.length spec.min spec.sides = (.ok first, c₁) := hlength ▸ hfirst
    dsimp only at h
    split at h
    · next hnone =>
      cases h
      have hlast : first.countP spec.explodes = 0 := by
        rw [Spec.explodes_of_none hnone, List.countP_false]
        rfl
      exact ⟨first, [], _, .wave hgiven (.nothing _), hlength, .last hlast,
        congrArg (fun pool => settle code spec pool _ 0 _) (List.append_nil first).symm⟩
    · next threshold hthreshold =>
      split at h
      · cases h
      · next more c₂ hmore =>
        obtain ⟨hgives, hfollow⟩ := gives_follow_of_waves hmore
        cases h
        rw [Spec.explodes_of_some hthreshold]
        exact ⟨first, more, _, .wave hgiven hgives, hlength, hfollow, rfl⟩

/-- The dice of a count of dice were rolled in waves. -/
theorem exists_inWaves_of_roll {code : Text} {spec : Spec} {n : Int} (h : spec.amount = .count n)
    {c c' : Cup ρ} {d : Dice} (hroll : roll code spec c = (.ok d, c')) :
    ∃ first more, InWaves spec.explodes spec n c c' d first more := by
  rw [roll, h] at hroll
  obtain ⟨first, more, log, hgives, hfirst, hfollow, rfl⟩ := exists_waves_of_rollCount hroll
  exact ⟨first, more, inWaves_settle hgives hfirst hfollow code _ log⟩

/-- **Explosions come in complete waves.**  When a count of dice with a threshold is rolled, the
faces are drawn in waves, each with as many faces as reach the threshold in the one before it; all
of them are kept or dropped, and the number of explosions is that of the faces after the first wave
and that of the faces that reach the threshold.  With a budget the explosions end, whatever dice are
pending and whatever the roller gives. -/
theorem roll_comes_in_waves {code : Text} {spec : Spec} {n t : Int}
    (hamount : spec.amount = .count n) (hthreshold : spec.explosionThreshold? = some t) :
    (∀ (c c' : Cup ρ) (d : Dice), roll code spec c = (.ok d, c') →
      ∃ first more, InWaves (fun face => decide (t ≤ face)) spec n c c' d first more) ∧
    ∀ (c : Cup ρ) (B : Nat), c.budget = some B → ∀ pending : Nat,
      ∃ requests ≤ B - c.rolls + 1, ∀ out,
        Bursts spec.min spec.sides t requests pending c out ↔
          out = waves spec.min spec.sides t pending c := by
  refine ⟨fun c c' d h => ?_, fun c B hB => bursts_iff_of_budget hB spec.min spec.sides t⟩
  rw [← Spec.explodes_of_some hthreshold]
  exact exists_inWaves_of_roll hamount h

/-- Three dice explode in two waves. -/
theorem roll_comes_in_waves_of_three :
    let spec : Spec := { amount := .count 3, sides := 10, explosion := 2, rerolls := 1 }
    let c : Cup Scripted := { budget := some 1000, roller := ⟨[10, 4, 9, 9, 2, 1]⟩ }
    spec.amount = .count 3 ∧ spec.explosionThreshold? = some 9 ∧
    (∃ d c' first more, roll [] spec c = (.ok d, c') ∧ d.explosions = 3 ∧
      InWaves (fun face => decide (9 ≤ face)) spec 3 c c' d first more) ∧
    ∃ requests ≤ 1001, ∀ out, Bursts 1 10 9 requests 2 c out ↔ out = waves 1 10 9 2 c := by
  intro spec c
  have houtcome : (roll [] spec c).1.map Dice.explosions = .ok 3 := by decide +kernel
  obtain ⟨hwaves, hends⟩ := @roll_comes_in_waves Scripted _ [] spec 3 9 rfl rfl
  obtain ⟨d, hd, hexplosions⟩ := exists_of_map_eq_ok houtcome
  have hroll : roll [] spec c = (.ok d, (roll [] spec c).2) := Prod.ext hd rfl
  obtain ⟨first, more, hin⟩ := hwaves c _ d hroll
  exact ⟨rfl, rfl, ⟨d, _, first, more, hroll, hexplosions, hin⟩, hends c 1000 rfl 2⟩

/-! ## The highest faces -/

/-- A face explodes if it reaches the threshold and the threshold is above the least face. -/
theorem Spec.explodes_eq_true_iff {s : Spec} {face : Int} :
    s.explodes face = true ↔ 0 < s.explosion ∧ s.min < s.threshold ∧ s.threshold ≤ face := by
  unfold Spec.explodes
  cases h : s.explosionThreshold? with
  | none =>
    refine iff_of_false Bool.false_ne_true ?_
    rintro ⟨hpos, hmin, -⟩
    rw [Spec.explosionThreshold?_eq_some_iff.mpr ⟨hpos, hmin, rfl⟩] at h
    cases h
  | some threshold =>
    obtain ⟨hpos, hmin, rfl⟩ := Spec.explosionThreshold?_eq_some_iff.mp h
    exact decide_eq_true_iff.trans ⟨fun hface => ⟨hpos, hmin, hface⟩, fun hface => hface.2.2⟩

/-- What explodes is known if it is known of every face. -/
theorem Spec.explodes_eq {s : Spec} {p : Int → Prop} [DecidablePred p]
    (h : ∀ face, s.explodes face = true ↔ p face) : s.explodes = fun face => decide (p face) := by
  funext face
  rw [Bool.eq_iff_iff, decide_eq_true_iff]
  exact h face

section Highest

variable {s : Spec} (hexplosion : 1 ≤ s.explosion) (hsides : Whole.fits s.sides = true)
  (hmin : Whole.fits s.min = true)

include hexplosion hsides

/-- The sides and one are not beyond the greatest whole number, nor is the threshold below the
least. -/
theorem Spec.threshold_eq : s.threshold =
    Max.max Whole.lowest (Min.min (s.sides + 1) Whole.highest - s.explosion) := by
  rw [Whole.fits_iff] at hsides
  unfold Spec.threshold Whole.clamp Whole.lowest Whole.highest at *
  omega

include hmin

/-- The highest face values explode, as many as there are bangs. -/
theorem Spec.explodes_iff (hne : s.sides ≠ Whole.highest) (hle : s.min ≤ s.sides - s.explosion)
    (face : Int) : s.explodes face = true ↔ s.sides - s.explosion < face := by
  rw [Spec.explodes_eq_true_iff, Spec.threshold_eq hexplosion hsides]
  rw [Whole.fits_iff] at hsides hmin
  unfold Whole.lowest Whole.highest at *
  omega

/-- At the greatest number of sides one more face value explodes, or none if that is the least. -/
theorem Spec.explodes_highest_sides_iff (heq : s.sides = Whole.highest)
    (hle : s.min ≤ s.sides - s.explosion) (face : Int) :
    s.explodes face = true ↔ s.min < s.sides - s.explosion ∧ s.sides - s.explosion ≤ face := by
  rw [Spec.explodes_eq_true_iff, Spec.threshold_eq hexplosion hsides]
  rw [Whole.fits_iff] at hmin
  unfold Whole.lowest Whole.highest at *
  omega

/-- If every face value were to explode, none does. -/
theorem Spec.explodes_eq_false (hlt : s.sides - s.explosion < s.min) (face : Int) :
    s.explodes face = false := by
  rw [← Bool.not_eq_true, Spec.explodes_eq_true_iff, Spec.threshold_eq hexplosion hsides]
  rw [Whole.fits_iff] at hmin
  unfold Whole.lowest Whole.highest at *
  omega

/-- Where some face values explode, the least one does not. -/
theorem Spec.exists_lt_threshold {t : Int} (h : s.explosionThreshold? = some t) :
    ∃ face, s.min ≤ face ∧ face ≤ s.sides ∧ face < t := by
  obtain ⟨-, hlt, rfl⟩ := Spec.explosionThreshold?_eq_some_iff.mp h
  refine ⟨s.min, Int.le_refl _, ?_, hlt⟩
  rw [Spec.threshold_eq hexplosion hsides] at hlt
  rw [Whole.fits_iff] at hmin
  omega

end Highest

/-- **The highest faces explode.**  With `e` bangs, a die that is rolled leads to one more if and
only if its face is greater than the number of sides less `e`, provided that this leaves a face
value, and that the number of sides is not the greatest of all whole numbers; there, one more face
value explodes, or none.  If no face value were left then no die leads to another.  So where dice
explode at all there is a face value at which they stop. -/
theorem highest_faces_explode {code : Text} {spec : Spec} {n : Int}
    (hamount : spec.amount = .count n) (hexplosion : 1 ≤ spec.explosion)
    (hsides : Whole.fits spec.sides = true) (hmin : Whole.fits spec.min = true) :
    (spec.min ≤ spec.sides - spec.explosion → spec.sides ≠ Whole.highest →
      ∀ (c c' : Cup ρ) (d : Dice), roll code spec c = (.ok d, c') → ∃ first more,
        InWaves (fun face => decide (spec.sides - spec.explosion < face)) spec n c c' d
          first more) ∧
    (spec.min ≤ spec.sides - spec.explosion → spec.sides = Whole.highest →
      ∀ (c c' : Cup ρ) (d : Dice), roll code spec c = (.ok d, c') → ∃ first more,
        InWaves (fun face => decide (spec.min < spec.sides - spec.explosion ∧
          spec.sides - spec.explosion ≤ face)) spec n c c' d first more) ∧
    (spec.sides - spec.explosion < spec.min →
      ∀ (c c' : Cup ρ) (d : Dice), roll code spec c = (.ok d, c') →
        d.explosions = 0 ∧ ∃ first, InWaves (fun _ => false) spec n c c' d first []) ∧
    ∀ t, spec.explosionThreshold? = some t →
      ∃ face, spec.min ≤ face ∧ face ≤ spec.sides ∧ face < t := by
  have hwaves (c c' : Cup ρ) (d : Dice) (h : roll code spec c = (.ok d, c')) :
      ∃ first more, InWaves spec.explodes spec n c c' d first more :=
    exists_inWaves_of_roll hamount h
  refine ⟨fun hle hne => ?_, fun hle heq => ?_, fun hlt c c' d h => ?_, fun t ht => ?_⟩
  · rw [← Spec.explodes_eq (Spec.explodes_iff hexplosion hsides hmin hne hle)]
    exact hwaves
  · rw [← Spec.explodes_eq (Spec.explodes_highest_sides_iff hexplosion hsides hmin heq hle)]
    exact hwaves
  · have hexplodes : spec.explodes = fun _ => false :=
      funext (Spec.explodes_eq_false hexplosion hsides hmin hlt)
    obtain ⟨first, more, hin⟩ := hwaves c c' d h
    rw [hexplodes] at hin
    obtain rfl : more = [] := by
      cases hin.follow with
      | last _ => rfl
      | next some_explodes _ _ => simp at some_explodes
    exact ⟨hin.explosions_eq_length, first, hin⟩
  · exact Spec.exists_lt_threshold hexplosion hsides hmin ht

/-- Three dice that explode on a nine or a ten. -/
theorem highest_faces_explode_from_nine :
    let spec : Spec := { amount := .count 3, sides := 10, explosion := 2 }
    let c : Cup Stepping := { budget := some 1000, roller := ⟨8, 1⟩ }
    spec.min ≤ spec.sides - spec.explosion ∧ ∃ d c' first more, roll [] spec c = (.ok d, c') ∧
      d.faces = [8, 9, 10, 1, 2] ∧
      InWaves (fun face => decide (8 < face)) spec 3 c c' d first more := by
  intro spec c
  have houtcome : (roll [] spec c).1.map Dice.faces = .ok [8, 9, 10, 1, 2] := by decide +kernel
  obtain ⟨d, hd, hfaces⟩ := exists_of_map_eq_ok houtcome
  have hroll : roll [] spec c = (.ok d, (roll [] spec c).2) := Prod.ext hd rfl
  have hle : spec.min ≤ spec.sides - spec.explosion := by decide
  obtain ⟨hexplode, -⟩ :=
    @highest_faces_explode Stepping _ [] spec 3 rfl (by decide) (by decide) (by decide)
  obtain ⟨first, more, hin⟩ := hexplode hle (by decide) c _ d hroll
  exact ⟨hle, d, _, first, more, hroll, hfaces, hin⟩

/-- With one bang the second highest face of the die with the greatest number of sides explodes. -/
theorem second_highest_face_explodes :
    Roller.Fair Stepping ∧
    ¬ ∀ (code : Text) (spec : Spec) (n : Int) (c c' : Cup Stepping) (d : Dice),
      spec.amount = .count n → 1 ≤ spec.explosion → Whole.fits spec.sides = true →
      Whole.fits spec.min = true → spec.min ≤ spec.sides - spec.explosion →
      roll code spec c = (.ok d, c') →
        ∃ first more, InWaves (fun face => decide (spec.sides - spec.explosion < face))
          spec n c c' d first more := by
  refine ⟨Stepping.fair, fun h => ?_⟩
  let spec : Spec := { amount := .count 1, sides := Whole.highest, explosion := 1 }
  let c : Cup Stepping := { budget := some 10, roller := ⟨Whole.highest - 1, 6 - Whole.highest⟩ }
  have houtcome : (roll [] spec c).1.map (fun d => (d.faces ++ d.dropped, d.explosions)) =
      .ok ([Whole.highest - 1, 5], 1) := by
    decide +kernel
  obtain ⟨d, hd, hdice⟩ := exists_of_map_eq_ok houtcome
  obtain ⟨hfaces, hexplosions⟩ := Prod.mk.inj hdice
  have hroll : roll [] spec c = (.ok d, (roll [] spec c).2) := Prod.ext hd rfl
  obtain ⟨first, more, hin⟩ :=
    h [] spec 1 c _ d rfl (by decide) (by decide) (by decide) (by decide) hroll
  have hcount := hin.explosions_eq_countP
  rw [hexplosions, hfaces] at hcount
  exact absurd hcount (by decide)

end Dice

end DiceNotation
