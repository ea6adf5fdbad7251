import DiceNotation.Proofs.Dice.Overflow
import DiceNotation.Roll.Basic
import DiceNotation.Roller.Scripted

/-!
# Sorting is for the eye

Faces are sorted when everything else about a roll is decided.  What is drawn, what explodes and
what is dropped is the same with and without it, and so are the log and the cup (`roll_sorted`).
Sorted dice are the others with their faces rearranged, and no reduction looks at the order of
faces (`Rearranged.total_eq`).  Only whether a sum overflows on the way depends on it; this is why
the faces have to be on one side of zero, as those of dice are.

* `sorted`, `roll_sorted`: rolling with and without sorting.
* `Rearranged`: dice with the same faces in another order.
* `sort_is_invisible`.
-/

namespace DiceNotation.Dice

/-! ## Rolling -/

/-- The dice with their faces sorted, as if that had been asked for. -/
def sorted (d : Dice) : Dice :=
  { d with spec := { d.spec with sort := true }, faces := ascending d.faces }

theorem settle_sorted (code : Text) (spec : Spec) (faces : List Int) (sign : Int)
    (explosions : Nat) (log : List String) :
    settle code { spec with sort := true } faces sign explosions log =
      (settle code { spec with sort := false } faces sign explosions log).sorted := rfl

@[simp] theorem Spec.explosionThreshold?_sort (spec : Spec) (sort : Bool) :
    { spec with sort }.explosionThreshold? = spec.explosionThreshold? := rfl

section Rolling

variable {ρ : Type} [Roller ρ]

theorem rollCount_sorted (code : Text) (spec : Spec) (n : Int) (c : Cup ρ) :
    rollCount code { spec with sort := true } n c =
      ((rollCount code { spec with sort := false } n c).1.map sorted,
        (rollCount code { spec with sort := false } n c).2) := by
  unfold rollCount
  simp only [Spec.explosionThreshold?_sort]
  rcases c.roll n.natAbs spec.min spec.sides with ⟨e | first, c₁⟩
  · rfl
  · dsimp only
    cases spec.explosionThreshold? with
    | none =>
      dsimp only
      rw [settle_sorted]
      rfl
    | some threshold =>
      dsimp only
      rcases waves spec.min spec.sides threshold (exploding threshold first) c₁ with
        ⟨e | more, c₂⟩
      · rfl
      · dsimp only
        rw [settle_sorted]
        rfl

/-- **Sorting is the last thing that is done to dice.** -/
theorem roll_sorted (code : Text) (spec : Spec) (c : Cup ρ) :
    roll code { spec with sort := true } c =
      ((roll code { spec with sort := false } c).1.map sorted,
        (roll code { spec with sort := false } c).2) := by
  obtain ⟨amount, min, sides, rerolls, sort, explosion, difficulty, oneBehaviour⟩ := spec
  cases amount with
  | count n =>
    exact rollCount_sorted code
      ⟨.count n, min, sides, rerolls, sort, explosion, difficulty, oneBehaviour⟩ n c
  | faces l => rfl
  | back n => rfl

end Rolling

/-! ## The order of faces -/

/-- Dice with the same faces in another order, that are reduced in the same way. -/
structure Rearranged (d d' : Dice) : Prop where
  faces_perm : d.faces.Perm d'.faces
  sign_eq : d.sign = d'.sign
  amount_eq : d.spec.amount = d'.spec.amount
  difficulty_eq : d.spec.difficulty = d'.spec.difficulty
  oneBehaviour_eq : d.spec.oneBehaviour = d'.spec.oneBehaviour

theorem rearranged_sorted (d : Dice) : Rearranged d.sorted d :=
  ⟨ascending_perm d.faces, rfl, rfl, rfl, rfl⟩

theorem faceAt_congr {faces faces' : List Int} (h : faces.Perm faces') :
    faceAt faces = faceAt faces' := by
  funext rank
  rw [faceAt, faceAt, ascending_congr h, h.length_eq]

/-- The highest and the lowest face are the same in any order. -/
theorem extremes_congr {faces faces' : List Int} (h : faces.Perm faces') :
    faces.max? = faces'.max? ∧ faces.min? = faces'.min? := by
  rcases eq_or_ne faces [] with rfl | hne
  · rw [h.nil_eq]
    exact ⟨rfl, rfl⟩
  · have hne' : faces' ≠ [] := by
      rintro rfl
      exact hne h.eq_nil
    rw [max?_eq_faceAt hne, max?_eq_faceAt hne', min?_eq_faceAt hne, min?_eq_faceAt hne',
      faceAt_congr h, h.length_eq]
    exact ⟨rfl, rfl⟩

theorem signed?_congr {d d' : Dice} (hsign : d.sign = d'.sign) (x : Option Int) :
    d.signed? x = d'.signed? x := by
  cases x with
  | none => rfl
  | some x => simp only [signed?, signed, hsign]

namespace Rearranged

variable {d d' : Dice}

theorem successes_eq (h : Rearranged d d') : d.successes = d'.successes := by
  simp only [successes, h.difficulty_eq, h.oneBehaviour_eq, h.faces_perm.countP_eq,
    h.faces_perm.count_eq, signed?_congr h.sign_eq]

/-- **No reduction looks at the order of faces**, unless it overflows on the way. -/
theorem total_eq (h : Rearranged d d') (hsided : OneSided d.faces) (reduction : Reduction) :
    (Roll.mk reduction d).total = (Roll.mk reduction d').total := by
  cases reduction with
  | sum => exact sum_congr hsided h.faces_perm h.sign_eq
  | max =>
    show d.signed? _ = d'.signed? _
    rw [(extremes_congr h.faces_perm).1, signed?_congr h.sign_eq]
  | min =>
    show d.signed? _ = d'.signed? _
    rw [(extremes_congr h.faces_perm).2, signed?_congr h.sign_eq]
  | nothing => rfl
  | amount => simp only [Roll.total, id, h.amount_eq]
  | successes => exact h.successes_eq
  | ranks first others =>
    simp only [Roll.total, select_congr h.faces_perm h.sign_eq]

theorem resonances_eq (h : Rearranged d d') (reduction : Reduction) :
    (Roll.mk reduction d).resonances = (Roll.mk reduction d').resonances := by
  have hrepeats : Roll.repeats d.faces = Roll.repeats d'.faces := by
    funext face
    simp only [Roll.repeats, h.faces_perm.count_eq]
  simp only [Roll.resonances, hrepeats]

end Rearranged

/-! ## Invisibility -/

/-- Dice and what they are with their faces sorted. -/
structure Sorts (d d' : Dice) : Prop where
  code_eq : d'.code = d.code
  spec_eq : d'.spec = { d.spec with sort := true }
  dropped_eq : d'.dropped = d.dropped
  sign_eq : d'.sign = d.sign
  explosions_eq : d'.explosions = d.explosions
  log_eq : d'.log = d.log
  faces_perm : d'.faces.Perm d.faces
  ascending : d'.faces.Pairwise (· ≤ ·)

theorem sorts_sorted (d : Dice) : Sorts d d.sorted :=
  ⟨rfl, rfl, rfl, rfl, rfl, rfl, ascending_perm d.faces, pairwise_ascending d.faces⟩

/-- **Whether faces are sorted cannot be seen from the results.**  The same specification with and
without sorting leaves the same cup, and either fails with the same error or gives dice that differ
in nothing but the order of their faces, the one being ascending.  All reductions have the same
resonances then, and the same total if no two faces are on different sides of zero, as when none is
below it. -/
theorem sort_is_invisible {ρ : Type} [Roller ρ] (code : Text) (spec : Spec) (c : Cup ρ) :
    let plain := roll code { spec with sort := false } c
    let sorted := roll code { spec with sort := true } c
    sorted.2 = plain.2 ∧
    ((∃ e, plain.1 = .error e ∧ sorted.1 = .error e) ∨
      ∃ d d', plain.1 = .ok d ∧ sorted.1 = .ok d' ∧ Sorts d d' ∧ ∀ reduction,
        (Roll.mk reduction d').resonances = (Roll.mk reduction d).resonances ∧
        (OneSided d.faces → (Roll.mk reduction d').total = (Roll.mk reduction d).total)) := by
  intro plain sorted
  have hsorted : sorted = (plain.1.map Dice.sorted, plain.2) := roll_sorted code spec c
  refine ⟨by rw [hsorted], ?_⟩
  rw [hsorted]
  cases hplain : plain.1 with
  | error e => exact Or.inl ⟨e, rfl, rfl⟩
  | ok d =>
    have hsame := rearranged_sorted d
    refine Or.inr ⟨d, d.sorted, rfl, rfl, sorts_sorted d, fun reduction =>
      ⟨hsame.resonances_eq reduction, fun hsided => ?_⟩⟩
    exact hsame.total_eq (hsided.of_perm hsame.faces_perm.symm) reduction

/-- Of four dice the lowest is dropped, and the others have the same sum in either order. -/
theorem sort_is_invisible_of_four :
    let spec : Spec := { amount := .count 4, sides := 10, rerolls := 1 }
    let c : Cup Scripted := { budget := some 1000, roller := ⟨[7, 2, 9, 4]⟩ }
    ∃ d d', (roll [] spec c).1 = .ok d ∧ (roll [] { spec with sort := true } c).1 = .ok d' ∧
      d.faces = [7, 9, 4] ∧ d'.faces = [4, 7, 9] ∧ d'.dropped = [2] ∧ OneSided d.faces ∧
      (Roll.mk .sum d').total = (Roll.mk .sum d).total := by
  intro spec c
  obtain ⟨log, c', hroll⟩ : ∃ log c', roll [] spec c =
      (.ok (settle [] spec [7, 2, 9, 4] 1 0 log), c') := ⟨_, _, rfl⟩
  have hfaces : (settle [] spec [7, 2, 9, 4] 1 0 log).faces = [7, 9, 4] := by cbv
  have hdropped : (settle [] spec [7, 2, 9, 4] 1 0 log).dropped = [2] := by cbv
  have hok : (roll [] spec c).1 = .ok (settle [] spec [7, 2, 9, 4] 1 0 log) := by rw [hroll]
  obtain ⟨-, ⟨e, he, -⟩ | ⟨d, d', hd, hd', hsorts, hsame⟩⟩ := sort_is_invisible [] spec c
  · rw [hok] at he
    cases he
  · obtain rfl := Except.ok.inj (hok.symm.trans hd)
    have hsorted := eq_ascending_of_perm hsorts.faces_perm hsorts.ascending
    have hsided : OneSided (settle [] spec [7, 2, 9, 4] 1 0 log).faces := by
      rw [hfaces]
      exact Or.inl (by decide)
    refine ⟨_, d', hok, hd', hfaces, ?_, ?_, hsided, (hsame .sum).2 hsided⟩
    · rw [hsorted, hfaces]
      cbv
    · rw [hsorts.dropped_eq, hdropped]

end DiceNotation.Dice
