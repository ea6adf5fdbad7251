import DiceNotation.Proofs.Dice.Ranks
import DiceNotation.Roller.Scripted

/-!
# Successes against a difficulty

A score counts the faces that reach the difficulty, and where ones count against it they are taken
away again.  They cannot take it below zero, though, if there is a success at all.  So a score has
jumps: with three ones it is minus three as long as no face succeeds, zero for one success, and
still zero for three.  It never jumps down when there are more successes or fewer ones
(`net_le_net`).

A face that gets better can do both, and where the difficulty is one it can even be a success and a
one.  But faces that are at least one are only ever ones less often when they get better, so that
scores do not get worse.

## Dropping

Better faces are not dropped at the same places.  In ascending order they are, and in ascending
order they are better too (`forall₂_ascending`): if a face were above the one of its rank then there
would be too few faces below it.  So what is kept gets better as well.

* `net_le_net`, `net_nonneg`, `net_eq_zero_iff`: successes less ones.
* `Tallies`, `successes_eq`: dice with a score.
* `forall₂_ascending`, `forall₂_kept`: better faces in ascending order.
* `successes_monotone`.
-/

namespace DiceNotation.Dice

/-! ## Successes less ones -/

section Net

variable {s s' o o' : Int}

theorem net_le_net (hle : s ≤ s') (hge : o' ≤ o) : net s o ≤ net s' o' := by
  unfold net
  split <;> split <;> omega

theorem net_nonneg (hs : 0 < s) : 0 ≤ net s o := by
  unfold net
  split <;> omega

theorem net_eq_zero_iff (hs : 0 < s) : net s o = 0 ↔ s ≤ o := by
  unfold net
  split <;> omega

theorem natAbs_net_le {n : Nat} (hs : 0 ≤ s) (ho : 0 ≤ o) (hsn : s ≤ n) (hon : o ≤ n) :
    (net s o).natAbs ≤ n := by
  unfold net
  split <;> omega

end Net

/-! ## Scores -/

/-- How many faces reach a difficulty. -/
def reaching (k : Int) (faces : List Int) : Nat := faces.countP fun face => decide (k ≤ face)

/-- How many ones count against the successes. -/
def against (d : Dice) : Nat := if d.spec.oneBehaviour then d.faces.count 1 else 0

/-- Dice that are not taken away and have a difficulty, and no more faces than can be counted. -/
structure Tallies (d : Dice) (k : Int) : Prop where
  sign_eq : d.sign = 1
  difficulty_eq : d.spec.difficulty = some k
  length_le : (d.faces.length : Int) ≤ Whole.highest

theorem reaching_pos_iff {k : Int} {faces : List Int} :
    0 < reaching k faces ↔ ∃ face ∈ faces, k ≤ face := by
  simp [reaching, List.countP_pos_iff]

theorem against_le (d : Dice) : d.against ≤ d.faces.length := by
  unfold against
  split
  · exact List.count_le_length
  · exact Nat.zero_le _

/-- **A score is the successes less the ones**, which is always a whole number. -/
theorem Tallies.successes_eq {d : Dice} {k : Int} (h : d.Tallies k) :
    d.successes = .ok (some (net (reaching k d.faces) d.against)) := by
  have hreaching : reaching k d.faces ≤ d.faces.length := List.countP_le_length
  have hagainst := d.against_le
  have hnet := natAbs_net_le (n := d.faces.length) (Int.natCast_nonneg (reaching k d.faces))
    (Int.natCast_nonneg d.against) (by omega) (by omega)
  have hfits : Whole.fits (net (reaching k d.faces) d.against * d.sign) = true := by
    have hlength := h.length_le
    rw [h.sign_eq, Int.mul_one, Whole.fits_iff]
    unfold Whole.lowest Whole.highest at *
    omega
  have hsigned := signed_eq_ok_iff.mpr ⟨hfits, rfl⟩
  rw [h.sign_eq, Int.mul_one] at hsigned
  simp only [successes, h.difficulty_eq]
  show d.signed? (some (net (reaching k d.faces) d.against)) = _
  rw [signed?_some, hsigned]
  rfl

/-! ## Better faces -/

/-- What holds of an entry only if something holds of the one that it is related to holds of no more
entries. -/
theorem countP_le_of_forall₂ {α β : Type} {R : α → β → Prop} {p : α → Bool} {q : β → Bool}
    (hR : ∀ a b, R a b → p a = true → q b = true) {l : List α} {l' : List β}
    (h : List.Forall₂ R l l') : l.countP p ≤ l'.countP q := by
  induction h with
  | nil => exact Nat.le_refl _
  | @cons a b l l' hab _ ih =>
    have hpq := hR a b hab
    rw [List.countP_cons, List.countP_cons]
    split
    · next hp =>
      rw [if_pos (hpq hp)]
      omega
    · omega

/-- Better faces are better in ascending order. -/
theorem forall₂_ascending {faces faces' : List Int} (h : List.Forall₂ (· ≤ ·) faces faces') :
    List.Forall₂ (· ≤ ·) (ascending faces) (ascending faces') := by
  refine List.forall₂_iff_get.mpr ⟨by simp [h.length_eq], fun i hi hi' => ?_⟩
  simp only [List.get_eq_getElem]
  by_contra hlt
  -- the faces up to the lower one are below the higher one, and the other faces are not above these
  have hbelow := (ranked_ascending hi).below_lt
  have hupTo := (ranked_ascending hi').le_upTo
  have hcount := countP_le_of_forall₂
    (p := fun other => decide (other ≤ (ascending faces')[i]))
    (q := fun other => decide (other < (ascending faces)[i]))
    (fun a b (hba : b ≤ a) ha => by
      simp only [decide_eq_true_eq] at *
      omega) h.flip
  omega

/-- **What is kept of better faces is better**, though other ones may be dropped. -/
theorem forall₂_kept {faces faces' : List Int} (h : List.Forall₂ (· ≤ ·) faces faces')
    (rerolls : Int) :
    List.Forall₂ (· ≤ ·) (ascending (splitExtremes rerolls faces).1)
      (ascending (splitExtremes rerolls faces').1) := by
  have hlength := h.length_eq
  have hascending := forall₂_ascending h
  by_cases hall : faces.length ≤ rerolls.natAbs
  · have hnone (l : List Int) (hl : l.length ≤ rerolls.natAbs) :
        (splitExtremes rerolls l).1 = [] := by
      have hboth := length_splitExtremes rerolls l
      have hdropped := length_dropped rerolls l
      exact List.eq_nil_of_length_eq_zero (by omega)
    rw [hnone faces hall, hnone faces' (hlength ▸ hall)]
    exact forall₂_ascending .nil
  · rcases Int.lt_trichotomy rerolls 0 with hneg | rfl | hpos
    · obtain ⟨r, rfl⟩ : ∃ r : Nat, rerolls = -r := ⟨rerolls.natAbs, by omega⟩
      rw [← take_ascending (by omega) (by omega), ← take_ascending (by omega) (by omega), hlength]
      exact List.forall₂_take _ hascending
    · exact hascending
    · obtain ⟨r, rfl⟩ : ∃ r : Nat, rerolls = r := ⟨rerolls.natAbs, by omega⟩
      rw [← drop_ascending (by omega) (by omega), ← drop_ascending (by omega) (by omega)]
      exact List.forall₂_drop _ hascending

/-- The second dice are at least as good as the first. -/
structure Improves (d d' : Dice) : Prop where
  oneBehaviour_eq : d.spec.oneBehaviour = d'.spec.oneBehaviour
  faces_le : List.Forall₂ (· ≤ ·) (ascending d.faces) (ascending d'.faces)
  one_le : ∀ face ∈ d.faces, 1 ≤ face

namespace Improves

variable {d d' : Dice}

theorem reaching_le (h : Improves d d') {k k' : Int} (hk : k' ≤ k) :
    reaching k d.faces ≤ reaching k' d'.faces := by
  have hcount := countP_le_of_forall₂ (p := fun face => decide (k ≤ face))
    (q := fun face => decide (k' ≤ face)) (fun a b hab ha => by
      simp only [decide_eq_true_eq] at *
      omega) h.faces_le
  rwa [(ascending_perm d.faces).countP_eq, (ascending_perm d'.faces).countP_eq] at hcount

/-- A face that is at least one and not above a one is a one. -/
theorem against_le (h : Improves d d') : d'.against ≤ d.against := by
  have hone : ∀ face ∈ ascending d.faces, 1 ≤ face :=
    fun face hface => h.one_le face ((ascending_perm d.faces).subset hface)
  have hcount := countP_le_of_forall₂ (p := (· == (1 : Int))) (q := (· == (1 : Int)))
    (fun a b (hba : 1 ≤ b ∧ b ≤ a) ha => by
      simp only [beq_iff_eq] at *
      omega) ((List.forall₂_and_left _ _).mpr ⟨hone, h.faces_le⟩).flip
  rw [(ascending_perm d.faces).countP_eq, (ascending_perm d'.faces).countP_eq] at hcount
  unfold against
  rw [h.oneBehaviour_eq]
  split
  · exact hcount
  · exact Nat.le_refl 0

/-- **Better dice do not have a lower score**, and nor does a lower difficulty give one. -/
theorem exists_le (h : Improves d d') {k k' : Int} (hd : d.Tallies k) (hd' : d'.Tallies k')
    (hk : k' ≤ k) : ∃ x x', d.successes = .ok (some x) ∧ d'.successes = .ok (some x') ∧ x ≤ x' :=
  ⟨_, _, hd.successes_eq, hd'.successes_eq, net_le_net
    (Int.ofNat_le.mpr (h.reaching_le hk)) (Int.ofNat_le.mpr h.against_le)⟩

end Improves

/-! ## Faces before any are dropped -/

section Settled

variable {code : Text} {spec : Spec} {k : Int} {faces faces' : List Int}

theorem tallies_ofFaces (hk : spec.difficulty = some k) (hsign : signOf spec.amount = 1)
    (hlength : (faces.length : Int) ≤ Whole.highest) : (ofFaces code spec faces).Tallies k := by
  have hkept : (ofFaces code spec faces).faces.length ≤ faces.length := by
    rw [← (settle_perm code spec faces (signOf spec.amount) 0 []).length_eq, List.length_append]
    exact Nat.le_add_right _ _
  exact ⟨hsign, hk, by omega⟩

theorem improves_ofFaces (hone : ∀ face ∈ faces, 1 ≤ face)
    (hfaces : List.Forall₂ (· ≤ ·) faces faces') (difficulty : Option Int) :
    Improves (ofFaces code spec faces) (ofFaces code { spec with difficulty } faces') where
  oneBehaviour_eq := rfl
  faces_le := by
    have hkept := faces_settle_perm code spec faces (signOf spec.amount) 0 []
    have hkept' := faces_settle_perm code { spec with difficulty } faces' (signOf spec.amount) 0 []
    rw [ofFaces, ofFaces, ascending_congr hkept, ascending_congr hkept']
    exact forall₂_kept hfaces spec.rerolls
  one_le face hface := hone face ((settle_perm code spec faces (signOf spec.amount) 0 []).subset
    (List.mem_append_left _ hface))

end Settled

/-- **Scores are monotone.**  Dice whose faces are at least one do not get a lower score when each
face is replaced by one that is at least as high, or the difficulty by one that is at least as low.
The same holds of the faces from which some are still to be dropped.  Where a face succeeds the
score is not below zero, and it is zero exactly if ones count and are at least as many as the
successes. -/
theorem successes_monotone :
    (∀ (d d' : Dice) (k k' : Int), d.Tallies k → d'.Tallies k' →
      d.spec.oneBehaviour = d'.spec.oneBehaviour → k' ≤ k → (∀ face ∈ d.faces, 1 ≤ face) →
      List.Forall₂ (· ≤ ·) d.faces d'.faces →
      ∃ x x', d.successes = .ok (some x) ∧ d'.successes = .ok (some x') ∧ x ≤ x') ∧
    (∀ (code : Text) (spec : Spec) (k k' : Int) (faces faces' : List Int),
      spec.difficulty = some k → signOf spec.amount = 1 → k' ≤ k →
      (faces.length : Int) ≤ Whole.highest → (∀ face ∈ faces, 1 ≤ face) →
      List.Forall₂ (· ≤ ·) faces faces' →
      ∃ x x', (ofFaces code spec faces).successes = .ok (some x) ∧
        (ofFaces code { spec with difficulty := some k' } faces').successes = .ok (some x') ∧
        x ≤ x') ∧
    ∀ (d : Dice) (k : Int), d.Tallies k → (∃ face ∈ d.faces, k ≤ face) →
      ∃ x, d.successes = .ok (some x) ∧ 0 ≤ x ∧
        (x = 0 ↔ d.spec.oneBehaviour = true ∧ reaching k d.faces ≤ d.faces.count 1) := by
  refine ⟨fun d d' k k' hd hd' hrule hk hone hfaces => ?_,
    fun code spec k k' faces faces' hdifficulty hsign hk hlength hone hfaces => ?_,
    fun d k hd hreached => ?_⟩
  · have hbetter : Improves d d' := ⟨hrule, forall₂_ascending hfaces, hone⟩
    exact hbetter.exists_le hd hd' hk
  · have hlength' : (faces'.length : Int) ≤ Whole.highest := hfaces.length_eq ▸ hlength
    exact (improves_ofFaces hone hfaces (some k')).exists_le
      (tallies_ofFaces hdifficulty hsign hlength) (tallies_ofFaces rfl hsign hlength') hk
  · have hpos : (0 : Int) < reaching k d.faces := Int.ofNat_lt.mpr (reaching_pos_iff.mpr hreached)
    refine ⟨_, hd.successes_eq, net_nonneg hpos, ?_⟩
    rw [net_eq_zero_iff hpos, against]
    split
    · next hrule => simp [hrule]
    · next hrule => simp [hrule]; omega

/-- Two ones cancel a nine; when one of them becomes a seven they do not, and dropping the lowest of
the three faces makes no exception. -/
theorem successes_monotone_of_three :
    let spec : Spec :=
      { amount := .count 3, sides := 10, difficulty := some 6, oneBehaviour := true }
    let d := ofFaces [] spec [1, 1, 9]
    let d' := ofFaces [] spec [1, 7, 9]
    d.Tallies 6 ∧ d'.Tallies 6 ∧ (∀ face ∈ d.faces, 1 ≤ face) ∧
    List.Forall₂ (· ≤ ·) d.faces d'.faces ∧ d.successes = .ok (some 0) ∧
    d'.successes = .ok (some 1) ∧
    (∃ x x', d.successes = .ok (some x) ∧ d'.successes = .ok (some x') ∧ x ≤ x') ∧
    (∃ x x', (ofFaces [] { spec with rerolls := 1 } [1, 1, 9]).successes = .ok (some x) ∧
      (ofFaces [] { spec with rerolls := 1, difficulty := some 5 } [1, 7, 9]).successes =
        .ok (some x') ∧ x ≤ x') ∧
    ∃ x, d.successes = .ok (some x) ∧ 0 ≤ x := by
  intro spec d d'
  have hd : d.Tallies 6 := ⟨rfl, rfl, by decide⟩
  have hd' : d'.Tallies 6 := ⟨rfl, rfl, by decide⟩
  have hone : ∀ face ∈ d.faces, 1 ≤ face := by decide
  have hfaces : List.Forall₂ (· ≤ ·) ([1, 1, 9] : List Int) [1, 7, 9] := by decide
  obtain ⟨hmonotone, hdropping, hbotch⟩ := successes_monotone
  obtain ⟨x, hx, hnonneg, -⟩ := hbotch d 6 hd ⟨9, by decide⟩
  exact ⟨hd, hd', hone, hfaces, by decide, by decide,
    hmonotone d d' 6 6 hd hd' rfl (Int.le_refl 6) hone hfaces,
    hdropping [] { spec with rerolls := 1 } 6 5 _ _ rfl rfl (by decide) (by decide) (by decide)
      hfaces, x, hx, hnonneg⟩

end DiceNotation.Dice
