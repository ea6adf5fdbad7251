import DiceNotation.Dice.Basic
import Mathlib

/-!
# Which faces are dropped

Faces are dropped by position.  What goes and what stays are the faces at complementary positions,
each in the order in which they were rolled; as many go as should, or all of them; no face that
stays is more extreme than one that goes; and of equal faces the ones that were rolled first go
first.

These conditions leave no choice (`Parted.gone_eq`).  If two sets of positions satisfied them, there
would be a position in the first and not in the second, and one in the second and not in the first.
Either set says that the face of its own position is at least as extreme, so the faces would be
equal, and then each of the two positions would have to come before the other.

* `facesAt`: the faces at some positions.
* `Parted`: what it means to part faces, with `parted_splitExtremes`.
* `splitExtremes_perm`, `length_dropped`, `settle_perm`: what dropping leaves.
* `splitExtremes_eq_iff`: dropping is parting.
-/

namespace DiceNotation.Dice

/-! ## Places in order -/

theorem nodup_zipIdx {α : Type} (l : List α) : l.zipIdx.Nodup :=
  List.Nodup.of_map Prod.snd (List.nodup_zipIdx_map_snd l)

theorem inOrder_perm (highest : Bool) (faces : List Int) :
    (inOrder highest faces).Perm faces.zipIdx := List.mergeSort_perm _ _

theorem pairwise_inOrder (highest : Bool) (faces : List Int) :
    (inOrder highest faces).Pairwise fun a b => goesBefore highest a b = true :=
  List.pairwise_mergeSort (goesBefore_trans highest) (goesBefore_total highest) _

/-- No place goes before one with a lower face when the lowest go. -/
theorem le_of_goesBefore {a b : Int × Nat} (h : goesBefore false a b = true) : a.1 ≤ b.1 := by
  unfold goesBefore at h
  by_cases heq : a.1 = b.1
  · exact Int.le_of_eq heq
  · rw [if_neg heq, if_neg Bool.false_ne_true, decide_eq_true_eq] at h
    exact Int.le_of_lt h

/-- No place goes before one with a higher face when the highest go. -/
theorem ge_of_goesBefore {a b : Int × Nat} (h : goesBefore true a b = true) : b.1 ≤ a.1 := by
  unfold goesBefore at h
  by_cases heq : a.1 = b.1
  · exact Int.le_of_eq heq.symm
  · rw [if_neg heq, if_pos rfl, decide_eq_true_eq] at h
    exact Int.le_of_lt h

/-- Places with the same face go in the order in which they were rolled. -/
theorem index_le_of_goesBefore {highest : Bool} {a b : Int × Nat}
    (h : goesBefore highest a b = true) (heq : a.1 = b.1) : a.2 ≤ b.2 := by
  rw [goesBefore, if_pos heq, decide_eq_true_eq] at h
  exact h

/-- The places that go. -/
def going (rerolls : Int) (faces : List Int) : List (Int × Nat) :=
  (inOrder (decide (rerolls < 0)) faces).take rerolls.natAbs

theorem mem_zipIdx_of_mem_going {rerolls : Int} {faces : List Int} {place : Int × Nat}
    (h : place ∈ going rerolls faces) : place ∈ faces.zipIdx :=
  (inOrder_perm _ faces).subset (List.mem_of_mem_take h)

theorem nodup_going (rerolls : Int) (faces : List Int) : (going rerolls faces).Nodup :=
  ((inOrder_perm _ faces).nodup_iff.mpr (nodup_zipIdx faces)).sublist (List.take_sublist _ _)

/-- What goes goes before what stays. -/
theorem goesBefore_of_mem_going {rerolls : Int} {faces : List Int} {a b : Int × Nat}
    (ha : a ∈ going rerolls faces) (hb : b ∈ faces.zipIdx) (hb' : b ∉ going rerolls faces) :
    goesBefore (decide (rerolls < 0)) a b = true := by
  have hsorted := pairwise_inOrder (decide (rerolls < 0)) faces
  rw [← List.take_append_drop rerolls.natAbs (inOrder _ faces), List.pairwise_append] at hsorted
  refine hsorted.2.2 a ha b ?_
  have hmem := (inOrder_perm (decide (rerolls < 0)) faces).mem_iff.mpr hb
  rw [← List.take_append_drop rerolls.natAbs (inOrder _ faces), List.mem_append] at hmem
  exact hmem.resolve_left hb'

/-- Faces are divided by whether their places go, also if none is to go. -/
theorem splitExtremes_eq (rerolls : Int) (faces : List Int) :
    splitExtremes rerolls faces =
      ((faces.zipIdx.filter fun place => !(going rerolls faces).contains place).map Prod.fst,
        (faces.zipIdx.filter fun place => (going rerolls faces).contains place).map Prod.fst) := by
  unfold splitExtremes
  split
  · next h =>
    have hnone : going rerolls faces = [] := by rw [going, h]; rfl
    simp [hnone]
  · rfl

/-! ## What dropping leaves -/

/-- Every face is kept or dropped, and none is changed. -/
theorem splitExtremes_perm (rerolls : Int) (faces : List Int) :
    ((splitExtremes rerolls faces).1 ++ (splitExtremes rerolls faces).2).Perm faces := by
  rw [splitExtremes_eq, ← List.map_append]
  have hplaces := (List.filter_append_perm (fun place => (going rerolls faces).contains place)
    faces.zipIdx).map Prod.fst
  rw [List.zipIdx_map_fst] at hplaces
  exact ((List.perm_append_comm).map Prod.fst).trans hplaces

/-- **As many faces are dropped as should be**, or all if there are not enough. -/
theorem length_dropped (rerolls : Int) (faces : List Int) :
    (splitExtremes rerolls faces).2.length = Min.min rerolls.natAbs faces.length := by
  -- the places that go are a part of the places, so filtering by them finds each of them
  have hperm : (faces.zipIdx.filter fun place => (going rerolls faces).contains place).Perm
      (going rerolls faces) := by
    refine (List.perm_ext_iff_of_nodup ((nodup_zipIdx faces).filter _) (nodup_going _ _)).mpr
      fun place => ?_
    rw [List.mem_filter, List.contains_iff_mem]
    exact ⟨And.right, fun hplace => ⟨mem_zipIdx_of_mem_going hplace, hplace⟩⟩
  rw [splitExtremes_eq, List.length_map, hperm.length_eq, going, List.length_take,
    (inOrder_perm _ faces).length_eq, List.length_zipIdx]

/-- The faces of settled dice are those that are kept, in some order. -/
theorem faces_settle_perm (code : Text) (spec : Spec) (faces : List Int) (sign : Int)
    (explosions : Nat) (log : List String) :
    (settle code spec faces sign explosions log).faces.Perm
      (splitExtremes spec.rerolls faces).1 := by
  show (if spec.sort then ascending _ else _).Perm _
  split
  · exact List.mergeSort_perm _ _
  · exact List.Perm.refl _

/-- Settling keeps all faces. -/
theorem settle_perm (code : Text) (spec : Spec) (faces : List Int) (sign : Int) (explosions : Nat)
    (log : List String) :
    ((settle code spec faces sign explosions log).faces ++
      (settle code spec faces sign explosions log).dropped).Perm faces :=
  ((faces_settle_perm code spec faces sign explosions log).append_right _).trans
    (splitExtremes_perm spec.rerolls faces)

/-! ## Faces at positions -/

/-- The faces at some positions, in their order. -/
def facesAt (faces : List Int) (positions : Finset (Fin faces.length)) : List Int :=
  ((List.finRange faces.length).filter fun i => decide (i ∈ positions)).map fun i => faces[i]

theorem mem_facesAt {faces : List Int} {positions : Finset (Fin faces.length)} {face : Int} :
    face ∈ facesAt faces positions ↔ ∃ i ∈ positions, faces[i] = face := by
  simp [facesAt]

theorem length_facesAt (faces : List Int) (positions : Finset (Fin faces.length)) :
    (facesAt faces positions).length = positions.card := by
  have hnodup : ((List.finRange faces.length).filter fun i => decide (i ∈ positions)).Nodup :=
    (List.nodup_finRange _).filter _
  rw [facesAt, List.length_map, ← List.toFinset_card_of_nodup hnodup]
  congr 1
  ext i
  simp

theorem zipIdx_eq_map_finRange (faces : List Int) :
    faces.zipIdx = (List.finRange faces.length).map fun i => (faces[i], i.val) :=
  List.ext_getElem (by simp) fun i _ _ => by simp

/-- Faces that are divided by their places are divided by their positions. -/
theorem map_fst_filter_zipIdx (faces : List Int) (p : Int × Nat → Bool) :
    (faces.zipIdx.filter p).map Prod.fst =
      facesAt faces (Finset.univ.filter fun i => p (faces[i], i.val) = true) := by
  rw [zipIdx_eq_map_finRange, List.filter_map, List.map_map, facesAt]
  congr 1
  refine List.filter_congr fun i _ => ?_
  simp

/-! ## Parting -/

/-- What is kept of some faces and what is dropped of them, when the faces at some positions go. -/
structure Parted (rerolls : Int) (faces kept dropped : List Int)
    (gone : Finset (Fin faces.length)) : Prop where
  kept_eq : kept = facesAt faces goneᶜ
  dropped_eq : dropped = facesAt faces gone
  /-- As many go as should, or all of them. -/
  length_dropped : dropped.length = Min.min rerolls.natAbs faces.length
  /-- The lowest faces go. -/
  lowest : 0 < rerolls → ∀ face ∈ dropped, ∀ other ∈ kept, face ≤ other
  /-- Or the highest ones go. -/
  highest : rerolls < 0 → ∀ face ∈ dropped, ∀ other ∈ kept, other ≤ face
  /-- Of equal faces the first ones go. -/
  first : ∀ i ∈ gone, ∀ j ∉ gone, faces[i] = faces[j] → i < j

/-- The positions of the places that go. -/
def gone (rerolls : Int) (faces : List Int) : Finset (Fin faces.length) :=
  Finset.univ.filter fun i => (faces[i], i.val) ∈ going rerolls faces

theorem splitExtremes_eq_facesAt (rerolls : Int) (faces : List Int) :
    splitExtremes rerolls faces =
      (facesAt faces (gone rerolls faces)ᶜ, facesAt faces (gone rerolls faces)) := by
  rw [splitExtremes_eq, map_fst_filter_zipIdx, map_fst_filter_zipIdx]
  congr 2
  · ext i
    simp [gone]
  · ext i
    simp [gone]

theorem goesBefore_of_mem_gone {rerolls : Int} {faces : List Int} {i j : Fin faces.length}
    (hi : i ∈ gone rerolls faces) (hj : j ∉ gone rerolls faces) :
    goesBefore (decide (rerolls < 0)) (faces[i], i.val) (faces[j], j.val) = true := by
  rw [gone, Finset.mem_filter_univ] at hi hj
  refine goesBefore_of_mem_going hi ?_ hj
  rw [zipIdx_eq_map_finRange]
  exact List.mem_map_of_mem (List.mem_finRange j)

/-- A face that is dropped is at a place that goes before that of one that is kept. -/
theorem exists_goesBefore {rerolls : Int} {faces : List Int} {face other : Int}
    (hface : face ∈ (splitExtremes rerolls faces).2)
    (hother : other ∈ (splitExtremes rerolls faces).1) :
    ∃ i j : Nat, goesBefore (decide (rerolls < 0)) (face, i) (other, j) = true := by
  rw [splitExtremes_eq_facesAt] at hface hother
  obtain ⟨i, hi, rfl⟩ := mem_facesAt.mp hface
  obtain ⟨j, hj, rfl⟩ := mem_facesAt.mp hother
  exact ⟨i, j, goesBefore_of_mem_gone hi (Finset.mem_compl.mp hj)⟩

/-- **Dropping parts the faces.** -/
theorem parted_splitExtremes (rerolls : Int) (faces : List Int) :
    Parted rerolls faces (splitExtremes rerolls faces).1 (splitExtremes rerolls faces).2
      (gone rerolls faces) := by
  have heq := splitExtremes_eq_facesAt rerolls faces
  refine ⟨by rw [heq], by rw [heq], length_dropped rerolls faces, ?_, ?_, ?_⟩
  · intro hpos face hface other hother
    obtain ⟨i, j, hbefore⟩ := exists_goesBefore hface hother
    rw [decide_eq_false (Int.not_lt.mpr (Int.le_of_lt hpos))] at hbefore
    exact le_of_goesBefore hbefore
  · intro hneg face hface other hother
    obtain ⟨i, j, hbefore⟩ := exists_goesBefore hface hother
    rw [decide_eq_true hneg] at hbefore
    exact ge_of_goesBefore hbefore
  · intro i hi j hj hface
    refine lt_of_le_of_ne (index_le_of_goesBefore (goesBefore_of_mem_gone hi hj) hface) ?_
    rintro rfl
    exact hj hi

namespace Parted

variable {rerolls : Int} {faces kept dropped kept' dropped' : List Int}
  {gone gone' : Finset (Fin faces.length)}

theorem card_gone (h : Parted rerolls faces kept dropped gone) :
    gone.card = Min.min rerolls.natAbs faces.length := by
  rw [← h.length_dropped, h.dropped_eq, length_facesAt]

/-- A face that goes is at least as extreme as one that stays. -/
theorem face_order (h : Parted rerolls faces kept dropped gone) {i j : Fin faces.length}
    (hi : i ∈ gone) (hj : j ∉ gone) :
    (0 < rerolls → faces[i] ≤ faces[j]) ∧ (rerolls < 0 → faces[j] ≤ faces[i]) := by
  have hi' : faces[i] ∈ dropped := by
    rw [h.dropped_eq]
    exact mem_facesAt.mpr ⟨i, hi, rfl⟩
  have hj' : faces[j] ∈ kept := by
    rw [h.kept_eq]
    exact mem_facesAt.mpr ⟨j, Finset.mem_compl.mpr hj, rfl⟩
  exact ⟨fun hpos => h.lowest hpos _ hi' _ hj', fun hneg => h.highest hneg _ hi' _ hj'⟩

/-- **Faces are parted in one way only.** -/
theorem gone_eq (h : Parted rerolls faces kept dropped gone)
    (h' : Parted rerolls faces kept' dropped' gone') : gone = gone' := by
  have hcard : gone.card = gone'.card := h.card_gone.trans h'.card_gone.symm
  refine Finset.eq_of_subset_of_card_le (fun i hi => ?_) hcard.ge
  by_contra hi'
  -- as many go on either side, so another position goes in place of `i`
  obtain ⟨j, hj', hj⟩ : ∃ j ∈ gone', j ∉ gone := by
    by_contra hnone
    push Not at hnone
    exact hi' (Finset.eq_of_subset_of_card_le hnone hcard.le ▸ hi)
  have hpos : rerolls ≠ 0 := by
    rintro rfl
    have hzero : gone.card = 0 := h.card_gone.trans (Nat.zero_min _)
    rw [Finset.card_eq_zero.mp hzero] at hi
    exact Finset.notMem_empty i hi
  have hij := h.face_order hi hj
  have hji := h'.face_order hj' hi'
  have hface : faces[i] = faces[j] := by
    rcases Int.lt_or_gt_of_ne hpos with hneg | hpos
    · exact Int.le_antisymm (hji.2 hneg) (hij.2 hneg)
    · exact Int.le_antisymm (hij.1 hpos) (hji.1 hpos)
  exact lt_asymm (h.first i hi j hj hface) (h'.first j hj' i hi' hface.symm)

end Parted

/-- **Dropping removes exactly the extreme faces**: the faces that are kept and those that are
dropped are the parts of the faces at complementary positions, and the positions are the only ones
that hold as many faces as should go, hold the most extreme faces, and of equal faces the first. -/
theorem splitExtremes_eq_iff {rerolls : Int} {faces kept dropped : List Int} :
    splitExtremes rerolls faces = (kept, dropped) ↔
      ∃ gone, Parted rerolls faces kept dropped gone := by
  have hparted := parted_splitExtremes rerolls faces
  constructor
  · intro h
    rw [h] at hparted
    exact ⟨_, hparted⟩
  · rintro ⟨gone, h⟩
    rw [h.kept_eq, h.dropped_eq, h.gone_eq hparted, ← hparted.kept_eq, ← hparted.dropped_eq]

/-- Of three fives the first two go. -/
example : splitExtremes (-2) [3, 5, 1, 5, 3, 5] = ([3, 1, 3, 5], [5, 5]) := by cbv

end DiceNotation.Dice
