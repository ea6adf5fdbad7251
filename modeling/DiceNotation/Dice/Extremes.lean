/-!
# Dropping the extreme faces

Faces are dropped from one end of their order, lowest first or highest first.  Of equal faces the
one that was rolled first is dropped first, so the order in which faces go is an order of
*places*: a place is a face with its index, and no two places are equal in it.

The places that go are the first of the sorted places.  What is kept and what is dropped both stay
in the order in which they were rolled.

* `goesBefore`: the order of places.
* `splitExtremes`: the faces that are kept and those that are dropped, with
  `length_splitExtremes` (nothing is lost).
-/

namespace DiceNotation.Dice

/-- Whether the first of two places goes before the second, or is the second. -/
def goesBefore (highest : Bool) (a b : Int × Nat) : Bool :=
  if a.1 = b.1 then decide (a.2 ≤ b.2)
  else if highest then decide (b.1 < a.1)
  else decide (a.1 < b.1)

/-- The order of places is transitive. -/
theorem goesBefore_trans (highest : Bool) (a b c : Int × Nat) :
    goesBefore highest a b = true → goesBefore highest b c = true →
      goesBefore highest a c = true := by
  unfold goesBefore
  cases highest <;> intro h₁ h₂ <;> split at h₁ <;> split at h₂ <;> split <;> simp_all <;> omega

/-- Any two places are in order one way or the other. -/
theorem goesBefore_total (highest : Bool) (a b : Int × Nat) :
    (goesBefore highest a b || goesBefore highest b a) = true := by
  unfold goesBefore
  rw [Bool.or_eq_true]
  by_cases h : a.1 = b.1
  · rw [if_pos h, if_pos h.symm, decide_eq_true_eq, decide_eq_true_eq]
    exact Nat.le_total a.2 b.2
  · rw [if_neg h, if_neg (Ne.symm h)]
    cases highest <;> simp <;> omega

/-- The faces with their indices, in the order in which they go. -/
def inOrder (highest : Bool) (faces : List Int) : List (Int × Nat) :=
  faces.zipIdx.mergeSort (goesBefore highest)

/-- The faces that are kept and those that are dropped, when `rerolls` lowest ones go, or so many
highest ones if it is negative. -/
def splitExtremes (rerolls : Int) (faces : List Int) : List Int × List Int :=
  if rerolls = 0 then (faces, [])
  else
    let going := (inOrder (decide (rerolls < 0)) faces).take rerolls.natAbs
    let dropped := faces.zipIdx.filter fun place => going.contains place
    let kept := faces.zipIdx.filter fun place => !going.contains place
    (kept.map Prod.fst, dropped.map Prod.fst)

@[simp] theorem splitExtremes_zero (faces : List Int) : splitExtremes 0 faces = (faces, []) := rfl

/-- A condition divides a list in two. -/
theorem length_filter_add_length_filter_not {α : Type} (p : α → Bool) (l : List α) :
    (l.filter fun a => !p a).length + (l.filter p).length = l.length := by
  induction l with
  | nil => rfl
  | cons a l ih => cases h : p a <;> simp [h] <;> omega

/-- Every face is kept or dropped. -/
theorem length_splitExtremes (rerolls : Int) (faces : List Int) :
    (splitExtremes rerolls faces).1.length + (splitExtremes rerolls faces).2.length =
      faces.length := by
  by_cases h : rerolls = 0
  · rw [h, splitExtremes_zero, List.length_nil, Nat.add_zero]
  · unfold splitExtremes
    rw [if_neg h]
    show (List.map Prod.fst (List.filter _ _)).length + (List.map Prod.fst (List.filter _ _)).length
      = _
    rw [List.length_map, List.length_map, length_filter_add_length_filter_not, List.length_zipIdx]

end DiceNotation.Dice
