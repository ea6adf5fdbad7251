import DiceNotation.Proofs.Dice.Dropping
import DiceNotation.Proofs.Dice.Sums

/-!
# Faces by rank

The `k`-th smallest of some faces is found by counting: fewer than `k` faces are below it, and at
least `k` are not above it (`Ranked`).  For faces that repeat this is one value for several `k`, and
for no `k` are there two.  Selecting faces looks them up in the ascending order instead, and the
values at its places are the ones that counting finds (`ranked_ascending`).

The ascending order is also what dropping and selecting have in common.  The faces that are kept are
in general not a part of the faces that can be cut off; but in ascending order they are, since no
face that is kept is beyond one that is dropped (`drop_ascending`, `take_ascending`).  So the sum of
what is kept is the sum of the highest or lowest ranks.

* `Ranked`, `Ranked.unique`, `ranked_ascending`.
* `RankValues`, `RankValues.unique`, `faceAt`, `select_eq`: what ranks stand for.
* `ranksFrom`, `map_faceAt_ranksFrom`: ranks in a row.
* `dropping`, `drop_ascending`, `take_ascending`: dice of which the extreme faces are dropped.
* `Agrees`, `selectors_agree`: selecting, dropping and the other reductions.
-/

namespace DiceNotation.Dice

/-! ## Ascending order -/

theorem ascending_perm (faces : List Int) : (ascending faces).Perm faces := List.mergeSort_perm _ _

theorem pairwise_ascending (faces : List Int) : (ascending faces).Pairwise (· ≤ ·) := by
  have htrans (a b c : Int) (hab : decide (a ≤ b) = true) (hbc : decide (b ≤ c) = true) :
      decide (a ≤ c) = true :=
    decide_eq_true (Int.le_trans (of_decide_eq_true hab) (of_decide_eq_true hbc))
  have htotal (a b : Int) : (decide (a ≤ b) || decide (b ≤ a)) = true := by
    simpa using Int.le_total a b
  exact (List.pairwise_mergeSort htrans htotal faces).imp fun h => of_decide_eq_true h

@[simp] theorem length_ascending (faces : List Int) : (ascending faces).length = faces.length :=
  (ascending_perm faces).length_eq

/-- There is one ascending order of some faces. -/
theorem eq_ascending_of_perm {sorted faces : List Int} (hperm : sorted.Perm faces)
    (hsorted : sorted.Pairwise (· ≤ ·)) : sorted = ascending faces :=
  List.Perm.eq_of_pairwise (fun _ _ _ _ hab hba => Int.le_antisymm hab hba) hsorted
    (pairwise_ascending faces) (hperm.trans (ascending_perm faces).symm)

theorem ascending_congr {faces faces' : List Int} (h : faces.Perm faces') :
    ascending faces = ascending faces' :=
  eq_ascending_of_perm ((ascending_perm faces).trans h) (pairwise_ascending faces)

/-! ## The face of a rank -/

/-- The `k`-th smallest of some faces. -/
structure Ranked (faces : List Int) (k : Nat) (face : Int) : Prop where
  mem : face ∈ faces
  below_lt : faces.countP (fun other => decide (other < face)) < k
  le_upTo : k ≤ faces.countP fun other => decide (other ≤ face)

/-- No two faces have the same rank. -/
theorem Ranked.unique {faces : List Int} {k : Nat} {face face' : Int} (h : Ranked faces k face)
    (h' : Ranked faces k face') : face = face' := by
  -- all faces up to the lower of two values are below the other
  have hle {a b : Int} (ha : Ranked faces k a) (hb : Ranked faces k b) : b ≤ a := by
    by_contra hlt
    have hcount : faces.countP (fun other => decide (other ≤ a)) ≤
        faces.countP fun other => decide (other < b) :=
      List.countP_mono_left fun other _ hother => by
        simp only [decide_eq_true_eq] at *
        omega
    have := ha.le_upTo
    have := hb.below_lt
    omega
  exact Int.le_antisymm (hle h' h) (hle h h')

/-- What an ascending list has at a place is of the rank of the place. -/
theorem ranked_of_pairwise {before after : List Int} {face : Int}
    (h : (before ++ face :: after).Pairwise (· ≤ ·)) :
    Ranked (before ++ face :: after) (before.length + 1) face := by
  rw [List.pairwise_append, List.pairwise_cons] at h
  obtain ⟨-, ⟨hafter, -⟩, hbefore⟩ := h
  -- nothing from this place on is below its face, and nothing up to it is above
  have hbelow : (face :: after).countP (fun other => decide (other < face)) = 0 := by
    refine List.countP_eq_zero.mpr fun other hother => ?_
    rw [decide_eq_true_iff, Int.not_lt]
    rcases List.mem_cons.mp hother with rfl | hother
    · exact Int.le_refl _
    · exact hafter other hother
  have hupTo : before.countP (fun other => decide (other ≤ face)) = before.length :=
    List.countP_eq_length.mpr fun other hother =>
      decide_eq_true (hbefore other hother face List.mem_cons_self)
  refine ⟨List.mem_append_right _ List.mem_cons_self, ?_, ?_⟩
  · rw [List.countP_append, hbelow]
    exact Nat.lt_succ_of_le List.countP_le_length
  · rw [List.countP_append, hupTo, List.countP_cons, if_pos (decide_eq_true (Int.le_refl face))]
    omega

theorem Ranked.of_perm {faces faces' : List Int} (h : faces.Perm faces') {k : Nat} {face : Int}
    (hranked : Ranked faces k face) : Ranked faces' k face where
  mem := h.subset hranked.mem
  below_lt := h.countP_eq _ ▸ hranked.below_lt
  le_upTo := h.countP_eq _ ▸ hranked.le_upTo

/-- **The ascending order has the `k`-th smallest face at its `k`-th place.** -/
theorem ranked_ascending {faces : List Int} {i : Nat} (h : i < (ascending faces).length) :
    Ranked faces (i + 1) (ascending faces)[i] := by
  have hsplit : (ascending faces).take i ++ (ascending faces)[i] :: (ascending faces).drop (i + 1) =
      ascending faces := by
    rw [List.getElem_cons_drop, List.take_append_drop]
  have hranked := ranked_of_pairwise (hsplit.symm ▸ pairwise_ascending faces)
  rw [hsplit, List.length_take, Nat.min_eq_left (Nat.le_of_lt h)] at hranked
  exact hranked.of_perm (ascending_perm faces)

/-! ## What ranks stand for -/

/-- The values of ranks.  A rank stands for the face that is the smallest but so many, a rank past
the end for that of the end, and one below one for nothing. -/
structure RankValues (faces : List Int) (value : Int → Int) : Prop where
  nothing : ∀ rank < 1, value rank = 0
  ranked : ∀ rank, 1 ≤ rank → Ranked faces (Min.min rank.toNat faces.length) (value rank)

/-- Ranks have one value each. -/
theorem RankValues.unique {faces : List Int} {value value' : Int → Int}
    (h : RankValues faces value) (h' : RankValues faces value') : value = value' := by
  funext rank
  by_cases hrank : rank < 1
  · rw [h.nothing rank hrank, h'.nothing rank hrank]
  · exact (h.ranked rank (Int.not_lt.mp hrank)).unique (h'.ranked rank (Int.not_lt.mp hrank))

/-- What a rank stands for, found in the ascending order. -/
def faceAt (faces : List Int) (rank : Int) : Int :=
  if rank < 1 then 0 else (ascending faces).getD (Min.min rank.toNat faces.length - 1) 0

theorem faceAt_eq_getElem {faces : List Int} {i : Nat} (h : i < (ascending faces).length)
    {rank : Int} (hrank : Min.min rank.toNat faces.length = i + 1) :
    faceAt faces rank = (ascending faces)[i] := by
  have hpos : ¬ rank < 1 := by
    omega
  rw [faceAt, if_neg hpos, hrank, Nat.add_sub_cancel, List.getD_eq_getElem _ _ h]

/-- The place of a rank in the ascending order. -/
theorem exists_place {faces : List Int} (hne : faces ≠ []) {rank : Int} (hrank : 1 ≤ rank) :
    ∃ i, ∃ h : i < (ascending faces).length, Min.min rank.toNat faces.length = i + 1 ∧
      faceAt faces rank = (ascending faces)[i] := by
  have hpos := List.length_pos_iff.mpr hne
  have hlt : Min.min rank.toNat faces.length - 1 < (ascending faces).length := by
    rw [length_ascending]
    omega
  have hsucc : Min.min rank.toNat faces.length = Min.min rank.toNat faces.length - 1 + 1 := by
    omega
  exact ⟨_, hlt, hsucc, faceAt_eq_getElem hlt hsucc⟩

theorem rankValues_faceAt {faces : List Int} (hne : faces ≠ []) :
    RankValues faces (faceAt faces) where
  nothing rank hrank := if_pos hrank
  ranked rank hrank := by
    obtain ⟨i, hlt, hi, hface⟩ := exists_place hne hrank
    rw [hi, hface]
    exact ranked_ascending hlt

/-- A rank selects the face that it stands for, unless it is below one. -/
theorem atRanks_cons {faces : List Int} (hne : faces ≠ []) (rank : Int) (ranks : List Int) :
    atRanks (ascending faces) (rank :: ranks) =
      if rank < 1 then atRanks (ascending faces) ranks
      else faceAt faces rank :: atRanks (ascending faces) ranks := by
  have hlength := length_ascending faces
  by_cases hlow : rank < 1
  · rw [if_pos hlow]
    exact List.filterMap_cons_none (if_neg (by omega))
  · obtain ⟨i, hlt, hi, hface⟩ := exists_place hne (Int.not_lt.mp hlow)
    have hplace : (Min.min rank ((ascending faces).length : Int) - 1).toNat = i := by omega
    rw [if_neg hlow]
    refine List.filterMap_cons_some ((if_pos (by omega)).trans ?_)
    rw [hplace, List.getElem?_eq_getElem hlt, hface]

/-- Adding up the faces at some ranks is adding up what the ranks stand for. -/
theorem foldlM_atRanks {faces : List Int} (hne : faces ≠ []) (ranks : List Int) {start : Int}
    (hstart : Whole.fits start = true) :
    (atRanks (ascending faces) ranks).foldlM addFace start =
      (ranks.map (faceAt faces)).foldlM addFace start := by
  induction ranks generalizing start with
  | nil => rfl
  | cons rank ranks ih =>
    rw [atRanks_cons hne, List.map_cons, List.foldlM_cons]
    split
    · next hlow =>
      have hzero : addFace start (faceAt faces rank) = .ok start := by
        rw [faceAt, if_pos hlow, addFace_eq_ok_iff, Int.add_zero]
        exact ⟨hstart, rfl⟩
      rw [hzero]
      exact ih hstart
    · rw [List.foldlM_cons]
      cases hnext : addFace start (faceAt faces rank) with
      | error e => rfl
      | ok next =>
        obtain ⟨hfits, rfl⟩ := addFace_eq_ok_iff.mp hnext
        exact ih hfits

/-- **Selecting adds up what the ranks stand for.** -/
theorem select_eq {d : Dice} (hne : d.faces ≠ []) (ranks : List Int) :
    d.select ranks = d.total (ranks.map (faceAt d.faces)) := by
  rw [select, total, total, foldlM_atRanks hne ranks (by decide)]

/-! ## The ends -/

theorem min?_eq_faceAt {faces : List Int} (hne : faces ≠ []) :
    faces.min? = some (faceAt faces 1) := by
  have hpos := List.length_pos_iff.mpr hne
  have hranked := (rankValues_faceAt hne).ranked 1 (Int.le_refl 1)
  refine List.min?_eq_some_iff.mpr ⟨hranked.mem, fun other hother => ?_⟩
  have hnone : faces.countP (fun other => decide (other < faceAt faces 1)) = 0 := by
    have := hranked.below_lt
    omega
  simpa using List.countP_eq_zero.mp hnone other hother

theorem max?_eq_faceAt {faces : List Int} (hne : faces ≠ []) :
    faces.max? = some (faceAt faces faces.length) := by
  have hpos := List.length_pos_iff.mpr hne
  have hranked := (rankValues_faceAt hne).ranked faces.length (by omega)
  refine List.max?_eq_some_iff.mpr ⟨hranked.mem, fun other hother => ?_⟩
  have hall : faces.countP (fun other => decide (other ≤ faceAt faces faces.length)) =
      faces.length := by
    have := hranked.le_upTo
    have := List.countP_le_length (p := fun other => decide (other ≤ faceAt faces faces.length))
      (l := faces)
    omega
  simpa using List.countP_eq_length.mp hall other hother

/-- The total of one face is the face with the sign. -/
theorem total_singleton {d : Dice} {face : Int} (h : Whole.fits face = true) :
    d.total [face] = d.signed face := by
  have hadd : addFace 0 face = .ok face := addFace_eq_ok_iff.mpr (by simpa using h)
  rw [total, List.foldlM_cons, hadd]
  rfl

theorem signed?_some (d : Dice) (x : Int) : d.signed? (some x) = (d.signed x).map some := by
  rw [signed?]
  cases d.signed x with
  | error e => rfl
  | ok n => rfl

/-! ## Ranks in a row -/

/-- The ranks from one to another. -/
def ranksFrom (first last : Nat) : List Int := (List.range' first (last + 1 - first)).map Int.ofNat

/-- Ranks in a row stand for a part of the ascending order. -/
theorem map_faceAt_ranksFrom {faces : List Int} {first last : Nat} (h : last ≤ faces.length) :
    (ranksFrom (first + 1) last).map (faceAt faces) =
      ((ascending faces).take last).drop first := by
  have hlength := length_ascending faces
  refine List.ext_getElem (by simp [ranksFrom]; omega) fun i h₁ h₂ => ?_
  have hi : i < last - first := by simpa [ranksFrom] using h₁
  rw [List.getElem_map, List.getElem_drop, List.getElem_take]
  refine faceAt_eq_getElem (by omega) ?_
  simp only [ranksFrom, List.getElem_map, List.getElem_range', Int.ofNat_eq_natCast,
    Int.toNat_natCast]
  omega

/-! ## Dice of which the extreme faces are dropped -/

/-- The dice with the same faces, of which so many lowest ones are dropped, or highest ones if
`rerolls` is negative. -/
def dropping (d : Dice) (rerolls : Int) : Dice :=
  settle d.code { d.spec with rerolls } d.faces d.sign d.explosions d.log

theorem faces_dropping_perm (d : Dice) (rerolls : Int) :
    (d.dropping rerolls).faces.Perm (splitExtremes rerolls d.faces).1 :=
  faces_settle_perm _ _ _ _ _ _

/-- A face is left if fewer are dropped than there are. -/
theorem faces_dropping_ne_nil {d : Dice} {rerolls : Int} (h : rerolls.natAbs < d.faces.length) :
    (d.dropping rerolls).faces ≠ [] := by
  have hkept := (faces_dropping_perm d rerolls).length_eq
  have hall := length_splitExtremes rerolls d.faces
  have hdropped := length_dropped rerolls d.faces
  exact List.ne_nil_of_length_pos (by omega)

/-- Selecting does not depend on the order of the faces. -/
theorem select_congr {d d' : Dice} (hfaces : d.faces.Perm d'.faces) (hsign : d.sign = d'.sign)
    (ranks : List Int) : d.select ranks = d'.select ranks := by
  unfold select total signed
  rw [ascending_congr hfaces, hsign]

/-- Faces none of which is above any of others come before them in ascending order. -/
theorem ascending_append {low high : List Int} (h : ∀ a ∈ low, ∀ b ∈ high, a ≤ b) :
    ascending (low ++ high) = ascending low ++ ascending high := by
  refine (eq_ascending_of_perm ((ascending_perm low).append (ascending_perm high)) ?_).symm
  refine List.pairwise_append.mpr ⟨pairwise_ascending low, pairwise_ascending high, ?_⟩
  intro a ha b hb
  exact h a ((ascending_perm low).subset ha) b ((ascending_perm high).subset hb)

/-- When the lowest faces are dropped, what is kept is the end of the ascending order. -/
theorem drop_ascending {faces : List Int} {r : Nat} (hr : 0 < r) (hlt : r < faces.length) :
    (ascending faces).drop r = ascending (splitExtremes r faces).1 := by
  have hparted := parted_splitExtremes r faces
  have hlength : (ascending (splitExtremes r faces).2).length = r := by
    have := hparted.length_dropped
    rw [length_ascending]
    omega
  have hperm := List.perm_append_comm.trans (splitExtremes_perm r faces)
  rw [← ascending_congr hperm, ascending_append (hparted.lowest (by omega)),
    List.drop_left' hlength]

/-- When the highest faces are dropped, what is kept is the beginning of the ascending order. -/
theorem take_ascending {faces : List Int} {r : Nat} (hr : 0 < r) (hlt : r < faces.length) :
    (ascending faces).take (faces.length - r) = ascending (splitExtremes (-r) faces).1 := by
  have hparted := parted_splitExtremes (-r) faces
  have hlength : (ascending (splitExtremes (-r) faces).1).length = faces.length - r := by
    have := hparted.length_dropped
    have := length_splitExtremes (-r) faces
    rw [length_ascending]
    omega
  rw [← ascending_congr (splitExtremes_perm (-r) faces), ascending_append,
    List.take_left' hlength]
  exact fun a ha b hb => hparted.highest (by omega) b hb a ha

/-! ## Agreement -/

/-- Faces of some dice and ranks of others have one total if they have one sum. -/
theorem exists_sum_eq_select {d d' : Dice} {ranks : List Int} (hne : d.faces ≠ [])
    (hne' : d'.faces ≠ []) (hsign : d.sign = d'.sign)
    (hsum : d.faces.sum = (ranks.map (faceAt d'.faces)).sum) (hadds : AddsUp d.sign d.faces)
    (hadds' : AddsUp d'.sign (ranks.map (faceAt d'.faces))) :
    ∃ x, d.sum = .ok (some x) ∧ d'.select ranks = .ok x := by
  refine ⟨d.faces.sum * d.sign, ?_, ?_⟩
  · rw [sum_of_ne_nil hne, total_eq_ok_iff.mpr ⟨hadds, rfl⟩]
    rfl
  · rw [select_eq hne', total_eq_ok_iff.mpr ⟨hadds', rfl⟩, hsum, hsign]

/-- What selecting faces by rank has to do with the other reductions of some dice, and with those of
dice of which the extreme faces are dropped.  Ranks have values, and selecting is adding these up. -/
structure Agrees (d : Dice) (value : Int → Int) : Prop where
  values : RankValues d.faces value
  select_eq_ok_iff : ∀ ranks v, d.select ranks = .ok v ↔
    AddsUp d.sign (ranks.map value) ∧ v = (ranks.map value).sum * d.sign
  min_eq : d.min = (d.select [1]).map some
  max_eq : d.max = (d.select [(d.faces.length : Int)]).map some
  /-- All faces are those of all ranks. -/
  sum_eq : AddsUp d.sign d.faces → AddsUp d.sign ((ranksFrom 1 d.faces.length).map value) →
    ∃ x, d.sum = .ok (some x) ∧ d.select (ranksFrom 1 d.faces.length) = .ok x
  /-- Without the lowest faces, those of the higher ranks are left. -/
  without_lowest : ∀ r : Nat, 0 < r → r < d.faces.length →
    AddsUp d.sign (d.dropping r).faces →
    AddsUp d.sign ((ranksFrom (r + 1) d.faces.length).map value) →
    ∃ x, (d.dropping r).sum = .ok (some x) ∧
      (d.dropping 0).select (ranksFrom (r + 1) d.faces.length) = .ok x
  /-- Without the highest faces, those of the lower ranks are left. -/
  without_highest : ∀ r : Nat, 0 < r → r < d.faces.length →
    AddsUp d.sign (d.dropping (-r)).faces →
    AddsUp d.sign ((ranksFrom 1 (d.faces.length - r)).map value) →
    ∃ x, (d.dropping (-r)).sum = .ok (some x) ∧
      (d.dropping 0).select (ranksFrom 1 (d.faces.length - r)) = .ok x

/-- **Selecting agrees with dropping and with the other reductions**, the values of the ranks being
the only ones there are. -/
theorem selectors_agree {d : Dice} (hne : d.faces ≠ [])
    (hfits : ∀ face ∈ d.faces, Whole.fits face = true) : ∃! value, Agrees d value := by
  have hvalues := rankValues_faceAt hne
  have hpos := List.length_pos_iff.mpr hne
  have hselect (rank : Int) (hrank : 1 ≤ rank) :
      d.select [rank] = d.signed (faceAt d.faces rank) := by
    rw [select_eq hne]
    exact total_singleton (hfits _ (hvalues.ranked rank hrank).mem)
  have hsame : (d.dropping 0).faces.Perm d.faces := faces_dropping_perm d 0
  -- what is kept of the faces has the sum of the ranks that are left
  have hkept (r : Int) (ranks : List Int) (hranks : ranks.map (faceAt d.faces) =
      ascending (splitExtremes r d.faces).1) : (d.dropping r).faces.sum =
        (ranks.map (faceAt d.faces)).sum := by
    rw [hranks, (ascending_perm _).sum_eq, (faces_dropping_perm d r).sum_eq]
  refine ⟨faceAt d.faces, ⟨hvalues, fun ranks v => ?_, ?_, ?_, fun hadds hadds' => ?_,
    fun r hr hlt hadds hadds' => ?_, fun r hr hlt hadds hadds' => ?_⟩,
    fun value h => h.values.unique hvalues⟩
  · rw [select_eq hne, total_eq_ok_iff]
  · rw [hselect 1 (Int.le_refl 1), min, min?_eq_faceAt hne, signed?_some]
  · rw [hselect _ (by omega), max, max?_eq_faceAt hne, signed?_some]
  · refine exists_sum_eq_select hne hne rfl ?_ hadds hadds'
    rw [map_faceAt_ranksFrom (Nat.le_refl _), List.drop_zero,
      List.take_of_length_le (length_ascending _).le, (ascending_perm _).sum_eq]
  · rw [select_congr hsame rfl]
    refine exists_sum_eq_select (faces_dropping_ne_nil (by omega)) hne rfl ?_ hadds hadds'
    refine hkept r _ ?_
    rw [map_faceAt_ranksFrom (Nat.le_refl _), List.take_of_length_le (length_ascending _).le,
      drop_ascending hr hlt]
  · rw [select_congr hsame rfl]
    refine exists_sum_eq_select (faces_dropping_ne_nil (by omega)) hne rfl ?_ hadds hadds'
    refine hkept (-r) _ ?_
    rw [map_faceAt_ranksFrom (Nat.sub_le _ _), List.drop_zero, take_ascending hr hlt]

/-- Four faces with two alike, and a negative count: the ninth and the first are a five and the
one below zero, the others count nothing. -/
theorem selectors_agree_of_four :
    let d := ofFaces [] { amount := .count (-4), sides := 6 } [5, 2, 5, -1]
    d.faces ≠ [] ∧ (∀ face ∈ d.faces, Whole.fits face = true) ∧
    (∃! value, Agrees d value) ∧ d.select [9, 1, 0, -3] = .ok (-4) := by
  intro d
  have hne : d.faces ≠ [] := by decide
  have hfits : ∀ face ∈ d.faces, Whole.fits face = true := by decide
  exact ⟨hne, hfits, selectors_agree hne hfits, by cbv⟩

end DiceNotation.Dice
