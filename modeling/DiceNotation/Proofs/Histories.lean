import Mathlib
import DiceNotation.History

/-!
# A history is the end of what was pushed

A history keeps two lists, one of rolls and one of faces, each within a capacity of its own.  Either
gives up its oldest entry when it is full, and a roll without faces is an entry of the first only.

Seen from the newest entry none of this shows.  Each list is then the beginning of a list that
nothing is ever taken from: of the rolls pushed, or of the faces of those that had any
(`Window.rolls`, `Window.backs`).  A push puts the roll in front of that list, and of the window it
is looked at through only the last entry goes out of sight, so that full lists need no case of their
own above `reverse_remember`.  With capacity zero the window is closed.  Clearing starts the list
afresh.

* `withFaces`, `Roll.back`: what is left of rolls for codes that refer back.
* `reverse_remember`, `reverse_backs_push`, `back?_succ`: the lists of a history and the lists they
  begin.
* `Change`, `change`, `sinceClear`: what is done to a history.
* `Window`, with `Window.change` and `Window.changes`.
* `changes_leave_the_latest`.
-/

namespace DiceNotation

/-- The rolls that have faces. -/
def withFaces (rs : List Roll) : List Roll := rs.filter fun r => !r.dice.faces.isEmpty

/-- What later codes can use of a roll. -/
def Roll.back (r : Roll) : BackReference := ⟨r.dice.faces, r.dice.spec.sides⟩

theorem withFaces_reverse (rs : List Roll) : withFaces rs.reverse = (withFaces rs).reverse :=
  List.filter_reverse

namespace History

/-! ## Lists of bounded length -/

/-- Adding an entry moves the window on the latest entries. -/
theorem reverse_remember {α : Type} {capacity : Nat} {entries latest : List α}
    (h : entries.reverse = latest.take capacity) (entry : α) :
    (remember capacity entries entry).reverse = (entry :: latest).take capacity := by
  have hlength := congrArg List.length h
  rw [List.length_reverse, List.length_take] at hlength
  unfold remember
  split
  · next hzero =>
    rw [h, hzero, List.take_zero, List.take_zero]
  · next hne =>
    obtain ⟨k, rfl⟩ := Nat.exists_eq_succ_of_ne_zero hne
    rw [List.take_succ_cons]
    split
    · next hfull =>
      have hoverflow : (latest.take (k + 1)).dropLast = latest.take k := by
        rw [List.dropLast_eq_take, List.take_take, List.length_take, ← hlength, hfull,
          Nat.succ_sub_one, Nat.min_eq_left (Nat.le_succ k)]
      rw [List.drop_one, List.reverse_append, List.reverse_singleton, List.singleton_append,
        ← List.dropLast_reverse, h, hoverflow]
    · rw [List.reverse_append, List.reverse_singleton, List.singleton_append, h,
        List.take_of_length_le (by omega), List.take_of_length_le (by omega)]

section Backs

variable {h : History} {latest : List Roll}

/-- A roll moves the window on the latest faces if it has any. -/
theorem reverse_backs_push
    (hbacks : h.backs.reverse = ((withFaces latest).map Roll.back).take h.backCapacity) (r : Roll) :
    (h.push r).backs.reverse = ((withFaces (r :: latest)).map Roll.back).take h.backCapacity := by
  cases hempty : r.dice.faces.isEmpty with
  | true =>
    have hlatest : withFaces (r :: latest) = withFaces latest := by simp [withFaces, hempty]
    have hpush : (h.push r).backs = h.backs := by simp [push, backOf?, hempty]
    rw [hlatest, hpush, hbacks]
  | false =>
    have hlatest : withFaces (r :: latest) = r :: withFaces latest := by simp [withFaces, hempty]
    have hpush : (h.push r).backs = remember h.backCapacity h.backs r.back := by
      simp [push, backOf?, hempty, Roll.back]
    rw [hlatest, hpush, List.map_cons, reverse_remember hbacks]

/-- The window on the latest faces, seen through a reference. -/
theorem back?_succ {capacity : Nat}
    (hbacks : h.backs.reverse = ((withFaces latest).map Roll.back).take capacity) (n : Nat) :
    h.back? (n + 1) = if n < capacity then ((withFaces latest)[n]?).map Roll.back else none := by
  show h.backs.reverse[n]? = _
  rw [hbacks, List.getElem?_take, List.getElem?_map]

end Backs

/-! ## What is done to a history -/

/-- A roll is recorded, or everything is forgotten. -/
inductive Change
  | push (r : Roll)
  | clear
  deriving DecidableEq, Repr

/-- The roll that a change records. -/
def Change.roll? : Change → Option Roll
  | .push r => some r
  | .clear => none

/-- The history after one change. -/
def change (h : History) : Change → History
  | .push r => h.push r
  | .clear => h.clear

/-- The rolls recorded since everything was last forgotten, oldest first. -/
def sinceClear (changes : List Change) : List Roll :=
  (changes.rtakeWhile fun c => c.roll?.isSome).filterMap Change.roll?

theorem sinceClear_concat_push (changes : List Change) (r : Roll) :
    sinceClear (changes ++ [.push r]) = sinceClear changes ++ [r] := by
  unfold sinceClear
  rw [List.rtakeWhile_concat_pos _ _ _ rfl, List.filterMap_append]
  rfl

theorem sinceClear_concat_clear (changes : List Change) :
    sinceClear (changes ++ [.clear]) = [] := by
  unfold sinceClear
  rw [List.rtakeWhile_concat_neg _ _ _ Bool.false_ne_true, List.filterMap_nil]

/-! ## The window -/

/-- A history whose lists begin the list of these rolls, the latest of which is the first. -/
structure Window (C K : Nat) (latest : List Roll) (h : History) : Prop where
  capacity : h.capacity = C
  backCapacity : h.backCapacity = K
  rolls : h.rolls.reverse = latest.take C
  backs : h.backs.reverse = ((withFaces latest).map Roll.back).take K

namespace Window

variable {C K : Nat} {latest : List Roll} {h : History}

theorem start (C K : Nat) : Window C K [] { capacity := C, backCapacity := K } :=
  ⟨rfl, rfl, List.take_nil.symm, List.take_nil.symm⟩

/-- Recording a roll puts it in front. -/
theorem push (w : Window C K latest h) (r : Roll) : Window C K (r :: latest) (h.push r) where
  capacity := w.capacity
  backCapacity := w.backCapacity
  rolls := by
    show (remember h.capacity h.rolls r).reverse = _
    rw [w.capacity, reverse_remember w.rolls]
  backs := by
    rw [← w.backCapacity]
    exact reverse_backs_push (w.backCapacity ▸ w.backs) r

theorem clear (w : Window C K latest h) : Window C K [] h.clear :=
  ⟨w.capacity, w.backCapacity, List.take_nil.symm, List.take_nil.symm⟩

/-- **What one change does to the window.** -/
theorem change {before : List Change} (w : Window C K (sinceClear before).reverse h) (c : Change) :
    Window C K (sinceClear (before ++ [c])).reverse (h.change c) := by
  cases c with
  | push r =>
    rw [sinceClear_concat_push, List.reverse_concat]
    exact w.push r
  | clear =>
    rw [sinceClear_concat_clear]
    exact w.clear

theorem changes (C K : Nat) (cs : List Change) :
    Window C K (sinceClear cs).reverse
      (cs.foldl History.change { capacity := C, backCapacity := K }) := by
  induction cs using List.reverseRecOn with
  | nil => exact start C K
  | append_singleton cs c ih =>
    rw [List.foldl_concat]
    exact ih.change c

/-! ### Looking through it -/

theorem rolls_eq (w : Window C K latest h) : h.rolls = latest.reverse.rtake C := by
  rw [List.rtake_eq_reverse_take_reverse, List.reverse_reverse, ← w.rolls, List.reverse_reverse]

theorem recent_eq (w : Window C K latest h) (n : Nat) : h.recent n = latest.take (min n C) := by
  unfold recent
  rw [w.rolls, List.take_take]

theorem last?_eq (w : Window C K latest h) : h.last? = if C = 0 then none else latest.head? := by
  unfold last?
  rw [← List.head?_reverse, w.rolls, List.head?_take]

/-- The capacity and the number of rolls with faces bound how far back references reach. -/
theorem back?_eq_none (w : Window C K latest h) {n : Nat}
    (hn : n = 0 ∨ min K (withFaces latest).length < n) : h.back? n = none := by
  cases n with
  | zero => rfl
  | succ n =>
    rw [back?_succ w.backs]
    split
    · rw [List.getElem?_eq_none (by omega), Option.map_none]
    · rfl

theorem back?_eq_some (w : Window C K latest h) {n : Nat} (hn : 1 ≤ n)
    (hle : n ≤ min K (withFaces latest).length) :
    h.back? n = some ((withFaces latest).get ⟨n - 1, by omega⟩).back := by
  obtain ⟨m, rfl⟩ := Nat.exists_eq_succ_of_ne_zero (Nat.ne_of_gt hn)
  rw [back?_succ w.backs, if_pos (by omega), List.getElem?_eq_getElem (by omega), Option.map_some]
  rfl

end Window

/-- The last so many of a list, where it need not have that many. -/
theorem rtake_min_length {α : Type} (n : Nat) (l : List α) :
    l.rtake (min n l.length) = l.rtake n := by
  unfold List.rtake
  congr 1
  omega

/-- **A history is the end of what was pushed.**  Whatever its capacities and whatever was done to a
new history, of the rolls pushed since it was last cleared it remembers the last ones, in their
order, as many as the capacity admits; `recent` and `last?` are these from the newest on.  A
reference counts from the newest of those that have faces, and reaches as far back as they and the
capacity for faces go. -/
theorem changes_leave_the_latest (C K : Nat) (cs : List Change) :
    let h := cs.foldl change { capacity := C, backCapacity := K }
    let pushed := sinceClear cs
    let faced := withFaces pushed
    h.rolls = pushed.rtake (min C pushed.length) ∧
    (∀ n, h.recent n = (pushed.rtake (min n (min C pushed.length))).reverse) ∧
    h.last? = (if C = 0 then none else pushed.getLast?) ∧
    ∀ n, h.back? n =
      if hn : 1 ≤ n ∧ n ≤ min K faced.length then
        some (faced.get ⟨faced.length - n, by omega⟩).back
      else none := by
  intro h pushed faced
  have w : Window C K pushed.reverse h := .changes C K cs
  have hlatest : withFaces pushed.reverse = faced.reverse := withFaces_reverse pushed
  refine ⟨?_, fun n => ?_, ?_, fun n => ?_⟩
  · rw [rtake_min_length, w.rolls_eq, List.reverse_reverse]
  · rw [← min_assoc, rtake_min_length, List.rtake_eq_reverse_take_reverse, List.reverse_reverse,
      w.recent_eq]
  · rw [w.last?_eq, List.head?_reverse]
  · split
    · next hn =>
      rw [w.back?_eq_some hn.1 (by rw [hlatest, List.length_reverse]; exact hn.2)]
      -- the place from the end is the place from the front in the reversed list
      simp only [hlatest, List.get_eq_getElem, List.getElem_reverse]
      congr 3
      omega
    · next hn =>
      refine w.back?_eq_none ?_
      rw [hlatest, List.length_reverse]
      omega

end History

end DiceNotation
