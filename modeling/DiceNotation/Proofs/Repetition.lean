import DiceNotation.Proofs.Outcomes
import DiceNotation.Trigger.Fire
import Mathlib.Algebra.Ring.Int.Defs

/-!
# Doing something so many times

Loops and projects evaluate one text over and over.  What they have in common is told apart here
from what they make of it: `Turn.times` makes a turn so many times in a row, and keeps all of the
values.  It ends with the first of the turns that ends early, and it can be cut into two at any
place.

The results of rolls are added up one after another, and a total that leaves the range of whole
numbers stays at the end of it (`runningTotal`).  Such a total depends on the order, and it is the
sum exactly if no partial sum leaves the range.

* `Turn.times`, with `times_keeps`, `times_congr`, `times_add`, `times_eq_error_iff`.
* `runningTotal`, with `runningTotal_append`, `runningTotal_eq_sum`.
-/

namespace DiceNotation

variable {ρ α : Type}

namespace Turn

/-- Two turns end in the same way if their first steps do and they agree after these. -/
theorem bind_congr_at {β : Type} {x y : Turn ρ α} {f g : α → Turn ρ β} {s : Session ρ}
    (h : x s = y s) (hf : ∀ a u, x s = .ok a u → f a u = g a u) : (x >>= f) s = (y >>= g) s := by
  cases hx : x s with
  | ok a u => rw [bind_of_ok f hx, bind_of_ok g (h ▸ hx), hf a u hx]
  | error e u => rw [bind_of_error f hx, bind_of_error g (h ▸ hx)]

/-- A turn so many times in a row, with all of the values. -/
def times (x : Turn ρ α) : Nat → Turn ρ (List α)
  | 0 => pure []
  | n + 1 => do
    let a ← x
    let as ← times x n
    return a :: as

variable {x : Turn ρ α} {n : Nat} {s s' : Session ρ}

theorem times_succ_of_ok {a : α} (h : x s = .ok a s') (n : Nat) :
    times x (n + 1) s = (times x n >>= fun as => pure (a :: as) : Turn ρ (List α)) s' :=
  bind_of_ok _ h

theorem exists_of_times_succ {as : List α} (h : times x (n + 1) s = .ok as s') :
    ∃ a u as', x s = .ok a u ∧ times x n u = .ok as' s' ∧ as = a :: as' := by
  obtain ⟨a, u, ha, h⟩ := exists_of_bind_eq_ok h
  obtain ⟨as', v, has, h⟩ := exists_of_bind_eq_ok h
  obtain ⟨rfl, rfl⟩ := EStateM.Result.ok.inj h
  exact ⟨a, u, as', ha, has, rfl⟩

theorem times_cons {a : α} {as : List α} {u : Session ρ} (ha : x s = .ok a u)
    (has : times x n u = .ok as s') : times x (n + 1) s = .ok (a :: as) s' := by
  rw [times_succ_of_ok ha, bind_of_ok _ has]
  rfl

/-- What each of the turns keeps holds after all of them. -/
theorem times_keeps {keeps : Session ρ → Prop}
    (hkeeps : ∀ {a u u'}, keeps u → x u = .ok a u' → keeps u') {as : List α} (hs : keeps s)
    (h : times x n s = .ok as s') : keeps s' := by
  induction n generalizing as s with
  | zero =>
    obtain ⟨-, rfl⟩ := EStateM.Result.ok.inj h
    exact hs
  | succ n ih =>
    obtain ⟨a, u, as', ha, has, -⟩ := exists_of_times_succ h
    exact ih (hkeeps hs ha) has

/-- Turns that agree in all sessions that may come up are the same so many times. -/
theorem times_congr {y : Turn ρ α} {keeps : Session ρ → Prop}
    (hkeeps : ∀ {a u u'}, keeps u → x u = .ok a u' → keeps u') (hxy : ∀ {u}, keeps u → x u = y u)
    (hs : keeps s) : times x n s = times y n s := by
  induction n generalizing s with
  | zero => rfl
  | succ n ih =>
    exact bind_congr_at (hxy hs) fun a u ha => bind_congr_at (ih (hkeeps hs ha)) fun _ _ _ => rfl

/-- **Some turns and then some more** are all of them in a row. -/
theorem times_add (x : Turn ρ α) (m n : Nat) :
    times x (m + n) = (do
      let as ← times x m
      let bs ← times x n
      return as ++ bs) := by
  induction m with
  | zero =>
    rw [Nat.zero_add, times, pure_bind]
    exact (bind_pure _).symm
  | succ m ih =>
    rw [Nat.succ_add, times, ih, times]
    simp only [bind_assoc, pure_bind, List.cons_append]

/-- **The first of the turns that ends early ends all of them**, and none is made after it. -/
theorem times_eq_error_iff {e : Halt} :
    times x n s = .error e s' ↔ ∃ i < n, ∃ as u, times x i s = .ok as u ∧ x u = .error e s' := by
  induction n generalizing s with
  | zero => exact iff_of_false nofun fun ⟨i, hi, _⟩ => absurd hi (Nat.not_lt_zero i)
  | succ n ih =>
    constructor
    · intro h
      rcases cases_of_bind_eq_error h with h | ⟨a, u, ha, h⟩
      · exact ⟨0, Nat.succ_pos n, [], s, rfl, h⟩
      · rcases cases_of_bind_eq_error h with h | ⟨as, v, -, h⟩
        · obtain ⟨i, hi, as, v, has, hv⟩ := ih.mp h
          exact ⟨i + 1, Nat.succ_lt_succ hi, a :: as, v, times_cons ha has, hv⟩
        · exact nomatch h
    · rintro ⟨i, hi, as, u, has, hu⟩
      cases i with
      | zero =>
        obtain ⟨-, rfl⟩ := EStateM.Result.ok.inj has
        exact bind_of_error _ hu
      | succ i =>
        obtain ⟨a, v, as', ha, has, -⟩ := exists_of_times_succ has
        have hrest := ih.mpr ⟨i, Nat.lt_of_succ_lt_succ hi, as', u, has, hu⟩
        rw [times_succ_of_ok ha]
        exact bind_of_error _ hrest

end Turn

/-! ## Totals -/

/-- The results of rolls, added to a number one after another, where every total stays in the range
of whole numbers. -/
def runningTotal (start : Int) (rs : List Roll) : Int :=
  rs.foldl (fun total r => Whole.clamp (total + r.value)) start

@[simp] theorem runningTotal_nil (start : Int) : runningTotal start [] = start := rfl

@[simp] theorem runningTotal_cons (start : Int) (r : Roll) (rs : List Roll) :
    runningTotal start (r :: rs) = runningTotal (Whole.clamp (start + r.value)) rs := rfl

theorem runningTotal_append (start : Int) (rs rs' : List Roll) :
    runningTotal start (rs ++ rs') = runningTotal (runningTotal start rs) rs' :=
  List.foldl_append

/-- Where no partial sum leaves the range, the total is the sum. -/
theorem runningTotal_eq_sum {start : Int} {rs : List Roll}
    (h : ∀ k, Whole.fits (start + ((rs.take k).map Roll.value).sum) = true) :
    runningTotal start rs = start + (rs.map Roll.value).sum := by
  induction rs generalizing start with
  | nil => rw [runningTotal_nil, List.map_nil, List.sum_nil, Int.add_zero]
  | cons r rs ih =>
    have hfirst : Whole.fits (start + r.value) = true := by simpa using h 1
    rw [runningTotal_cons, Whole.clamp_of_fits hfirst, ih fun k => ?_, List.map_cons, List.sum_cons,
      Int.add_assoc]
    have hlater := h (k + 1)
    rw [List.take_succ_cons, List.map_cons, List.sum_cons, ← Int.add_assoc] at hlater
    exact hlater

end DiceNotation
