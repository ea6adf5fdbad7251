import DiceNotation.Proofs.PlainRolls
import DiceNotation.Roller.Stepping

/-!
# Loops

A loop is repeated evaluation.  Where no define stands for text with triggers, nothing happens in a
loop with a plain count that would not happen if a user asked for the same roll as often, and the
rolls end with the first that fails.  So loops compose: some rolls and then some more leave what all
of them at once leave, and the totals add up as long as none of them leaves the range.

All of this comes from one equation of turns, `fire_looping`.  The limit is looked up once the count
is known, and neither the count nor the rolls change the flags it depends on, so that the second of
two loops has the limit of the first.

* `Trigger.looping`, `Trigger.loopOutput`: the two kinds of loops.
* `Trigger.repeatRoll_eq`, `fire_looping`.
* `loops_repeat_evaluation`.
-/

namespace DiceNotation

namespace Trigger

/-- A loop that answers with the total, or with nothing. -/
def looping (sum : Bool) (roll times : Text) : Trigger :=
  if sum then .loopSum roll times else .loop roll times

/-- The output of a loop with these rolls. -/
def loopOutput (sum : Bool) (rs : List Roll) : Text :=
  if sum then Whole.render (runningTotal 0 rs) else []

variable {ρ : Type} (again : Reentry ρ)

/-- **Rolling repeatedly is rolling so many times in a row**, with the total of the rolls. -/
theorem repeatRoll_eq (roll : Text) (total : Int) (n : Nat) :
    repeatRoll again roll total n = (do
      let rs ← Turn.times (again.evaluate roll) n
      return runningTotal total rs) := by
  induction n generalizing total with
  | zero => rfl
  | succ n ih =>
    unfold repeatRoll Turn.times
    simp only [ih, bind_assoc, pure_bind, runningTotal_cons]

/-- A loop, once its count is known. -/
theorem fire_looping_of_count {sum : Bool} {roll times : Text} {around : Surroundings} {n : Int}
    {s u : Session ρ} (h : resolveWhole again times s = .ok n u) :
    fire again (looping sum roll times) around s = (do
      let rs ← Turn.times (again.evaluate roll) (min n.toNat (raised u.flags loopCap))
      return (loopOutput sum rs, around) : Turn ρ _) u := by
  have hrun : ∀ {β : Type} (f : Int → Turn ρ β), (runLoop again roll times >>= f) s =
      (Turn.times (again.evaluate roll) (min n.toNat (raised u.flags loopCap)) >>= fun rs =>
        f (runningTotal 0 rs)) u := by
    intro β f
    unfold runLoop
    rw [bind_assoc, Turn.bind_of_ok _ h, bind_assoc, Turn.get_bind, repeatRoll_eq, bind_assoc]
    simp only [pure_bind]
  cases sum with
  | false =>
    show ((runLoop again roll times >>= fun _ => pure []) >>= fun output => pure (output, around) :
      Turn ρ _) s = _
    rw [bind_assoc, hrun]
    rfl
  | true =>
    show ((runLoop again roll times >>= fun total => pure (Whole.render total)) >>= fun output =>
      pure (output, around) : Turn ρ _) s = _
    rw [bind_assoc, hrun]
    rfl

/-- A loop without a count ends as the count does. -/
theorem fire_looping_of_count_error {sum : Bool} {roll times : Text} (around : Surroundings)
    {e : Halt} {s u : Session ρ} (h : resolveWhole again times s = .error e u) :
    fire again (looping sum roll times) around s = .error e u := by
  have hrun : runLoop again roll times s = .error e u := Turn.bind_of_error _ h
  cases sum with
  | false => exact Turn.bind_of_error _ (Turn.bind_of_error _ hrun)
  | true => exact Turn.bind_of_error _ (Turn.bind_of_error _ hrun)

/-- The most rolls of a loop: a hundred, or a thousand when the limits are raised. -/
theorem raised_loopCap (flags : Flags) :
    raised flags loopCap = if flags.limitBreak then 1000 else 100 := rfl

end Trigger

open Trigger (fire looping loopOutput raised loopCap raised_loopCap)

section Recording

variable {ρ : Type} [Roller ρ] {s s' : Session ρ} {t : Text}

/-- In a session that has only recorded rolls since, one more evaluation records more. -/
theorem recorded_evaluate (hmacros : s.defines.macros = []) (ht : '&' ∉ t) {u u' : Session ρ}
    {r : Roll} (hu : ∃ rs, s.Recorded rs u) (h : Turn.evaluate t u = .ok r u') :
    ∃ rs, s.Recorded rs u' := by
  obtain ⟨rs, hrs⟩ := hu
  obtain ⟨rs', hrs'⟩ := recorded_of_evaluate (hrs.frame.2.1 ▸ hmacros) ht h
  exact ⟨_, hrs.append hrs'⟩

/-- **Repeated evaluation only records rolls.** -/
theorem recorded_of_times (hmacros : s.defines.macros = []) (ht : '&' ∉ t) {n : Nat}
    {rs : List Roll} (h : Turn.times (Turn.evaluate t) n s = .ok rs s') :
    ∃ rs', s.Recorded rs' s' :=
  Turn.times_keeps (recorded_evaluate hmacros ht) ⟨[], .refl s⟩ h

/-- **A loop with a plain count is repeated evaluation.** -/
theorem fire_looping (m : Nat) (hmacros : s.defines.macros = []) (ht : '&' ∉ t) (sum : Bool)
    {n : Int} (hn : Whole.fits n = true) (hlowest : Whole.lowest < n) (around : Surroundings) :
    fire (reentry (m + 1)) (looping sum t (Whole.render n)) around s = (do
      let rs ← Turn.times (Turn.evaluate t) (min n.toNat (raised s.flags loopCap))
      return (loopOutput sum rs, around) : Turn ρ _) s := by
  rw [Trigger.fire_looping_of_count _ (resolveWhole_render m hn hlowest s)]
  refine Turn.bind_congr_at (Eq.symm ?_) fun _ _ _ => rfl
  refine Turn.times_congr (recorded_evaluate hmacros ht) (fun hu => ?_) ⟨[], .refl s⟩
  obtain ⟨rs, hrs⟩ := hu
  exact (evaluate_reentry m (hrs.frame.2.1 ▸ hmacros) ht).symm

/-- A loop with the least number as its count, or where no trigger may start another, fails. -/
theorem exists_fire_looping_error {m : Nat} {n : Int} (hn : Whole.fits n = true)
    (h : m = 0 ∨ ¬Whole.lowest < n) (sum : Bool) (around : Surroundings) (s : Session ρ) :
    ∃ e, fire (reentry m) (looping sum t (Whole.render n)) around s = .error e s := by
  cases m with
  | zero =>
    exact ⟨.exhausted, Trigger.fire_looping_of_count_error _ around (Turn.bind_of_error _ rfl)⟩
  | succ m =>
    have hlowest : n = Whole.lowest := by
      have hle := (Whole.fits_iff.mp hn).1
      rcases h with h | h
      · exact absurd h (Nat.succ_ne_zero m)
      · omega
    obtain ⟨e, he⟩ := resolveWhole_render_lowest m s
    rw [hlowest]
    exact ⟨_, Trigger.fire_looping_of_count_error _ around he⟩

omit [Roller ρ] in
/-- A loop that ends well ends with the output of its rolls. -/
theorem run_loopOutput_eq_ok_iff {x : Turn ρ (List Roll)} {sum : Bool} {around left : Surroundings}
    {output : Text} :
    (do let rs ← x
        return (loopOutput sum rs, around) : Turn ρ _) s = .ok (output, left) s' ↔
      left = around ∧ ∃ rs, x s = .ok rs s' ∧ output = loopOutput sum rs := by
  constructor
  · intro h
    obtain ⟨rs, u, hrs, h⟩ := Turn.exists_of_bind_eq_ok h
    obtain ⟨hanswer, rfl⟩ := EStateM.Result.ok.inj h
    obtain ⟨rfl, rfl⟩ := Prod.mk.inj hanswer
    exact ⟨rfl, rs, hrs, rfl⟩
  · rintro ⟨rfl, rs, hrs, rfl⟩
    rw [Turn.bind_of_ok _ hrs]
    rfl

/-- A loop that ends well has rolled so many times in a row. -/
theorem fire_looping_eq_ok_iff (m : Nat) (hmacros : s.defines.macros = []) (ht : '&' ∉ t)
    (sum : Bool) {n : Int} (hn : Whole.fits n = true) (around : Surroundings) {output : Text}
    {left : Surroundings} :
    fire (reentry m) (looping sum t (Whole.render n)) around s = .ok (output, left) s' ↔
      0 < m ∧ Whole.lowest < n ∧ left = around ∧
        ∃ rs, Turn.times (Turn.evaluate t) (min n.toNat (raised s.flags loopCap)) s = .ok rs s' ∧
          output = loopOutput sum rs := by
  by_cases hgood : 0 < m ∧ Whole.lowest < n
  · obtain ⟨hm, hlowest⟩ := hgood
    obtain ⟨m, rfl⟩ := Nat.exists_eq_add_of_lt hm
    rw [Nat.zero_add, fire_looping m hmacros ht sum hn hlowest, run_loopOutput_eq_ok_iff]
    exact ⟨fun h => ⟨Nat.succ_pos m, hlowest, h⟩, fun h => h.2.2⟩
  · refine iff_of_false (fun h => ?_) fun h => hgood ⟨h.1, h.2.1⟩
    obtain ⟨e, he⟩ := exists_fire_looping_error (m := m) (t := t) hn (by omega) sum around s
    rw [he] at h
    exact nomatch h

/-- A loop fails with the first of its rolls that does. -/
theorem fire_looping_eq_error_iff (m : Nat) (hmacros : s.defines.macros = []) (ht : '&' ∉ t)
    (sum : Bool) {n : Int} (hn : Whole.fits n = true) (hlowest : Whole.lowest < n)
    (around : Surroundings) {e : Halt} :
    fire (reentry (m + 1)) (looping sum t (Whole.render n)) around s = .error e s' ↔
      ∃ i < min n.toNat (raised s.flags loopCap), ∃ rs u,
        Turn.times (Turn.evaluate t) i s = .ok rs u ∧ Turn.evaluate t u = .error e s' := by
  rw [fire_looping m hmacros ht sum hn hlowest, ← Turn.times_eq_error_iff]
  refine ⟨fun h => ?_, fun h => Turn.bind_of_error _ h⟩
  rcases Turn.cases_of_bind_eq_error h with h | ⟨_, _, -, h⟩
  · exact h
  · exact nomatch h

/-! ## Loops one after another -/

/-- A count that no limit cuts short is in the range. -/
theorem fits_of_le_cap {flags : Flags} {k : Nat} (h : k ≤ raised flags loopCap) :
    Whole.fits (k : Int) = true ∧ Whole.lowest < (k : Int) := by
  have hle : k ≤ 1000 := by
    rw [raised_loopCap] at h
    split at h
    · exact h
    · omega
  rw [Whole.fits_iff]
  unfold Whole.lowest Whole.highest
  omega

/-- A loop within the limit, in a session that has only recorded rolls since. -/
theorem fire_looping_within (m : Nat) (hmacros : s.defines.macros = []) (ht : '&' ∉ t) (sum : Bool)
    {k : Nat} (hk : k ≤ raised s.flags loopCap) (around : Surroundings) {u : Session ρ}
    (hu : ∃ rs, s.Recorded rs u) :
    fire (reentry (m + 1)) (looping sum t (Whole.render k)) around u = (do
      let rs ← Turn.times (Turn.evaluate t) k
      return (loopOutput sum rs, around) : Turn ρ _) u := by
  obtain ⟨rs, hrs⟩ := hu
  obtain ⟨-, hdefines, hflags, -⟩ := hrs.frame
  obtain ⟨hfits, hlowest⟩ := fits_of_le_cap hk
  rw [fire_looping m (hdefines ▸ hmacros) ht sum hfits hlowest, hflags, Int.toNat_natCast,
    Nat.min_eq_left hk]

/-- What comes of a loop within the limit and of what is done afterwards. -/
theorem fire_looping_bind (m : Nat) (hmacros : s.defines.macros = []) (ht : '&' ∉ t) (sum : Bool)
    {k : Nat} (hk : k ≤ raised s.flags loopCap) (around : Surroundings) {u : Session ρ}
    (hu : ∃ rs, s.Recorded rs u) {β : Type} (f : Text × Surroundings → Turn ρ β) :
    (fire (reentry (m + 1)) (looping sum t (Whole.render k)) around >>= f) u =
      (Turn.times (Turn.evaluate t) k >>= fun rs => f (loopOutput sum rs, around)) u := by
  rw [Turn.bind_congr_at (fire_looping_within m hmacros ht sum hk around hu) fun _ _ _ => rfl,
    bind_assoc]
  simp only [pure_bind]

/-- **Two loops within the limit leave what one loop leaves that rolls as often as both.** -/
theorem fire_looping_add (m : Nat) (hmacros : s.defines.macros = []) (ht : '&' ∉ t) (sum : Bool)
    {a b : Nat} (hab : a + b ≤ raised s.flags loopCap) (around around' around'' : Surroundings) :
    (do let _ ← fire (reentry (m + 1)) (looping sum t (Whole.render a)) around
        let _ ← fire (reentry (m + 1)) (looping sum t (Whole.render b)) around'
        return () : Turn ρ Unit) s =
      (do let _ ← fire (reentry (m + 1)) (looping sum t (Whole.render (a + b : Nat))) around''
          return () : Turn ρ Unit) s := by
  have ha : a ≤ raised s.flags loopCap := Nat.le_trans (Nat.le_add_right a b) hab
  have hb : b ≤ raised s.flags loopCap := Nat.le_trans (Nat.le_add_left b a) hab
  have hnow : ∃ rs, s.Recorded rs s := ⟨[], .refl s⟩
  have hsecond : ∀ rs u, Turn.times (Turn.evaluate t) a s = .ok rs u →
      (fire (reentry (m + 1)) (looping sum t (Whole.render b)) around' >>= fun _ => pure () :
        Turn ρ Unit) u = (Turn.times (Turn.evaluate t) b >>= fun _ => pure () : Turn ρ Unit) u :=
    fun rs u h => fire_looping_bind m hmacros ht sum hb around' (recorded_of_times hmacros ht h) _
  rw [fire_looping_bind m hmacros ht sum ha around hnow, Turn.bind_congr_at rfl hsecond,
    fire_looping_bind m hmacros ht sum hab around'' hnow, Turn.times_add]
  simp only [bind_assoc, pure_bind]

/-- The totals of two loops add up, if none on the way leaves the range. -/
theorem runningTotal_append_eq_add {rs rs' : List Roll}
    (hall : ∀ k, Whole.fits (((rs ++ rs').take k).map Roll.value).sum = true)
    (hlast : ∀ k, Whole.fits ((rs'.take k).map Roll.value).sum = true) :
    runningTotal 0 (rs ++ rs') = runningTotal 0 rs + runningTotal 0 rs' := by
  have hfirst : ∀ k, Whole.fits ((rs.take k).map Roll.value).sum = true := by
    intro k
    have h := hall (min k rs.length)
    rwa [List.take_append_of_le_length (Nat.min_le_right _ _), ← List.take_eq_take_min] at h
  rw [runningTotal_eq_sum (by simpa using hall), runningTotal_eq_sum (by simpa using hfirst),
    runningTotal_eq_sum (by simpa using hlast), List.map_append, List.sum_append]
  omega

/-- **Loops are repeated evaluation, and compose.**  Where no define stands for text with triggers,
a loop whose count is the decimal text of `n` ends well exactly if `t` can be evaluated so many
times in a row as `n` says, none if it is negative and no more than the limit; it leaves the session
that these evaluations leave.  If one of them fails, the loop ends there, with the session that it
left.  Two loops one after another leave what one loop leaves that rolls as often as both, if this
is within the limit, and their totals add up to its total if no total on the way leaves the range.
The least number is no count, and no loop ends well where no trigger may start another. -/
theorem loops_repeat_evaluation (m : Nat) (hmacros : s.defines.macros = []) (ht : '&' ∉ t) :
    let cap := if s.flags.limitBreak then 1000 else 100
    let rolls := Turn.times (Turn.evaluate (ρ := ρ) t)
    let loop := fun (sum : Bool) (n : Int) => fire (ρ := ρ) (reentry m)
      (if sum then .loopSum t (Whole.render n) else .loop t (Whole.render n))
    (∀ (sum : Bool) n around output left s', Whole.fits n = true →
      (loop sum n around s = .ok (output, left) s' ↔
        0 < m ∧ Whole.lowest < n ∧ left = around ∧
          ∃ rs, rolls (min (max n 0).toNat cap) s = .ok rs s' ∧
            output = if sum then Whole.render (runningTotal 0 rs) else [])) ∧
    (∀ (sum : Bool) n around e s', Whole.fits n = true → 0 < m → Whole.lowest < n →
      (loop sum n around s = .error e s' ↔
        ∃ i < min (max n 0).toNat cap, ∃ rs u,
          rolls i s = .ok rs u ∧ Turn.evaluate t u = .error e s')) ∧
    ∀ a b : Nat, a + b ≤ cap → 0 < m → ∀ around around' around'',
      (do let _ ← loop true a around
          let _ ← loop true b around'
          return () : Turn ρ Unit) s =
        (do let _ ← loop true (a + b : Nat) around''
            return () : Turn ρ Unit) s ∧
      ∀ x left u y left' s', loop true a around s = .ok (x, left) u →
        loop true b around' u = .ok (y, left') s' →
        ∃ rs rs', rolls a s = .ok rs u ∧ rolls b u = .ok rs' s' ∧
          x = Whole.render (runningTotal 0 rs) ∧ y = Whole.render (runningTotal 0 rs') ∧
          ((∀ k, Whole.fits (((rs ++ rs').take k).map Roll.value).sum = true) →
            (∀ k, Whole.fits ((rs'.take k).map Roll.value).sum = true) →
            loop true (a + b : Nat) around'' s =
              .ok (Whole.render (runningTotal 0 rs + runningTotal 0 rs'), around'') s') := by
  intro cap rolls loop
  have hmax : ∀ n : Int, (max n 0).toNat = n.toNat := fun n => by omega
  simp only [hmax]
  refine ⟨fun sum n around output left s' hn => fire_looping_eq_ok_iff m hmacros ht sum hn around,
    fun sum n around e s' hn hm hlowest => ?_, fun a b hab hm around around' around'' => ?_⟩
  · cases m with
    | zero => exact absurd hm (Nat.lt_irrefl 0)
    | succ m => exact fire_looping_eq_error_iff m hmacros ht sum hn hlowest around
  · cases m with
    | zero => exact absurd hm (Nat.lt_irrefl 0)
    | succ m =>
      have hwithin := fun {k : Nat} (hk : k ≤ cap) => fire_looping_within m hmacros ht true hk
      have hnow : ∃ rs, s.Recorded rs s := ⟨[], .refl s⟩
      refine ⟨fire_looping_add m hmacros ht true hab around around' around'',
        fun x left u y left' s' hx hy => ?_⟩
      obtain ⟨-, rs, hrs, hx⟩ := run_loopOutput_eq_ok_iff.mp
        ((hwithin (Nat.le_trans (Nat.le_add_right a b) hab) around hnow).symm.trans hx)
      obtain ⟨-, rs', hrs', hy⟩ := run_loopOutput_eq_ok_iff.mp
        ((hwithin (Nat.le_trans (Nat.le_add_left b a) hab) around'
          (recorded_of_times hmacros ht hrs)).symm.trans hy)
      refine ⟨rs, rs', hrs, hrs', hx, hy, fun hall hlast => ?_⟩
      rw [← runningTotal_append_eq_add hall hlast]
      refine (hwithin hab around'' hnow).trans
        (run_loopOutput_eq_ok_iff.mpr ⟨rfl, rs ++ rs', ?_, rfl⟩)
      rw [Turn.times_add, Turn.bind_of_ok _ hrs, Turn.bind_of_ok _ hrs']
      rfl

end Recording

/-- Two rolls of a define and three more are five rolls of it. -/
theorem loops_repeat_evaluation_of_five :
    let s := (Session.start {} (Stepping.mk 1 1)).define [("x".toList, "1d6g".toList)]
    let loopSum := fun n => fire (reentry 1) (.loopSum "x".toList (Whole.render n)) ⟨[], []⟩
    s.defines.macros = [] ∧ '&' ∉ "x".toList ∧
    (∃ rs s', loopSum 5 s = .ok ("15".toList, ⟨[], []⟩) s' ∧
      Turn.times (Turn.evaluate "x".toList) 5 s = .ok rs s' ∧
      "15".toList = Whole.render (runningTotal 0 rs)) ∧
    (do let _ ← loopSum 2
        let _ ← loopSum 3
        return () : Turn Stepping Unit) s =
      (do let _ ← loopSum 5
          return () : Turn Stepping Unit) s := by
  intro s loopSum
  have hmacros : s.defines.macros = [] := by cbv
  have ht : '&' ∉ "x".toList := by decide
  obtain ⟨hcount, -, hadd⟩ := loops_repeat_evaluation 1 hmacros ht
  have houtcome : (loopSum 5).outcome s = .ok ("15".toList, ⟨[], []⟩) := by decide +kernel
  obtain ⟨_, s', hloop, rfl⟩ := Turn.exists_of_map_outcome_eq_ok (f := id) (by rw [houtcome]; rfl)
  obtain ⟨-, -, -, rs, hrs, htotal⟩ := (hcount true 5 ⟨[], []⟩ _ _ s' (by decide)).mp hloop
  exact ⟨hmacros, ht, ⟨rs, s', hloop, hrs, htotal⟩,
    (hadd 2 3 (by decide) Nat.one_pos ⟨[], []⟩ ⟨[], []⟩ ⟨[], []⟩).1⟩

end DiceNotation
