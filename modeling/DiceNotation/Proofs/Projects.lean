import Mathlib
import DiceNotation.Proofs.Outcomes
import DiceNotation.Proofs.Repetition
import DiceNotation.Roller.Stepping
import DiceNotation.Session.Pipeline

/-!
# Projects

A project adds up the results of one roll until they reach a goal, and gives up after so many rolls.
Results may be negative and totals stay in the range of whole numbers, so that a project may come
near its goal and move away from it again.  What is shown is that it stops at the first chance, and
that its record is true: the rolls on record are those that were made, in a row and from the session
in which the goal was known.

## The record

The loop writes its record line by line.  `recordOf` says at once what is on record for a list of
rolls, and the invariant of the loop is that the record is the one of the rolls made so far.

* `FirstChance`: whether a project stops with the last of some rolls, and no sooner.
* `recordOf`, with `recordOf_concat`; `pursue_eq_ok_iff`.
* `stops_at_first_chance`.
-/

namespace DiceNotation.Project

open Trigger (addRoll fire projectLimit pursue raised resolveWhole runProject)

variable {ρ : Type}

/-- The rolls of a project that starts from a total, has a goal and gives up after so many. -/
structure FirstChance (start goal : Int) (limit : Nat) (rs : List Roll) : Prop where
  within : rs.length ≤ limit
  /-- Before any of the rolls, the goal was not reached. -/
  before : ∀ k < rs.length, runningTotal start (rs.take k) < goal
  /-- After them it is, or there may be no more. -/
  after : goal ≤ runningTotal start rs ∨ rs.length = limit

section FirstChance

variable {start goal : Int} {limit : Nat} {r : Roll} {rs : List Roll}

theorem firstChance_nil_iff : FirstChance start goal limit [] ↔ goal ≤ start ∨ limit = 0 := by
  refine ⟨fun h => h.after.imp_right Eq.symm, fun h => ⟨Nat.zero_le _, ?_, h.imp_right Eq.symm⟩⟩
  exact fun k hk => absurd hk (Nat.not_lt_zero k)

/-- A first roll is made where the goal is not reached, and the others go on from its total. -/
theorem firstChance_cons_iff : FirstChance start goal (limit + 1) (r :: rs) ↔
    start < goal ∧ FirstChance (Whole.clamp (start + r.value)) goal limit rs := by
  constructor
  · intro h
    refine ⟨h.before 0 (Nat.succ_pos _), Nat.le_of_succ_le_succ h.within, fun k hk => ?_, ?_⟩
    · exact h.before (k + 1) (Nat.succ_lt_succ hk)
    · exact h.after.imp_right Nat.succ.inj
  · rintro ⟨hstart, h⟩
    refine ⟨Nat.succ_le_succ h.within, fun k hk => ?_, h.after.imp_right (congrArg Nat.succ)⟩
    cases k with
    | zero => exact hstart
    | succ k => exact h.before k (Nat.lt_of_succ_lt_succ hk)

/-- Where nothing is to be done, or may be, nothing is rolled. -/
theorem FirstChance.eq_nil (h : FirstChance start goal limit rs)
    (hidle : goal ≤ start ∨ limit = 0) : rs = [] := by
  cases rs with
  | nil => rfl
  | cons r rs =>
    cases limit with
    | zero => exact absurd h.within (Nat.not_succ_le_zero _)
    | succ limit =>
      rcases hidle with hreached | hzero
      · exact absurd (firstChance_cons_iff.mp h).1 (Int.not_lt.mpr hreached)
      · exact absurd hzero (Nat.succ_ne_zero limit)

end FirstChance

/-! ## The record -/

/-- The line on record for one of some rolls, counted from zero. -/
def lineOf (goal : Int) (rs : List Roll) (i : Nat) (r : Roll) : String :=
  let code := String.ofList r.dice.code
  let total := runningTotal 0 (rs.take (i + 1))
  s!"{i + 1}: {code} rolled {r.value}, {total} of {goal}"

/-- What is on record of some rolls for a goal. -/
def recordOf (goal : Int) (rs : List Roll) : ProjectRecord where
  iterations := rs.length
  total := runningTotal 0 rs
  goal
  log := rs.mapIdx (lineOf goal rs)

/-- The lines of earlier rolls stay. -/
theorem mapIdx_lineOf_append (goal : Int) (rs rs' : List Roll) :
    rs.mapIdx (lineOf goal (rs ++ rs')) = rs.mapIdx (lineOf goal rs) := by
  refine List.mapIdx_eq_mapIdx_iff.mpr fun i hi => ?_
  unfold lineOf
  rw [List.take_append_of_le_length hi]

theorem recordOf_concat (goal : Int) (rs : List Roll) (r : Roll) :
    recordOf goal (rs ++ [r]) = addRoll (recordOf goal rs) r := by
  have htotal : runningTotal 0 (rs ++ [r]) = Whole.clamp (runningTotal 0 rs + r.value) :=
    runningTotal_append 0 rs [r]
  have hlength : (rs ++ [r]).length = rs.length + 1 := List.length_append
  have hline : lineOf goal (rs ++ [r]) rs.length r =
      (let code := String.ofList r.dice.code
       let total := Whole.clamp (runningTotal 0 rs + r.value)
       s!"{rs.length + 1}: {code} rolled {r.value}, {total} of {goal}") := by
    unfold lineOf
    rw [List.take_of_length_le hlength.le, htotal]
  unfold recordOf addRoll
  rw [List.length_append, List.length_singleton, htotal, List.mapIdx_concat, hline,
    mapIdx_lineOf_append]

/-! ## The loop -/

section Loop

variable (again : Reentry ρ) (roll : Text) (goal : Int) (done : List Roll) (n : Nat)
  {s s' : Session ρ} {record : ProjectRecord}

/-- A project that stops has made no more rolls. -/
theorem stopped_eq_ok_iff (hidle : goal ≤ runningTotal 0 done ∨ n = 0) :
    (pure (recordOf goal done) : Turn ρ ProjectRecord) s = .ok record s' ↔
      ∃ rs, FirstChance (runningTotal 0 done) goal n rs ∧
        Turn.times (again.evaluate roll) rs.length s = .ok rs s' ∧
        record = recordOf goal (done ++ rs) := by
  constructor
  · intro h
    obtain ⟨rfl, rfl⟩ := EStateM.Result.ok.inj h
    exact ⟨[], firstChance_nil_iff.mpr hidle, rfl, by rw [List.append_nil]⟩
  · rintro ⟨rs, hrs, hrun, rfl⟩
    obtain rfl := hrs.eq_nil hidle
    obtain ⟨-, rfl⟩ := EStateM.Result.ok.inj hrun
    rw [List.append_nil]
    rfl

/-- **The rolls of a project are made in a row, and it stops at the first chance.** -/
theorem pursue_eq_ok_iff :
    pursue again roll (recordOf goal done) n s = .ok record s' ↔
      ∃ rs, FirstChance (runningTotal 0 done) goal n rs ∧
        Turn.times (again.evaluate roll) rs.length s = .ok rs s' ∧
        record = recordOf goal (done ++ rs) := by
  -- Both ways by the number of rolls that are left.
  induction n generalizing done s with
  | zero => exact stopped_eq_ok_iff again roll goal done 0 (Or.inr rfl)
  | succ n ih =>
    have hnext : ∀ r : Roll, runningTotal 0 (done ++ [r]) =
        Whole.clamp (runningTotal 0 done + r.value) := fun r => runningTotal_append 0 done [r]
    unfold pursue
    split
    · next hbelow =>
      constructor
      · intro h
        obtain ⟨r, u, hr, h⟩ := Turn.exists_of_bind_eq_ok h
        rw [← recordOf_concat, ih, hnext] at h
        obtain ⟨rs, hrs, hrun, rfl⟩ := h
        exact ⟨r :: rs, firstChance_cons_iff.mpr ⟨hbelow, hrs⟩, Turn.times_cons hr hrun,
          by rw [List.append_assoc, List.singleton_append]⟩
      · rintro ⟨rs, hrs, hrun, rfl⟩
        cases rs with
        | nil =>
          rcases firstChance_nil_iff.mp hrs with h | h
          · exact absurd hbelow (Int.not_lt.mpr h)
          · exact absurd h (Nat.succ_ne_zero n)
        | cons r rs =>
          obtain ⟨a, u, as, hr, hrun, hcons⟩ := Turn.exists_of_times_succ hrun
          obtain ⟨rfl, rfl⟩ := List.cons.inj hcons
          rw [Turn.bind_of_ok _ hr, ← recordOf_concat, ih, hnext]
          exact ⟨rs, (firstChance_cons_iff.mp hrs).2, hrun,
            by rw [List.append_assoc, List.singleton_append]⟩
    · next hreached =>
      exact stopped_eq_ok_iff again roll goal done (n + 1) (Or.inl (Int.not_lt.mp hreached))

end Loop

/-- The most rolls of a project: fifty, or five hundred when the limits are raised, and no more than
the number that is set. -/
theorem projectLimit_eq (flags : Flags) :
    projectLimit flags =
      let cap := if flags.limitBreak then 500 else 50
      flags.max.elim cap fun m => min cap (max 0 m).toNat := by
  unfold projectLimit raised
  cases flags.max with
  | none => rfl
  | some m =>
    show _ = min _ (max 0 m).toNat
    rw [show (max 0 m).toNat = m.toNat by omega]
    rfl

/-- The session with what is on record of a project. -/
def withProject (record : ProjectRecord) (s : Session ρ) : Session ρ :=
  { s with flags := { s.flags with project := some record } }

theorem fire_project_eq (again : Reentry ρ) (roll goal : Text) (around : Surroundings)
    (s : Session ρ) :
    fire again (Trigger.project roll goal) around s = (do
      let n ← resolveWhole again goal
      let u ← get
      let record ← pursue again roll (recordOf n []) (projectLimit u.flags)
      modify (withProject record)
      return (Whole.render record.iterations, around) : Turn ρ _) s := by
  show ((runProject again roll goal >>= fun record => pure (Whole.render record.iterations)) >>=
    fun output => pure (output, around) : Turn ρ _) s = _
  unfold runProject
  simp only [bind_assoc, pure_bind]
  rfl

/-- A project that ends well has made the rolls that are on record. -/
theorem fire_project_eq_ok_iff (again : Reentry ρ) (roll goal : Text) (around : Surroundings)
    {s s' : Session ρ} {output : Text} {left : Surroundings} :
    fire again (.project roll goal) around s = .ok (output, left) s' ↔
      ∃ n u rs v, resolveWhole again goal s = .ok n u ∧
        FirstChance 0 n (projectLimit u.flags) rs ∧
        Turn.times (again.evaluate roll) rs.length u = .ok rs v ∧
        s' = withProject (recordOf n rs) v ∧ output = Whole.render rs.length ∧ left = around := by
  rw [fire_project_eq]
  constructor
  · intro h
    obtain ⟨n, u, hgoal, h⟩ := Turn.exists_of_bind_eq_ok h
    rw [Turn.get_bind] at h
    obtain ⟨record, v, hrecord, h⟩ := Turn.exists_of_bind_eq_ok h
    obtain ⟨rs, hrs, hrun, rfl⟩ := (pursue_eq_ok_iff again roll n [] _).mp hrecord
    obtain ⟨hanswer, rfl⟩ := EStateM.Result.ok.inj h
    obtain ⟨rfl, rfl⟩ := Prod.mk.inj hanswer
    exact ⟨n, u, rs, v, hgoal, hrs, hrun, rfl, rfl, rfl⟩
  · rintro ⟨n, u, rs, v, hgoal, hrs, hrun, rfl, rfl, rfl⟩
    have hrecord := (pursue_eq_ok_iff again roll n [] _).mpr ⟨rs, hrs, hrun, rfl⟩
    rw [Turn.bind_of_ok _ hgoal, Turn.get_bind, Turn.bind_of_ok _ hrecord]
    rfl

/-- **A project stops at the first chance and records it truly.**  It ends well exactly if its goal
resolves to a number `n` and there are rolls in a row, from the session in which this is known, such
that the total is below `n` before each of them and after them reaches `n` or there may be no more.
Then the record is that of these rolls, with one line for each, and the output is how many there
were.  With nothing to do, or no roll allowed, the roll is not evaluated: whatever evaluation would
do, the project ends at once. -/
theorem stops_at_first_chance (again : Reentry ρ) (roll goal : Text) (around : Surroundings)
    (s : Session ρ) :
    let limit := fun u : Session ρ =>
      let cap := if u.flags.limitBreak then 500 else 50
      u.flags.max.elim cap fun m => min cap (max 0 m).toNat
    let recorded := fun (record : ProjectRecord) (v : Session ρ) =>
      { v with flags := { v.flags with project := some record } }
    (∀ output left s', fire again (.project roll goal) around s = .ok (output, left) s' ↔
      ∃ n u rs v log, resolveWhole again goal s = .ok n u ∧
        Turn.times (again.evaluate roll) rs.length u = .ok rs v ∧
        rs.length ≤ limit u ∧ (∀ k < rs.length, runningTotal 0 (rs.take k) < n) ∧
        (n ≤ runningTotal 0 rs ∨ rs.length = limit u) ∧
        log = rs.mapIdx (lineOf n rs) ∧ log.length = rs.length ∧
        s' = recorded ⟨rs.length, runningTotal 0 rs, n, log⟩ v ∧
        output = Whole.render rs.length ∧ left = around) ∧
    ∀ n u, resolveWhole again goal s = .ok n u → n ≤ 0 ∨ limit u = 0 →
      ∀ evaluate : Text → Turn ρ Roll,
        fire { again with evaluate } (.project roll goal) around s =
          .ok (['0'], around) (recorded ⟨0, 0, n, []⟩ u) := by
  intro limit recorded
  have hlimit : ∀ u, limit u = projectLimit u.flags := fun u => (projectLimit_eq u.flags).symm
  refine ⟨fun output left s' => ?_, fun n u hgoal hidle evaluate => ?_⟩
  · rw [fire_project_eq_ok_iff]
    simp only [hlimit]
    constructor
    · rintro ⟨n, u, rs, v, hgoal, hrs, hrun, hs', houtput, hleft⟩
      exact ⟨n, u, rs, v, _, hgoal, hrun, hrs.within, hrs.before, hrs.after, rfl,
        List.length_mapIdx, hs', houtput, hleft⟩
    · rintro ⟨n, u, rs, v, log, hgoal, hrun, hwithin, hbefore, hafter, rfl, -, hs', houtput, hleft⟩
      exact ⟨n, u, rs, v, hgoal, ⟨hwithin, hbefore, hafter⟩, hrun, hs', houtput, hleft⟩
  · rw [hlimit] at hidle
    exact (fire_project_eq_ok_iff { again with evaluate } roll goal around).mpr
      ⟨n, u, [], u, hgoal, firstChance_nil_iff.mpr hidle, rfl, rfl, rfl, rfl⟩

/-- Three rolls reach five, and none is made for nothing, with a roll that could not end. -/
theorem stops_at_first_chance_of_five :
    let s := Session.start {} (Stepping.mk 1 1)
    (∃ rs v s', Turn.times ((reentry 1).evaluate "1d6g".toList) 3 s = .ok rs v ∧
      (∀ k < 3, runningTotal 0 (rs.take k) < 5) ∧ 5 ≤ runningTotal 0 rs ∧
      fire (reentry 1) (.project "1d6g".toList "5".toList) ⟨[], []⟩ s = .ok (['3'], ⟨[], []⟩) s' ∧
      s'.flags.project = some ⟨3, runningTotal 0 rs, 5, rs.mapIdx (lineOf 5 rs)⟩) ∧
    resolveWhole (reentry 1) "2-2".toList s = .ok 0 s ∧
    fire { (reentry 1 : Reentry Stepping) with evaluate := fun _ => throw .exhausted }
        (.project "1d6g".toList "2-2".toList) ⟨[], []⟩ s =
      .ok (['0'], ⟨[], []⟩) { s with flags := { project := some ⟨0, 0, 0, []⟩ } } := by
  intro s
  have hgoal : resolveWhole (reentry 1) "2-2".toList s = .ok 0 s := by cbv
  refine ⟨?_, hgoal, (stops_at_first_chance (reentry 1) _ _ _ s).2 0 s hgoal
    (Or.inl (Int.le_refl 0)) fun _ => throw .exhausted⟩
  have hfive : resolveWhole (reentry 1) "5".toList s = .ok 5 s := by cbv
  have houtcome : ((fire (reentry 1) (.project "1d6g".toList "5".toList) ⟨[], []⟩).outcome s).map
      id = .ok (['3'], ⟨[], []⟩) := by decide +kernel
  obtain ⟨_, s', hfire, rfl⟩ := Turn.exists_of_map_outcome_eq_ok houtcome
  obtain ⟨n, u, rs, v, log, hn, hrolls, -, hbefore, hafter, hlog, -, hs', houtput, -⟩ :=
    ((stops_at_first_chance (reentry 1) _ _ _ s).1 _ _ s').mp hfire
  cases hfive.symm.trans hn
  have hthree : rs.length = 3 := by
    have hread := congrArg Whole.readInt? houtput
    rw [Whole.readInt?_render] at hread
    exact Int.ofNat.inj (Option.some.inj hread).symm
  rw [hthree] at hrolls hbefore hafter hs'
  refine ⟨rs, v, s', hrolls, hbefore, hafter.resolve_right (by decide), hfire, ?_⟩
  rw [hs', hlog]

end DiceNotation.Project
