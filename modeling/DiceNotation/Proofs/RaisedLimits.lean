import DiceNotation.Proofs.Operations
import DiceNotation.Proofs.Totals

/-!
# Raised limits

Loops and projects have limits, which a trigger raises for whoever has the permission.  Without it
no text raises them: neither a text of a request, nor one that a define stands for, nor one that a
trigger starts, in whatever order they come and however they end.

## What is shown

That the limits are not raised is an invariant, since only one trigger sets the flag, and it asks
the configuration.  This is about sessions between operations.  What happens in the middle of a call
is observed by a call in which triggers fire in a *guarded* way: a guarded trigger halts the call,
in a way that can be chosen, if the limits are raised when it begins or ends to fire, if a loop is
about to evaluate its roll more often than it may, or if a project is.  A guarded call ends as the
call itself does, whatever halt is chosen, so that no guard is ever reached (`limits_stay_low`).

* `reentryBy`, `Call.runFiring`: calls in which triggers fire in a given way.
* `Trigger.fireGuarded`.
* `Fair.fireGuarded`: where the limits are not raised, a guarded trigger fires like any other.
* `Unraised`, `limits_stay_low`.
-/

namespace DiceNotation

variable {ρ : Type}

/-! ## Calls in which triggers fire in a given way -/

section Firings

variable [Roller ρ] {fires fires' : Reentry ρ → Firing ρ}

/-- What a text resolves to, when its triggers fire in a given way and start others as given. -/
def resolveFiring (fires : Reentry ρ → Firing ρ) (again : Reentry ρ) : Text → Turn ρ Text :=
  Resolution.resolveBy (Trigger.expandBy (fires again))

/-- Evaluation and resolution for triggers that fire in a given way, when so many of them may start
one another. -/
def reentryBy (fires : Reentry ρ → Firing ρ) : Nat → Reentry ρ
  | 0 => ⟨fun _ => throw .exhausted, fun _ => throw .exhausted⟩
  | n + 1 =>
    ⟨Turn.evaluateBy (resolveFiring fires (reentryBy fires n)),
      resolveFiring fires (reentryBy fires n)⟩

/-- A call in which triggers fire in a given way. -/
def Call.runFiring (fires : Reentry ρ → Firing ρ) (k : Call) : Turn ρ k.Answer := do
  let s ← get
  let resolves := resolveFiring fires (reentryBy fires (reach s.config))
  k.runBy (Turn.evaluateBy resolves) resolves

theorem resolve_eq_resolveFiring (again : Reentry ρ) :
    Resolution.resolve again = resolveFiring Trigger.fire again := by
  rw [Resolution.resolve_eq_resolveBy, Trigger.expand_eq_expandBy]
  rfl

theorem reentry_eq_reentryBy (n : Nat) : (reentry n : Reentry ρ) = reentryBy Trigger.fire n := by
  induction n with
  | zero => rfl
  | succ n ih =>
    unfold reentry reentryBy
    rw [ih, ← resolve_eq_resolveFiring]
    rfl

/-- A call is one in which triggers fire as they do. -/
theorem Call.run_eq_runFiring (k : Call) (s : Session ρ) :
    k.run s = k.runFiring Trigger.fire s := by
  rw [Call.run_eq_runBy, Turn.evaluateWith_eq_evaluateBy, resolve_eq_resolveFiring,
    reentry_eq_reentryBy]
  rfl

namespace Coupling

variable {C : Coupling ρ} {c : Config}

omit [Roller ρ] in
/-- Two ways of firing triggers are tied whenever what the triggers start is tied. -/
def FiresAlike (C : Coupling ρ) (fires fires' : Reentry ρ → Firing ρ) : Prop :=
  ∀ ⦃again again'⦄, C.TiesAgain again again' → C.TiesFiring (fires again) (fires' again')

/-- Resolution is tied when firing and starting again are. -/
theorem Fair.resolveFiring (hC : C.Fair c) (hfires : C.FiresAlike fires fires')
    {again again' : Reentry ρ} (h : C.TiesAgain again again') (t : Text) :
    C.Ties Eq (resolveFiring fires again t) (resolveFiring fires' again' t) :=
  hC.resolveBy (hC.rounds (hfires h)) trivial

/-- Chains of triggers are tied when firing is, by a coupling that does not look at the depth. -/
theorem Fair.reentryBy (hC : C.Fair c) (hN : C.Nests C)
    (hexhausted : ∀ s s', C.state s s' → C.halt .exhausted s .exhausted s')
    (hfires : C.FiresAlike fires fires') (n : Nat) :
    C.TiesAgain (reentryBy fires n) (reentryBy fires' n) := by
  induction n with
  | zero => exact ⟨fun _ _ => ties_throw hexhausted, fun _ _ => ties_throw hexhausted⟩
  | succ n ih =>
    have hresolve := hC.resolveFiring hfires ih
    exact ⟨fun t _ => hC.evaluateBy hC hN (hresolve t), fun t _ => hresolve t⟩

/-- **A call is tied when firing is.** -/
theorem Fair.runFiring (hC : C.Fair c) (hN : C.Nests C)
    (hexhausted : ∀ s s', C.state s s' → C.halt .exhausted s .exhausted s')
    (hreset : ∀ {s s'}, C.state s s' →
      C.state { s with cup := s.cup.reset } { s' with cup := s'.cup.reset })
    (hfires : C.FiresAlike fires fires') (k : Call) :
    C.Ties Eq (k.runFiring fires) (k.runFiring fires') := by
  refine ties_bind ties_get fun s s' hs => ?_
  rw [(hC.config hs).1, (hC.config hs).2]
  have hresolve := hC.resolveFiring hfires (hC.reentryBy hN hexhausted hfires (reach c))
  exact ties_runBy hC hreset (fun t => hC.evaluateBy hC hN (hresolve t)) hresolve k

end Coupling

end Firings

/-! ## Guards -/

/-- A turn that halts if the limits are raised when it begins or ends. -/
def Turn.whileUnraised {α : Type} (beyond : Halt) (x : Turn ρ α) : Turn ρ α := do
  let s ← get
  if s.flags.limitBreak then throw beyond
  else
    let a ← x
    let s ← get
    if s.flags.limitBreak then throw beyond else return a

namespace Trigger

section Guards

variable (beyond : Halt) (again : Reentry ρ)

/-- Rolls so many times, but halts where it would roll more often than it may. -/
def repeatRollWithin (roll : Text) : (allowed : Nat) → (total : Int) → Nat → Turn ρ Int
  | _, total, 0 => pure total
  | 0, _, _ + 1 => throw beyond
  | allowed + 1, total, n + 1 => do
    let r ← again.evaluate roll
    repeatRollWithin roll allowed (Whole.clamp (total + r.value)) n

/-- Runs a loop that halts where it would roll more often than it may. -/
def runLoopWithin (allowed : Nat) (roll times : Text) : Turn ρ Int := do
  let n ← resolveWhole again times
  let s ← get
  repeatRollWithin beyond again roll allowed 0 (min n.toNat (raised s.flags loopCap))

/-- Rolls until the goal is reached, but halts where it would roll more often than it may. -/
def pursueWithin (roll : Text) : (allowed : Nat) → ProjectRecord → Nat → Turn ρ ProjectRecord
  | _, record, 0 => pure record
  | allowed, record, n + 1 =>
    if record.total < record.goal then
      match allowed with
      | 0 => throw beyond
      | allowed + 1 => do
        let r ← again.evaluate roll
        pursueWithin roll allowed (addRoll record r) n
    else pure record

/-- Runs a project that halts where it would roll more often than it may. -/
def runProjectWithin (allowed : Nat) (roll goal : Text) : Turn ρ ProjectRecord := do
  let goal ← resolveWhole again goal
  let s ← get
  let record ← pursueWithin beyond again roll allowed { goal } (projectLimit s.flags)
  Turn.modifyFlags fun flags => { flags with project := some record }
  return record

end Guards

/-- Fires a trigger that halts where a loop or a project would roll more often than it may. -/
def fireWithin (loops projects : Nat) (beyond : Halt) (again : Reentry ρ) : Firing ρ
  | .loop roll times, around => do
    let _ ← runLoopWithin beyond again loops roll times
    return ([], around)
  | .loopSum roll times, around => do
    let total ← runLoopWithin beyond again loops roll times
    return (Whole.render total, around)
  | .project roll goal, around => do
    let record ← runProjectWithin beyond again projects roll goal
    return (Whole.render record.iterations, around)
  | t, around => fire again t around

/-- Fires a trigger that halts if the limits are raised, or where a loop or a project would roll
more often than it may. -/
def fireGuarded (loops projects : Nat) (beyond : Halt) (again : Reentry ρ) : Firing ρ :=
  fun t around => Turn.whileUnraised beyond (fireWithin loops projects beyond again t around)

/-- A loop that rolls no more often than it may is not halted. -/
theorem repeatRollWithin_of_le (beyond : Halt) (again : Reentry ρ) {roll : Text} {allowed n : Nat}
    (h : n ≤ allowed) (total : Int) :
    repeatRollWithin beyond again roll allowed total n = repeatRoll again roll total n := by
  induction n generalizing allowed total with
  | zero =>
    cases allowed with
    | zero => rfl
    | succ allowed => rfl
  | succ n ih =>
    cases allowed with
    | zero => exact absurd h (Nat.not_succ_le_zero n)
    | succ allowed =>
      unfold repeatRollWithin repeatRoll
      simp only [ih (Nat.le_of_succ_le_succ h)]

/-- A project that rolls no more often than it may is not halted. -/
theorem pursueWithin_of_le (beyond : Halt) (again : Reentry ρ) {roll : Text} {allowed n : Nat}
    (h : n ≤ allowed) (record : ProjectRecord) :
    pursueWithin beyond again roll allowed record n = pursue again roll record n := by
  induction n generalizing allowed record with
  | zero =>
    cases allowed with
    | zero => rfl
    | succ allowed => rfl
  | succ n ih =>
    cases allowed with
    | zero => exact absurd h (Nat.not_succ_le_zero n)
    | succ allowed =>
      unfold pursueWithin pursue
      simp only [ih (Nat.le_of_succ_le_succ h)]

end Trigger

namespace Coupling

variable {C : Coupling ρ}

/-- The limits are not raised in the second of two sessions that are related. -/
def Low (C : Coupling ρ) : Prop := ∀ {s s'}, C.state s s' → s'.flags.limitBreak = false

/-- A guard on the limits is not reached, where they are not raised. -/
theorem ties_whileUnraised {α β : Type} (hlow : C.Low) {V : α → β → Prop} {x : Turn ρ α}
    {y : Turn ρ β} (h : C.Ties V x y) (beyond : Halt) :
    C.Ties V x (Turn.whileUnraised beyond y) := by
  intro s s' hs
  have hends := h s s' hs
  have hbegin : Turn.whileUnraised beyond y s' =
      (y >>= fun b => do
        let u ← get
        if u.flags.limitBreak then throw beyond else return b : Turn ρ β) s' := by
    unfold Turn.whileUnraised
    rw [Turn.get_bind, hlow hs, if_neg Bool.false_ne_true]
  rw [hbegin]
  cases hy : y s' with
  | ok b t' =>
    rw [Turn.bind_of_ok _ hy, Turn.get_bind]
    cases hx : x s with
    | ok a t =>
      rw [hx, hy] at hends
      rw [hlow hends.2, if_neg Bool.false_ne_true]
      exact hends
    | error e t =>
      rw [hx, hy] at hends
      exact ends_of_ahead hends _
  | error e t' =>
    rw [Turn.bind_of_error _ hy]
    rw [hy] at hends
    exact hends

variable [Roller ρ] {c : Config} {again again' : Reentry ρ} {loops projects : Nat}

/-- Where the limits are not raised, a loop rolls no more often than it may. -/
theorem Fair.runLoopWithin (hC : C.Fair c) (hlow : C.Low) (h : C.TiesAgain again again')
    (hloops : Trigger.loopCap ≤ loops) (beyond : Halt) {roll times : Text} (hroll : '&' ∉ roll)
    (htimes : '&' ∉ times) :
    C.Ties Eq (Trigger.runLoop again roll times)
      (Trigger.runLoopWithin beyond again' loops roll times) := by
  refine ties_bind (hC.resolveWhole h htimes) fun n _ hn => ?_
  obtain rfl := hn
  refine ties_bind ties_get fun s s' hs => ?_
  have hcount : min n.toNat (Trigger.raised s'.flags Trigger.loopCap) ≤ loops := by
    rw [Trigger.raised_of_not_limitBreak (hlow hs)]
    exact Nat.le_trans (Nat.min_le_right _ _) hloops
  rw [Trigger.repeatRollWithin_of_le beyond again' hcount, ← hC.flags_eq hs]
  exact Fair.repeatRoll h hroll _ _

/-- Where the limits are not raised, a project rolls no more often than it may. -/
theorem Fair.runProjectWithin (hC : C.Fair c) (hlow : C.Low) (h : C.TiesAgain again again')
    (hprojects : Trigger.projectCap ≤ projects) (beyond : Halt) {roll goal : Text}
    (hroll : '&' ∉ roll) (hgoal : '&' ∉ goal) :
    C.Ties Eq (Trigger.runProject again roll goal)
      (Trigger.runProjectWithin beyond again' projects roll goal) := by
  refine ties_bind (hC.resolveWhole h hgoal) fun n _ hn => ?_
  obtain rfl := hn
  refine ties_bind ties_get fun s s' hs => ?_
  have hcount : Trigger.projectLimit s'.flags ≤ projects := by
    have hle := Trigger.projectLimit_le s'.flags
    rw [Trigger.raised_of_not_limitBreak (hlow hs)] at hle
    exact Nat.le_trans hle hprojects
  rw [Trigger.pursueWithin_of_le beyond again' hcount, ← hC.flags_eq hs]
  refine ties_bind (Fair.pursue h hroll _ _) fun record _ hrecord => ?_
  obtain rfl := hrecord
  exact ties_bind (hC.modifyFlags fun _ => Or.inl) fun _ _ _ => ties_pure rfl

/-- **Where the limits are not raised, guarded triggers fire like any others.** -/
theorem Fair.fireGuarded (hC : C.Fair c) (hlow : C.Low) (hloops : Trigger.loopCap ≤ loops)
    (hprojects : Trigger.projectCap ≤ projects) (beyond : Halt) :
    C.FiresAlike Trigger.fire (Trigger.fireGuarded loops projects beyond) := by
  intro again again' h t ht around haround
  refine ties_whileUnraised hlow ?_ beyond
  cases t with
  | loop roll times =>
    have hroll : '&' ∉ roll := ht roll (by simp [Trigger.texts])
    have htimes : '&' ∉ times := ht times (by simp [Trigger.texts])
    have hloop := hC.runLoopWithin hlow h hloops beyond hroll htimes
    show C.Ties _ ((Trigger.runLoop again roll times >>= fun _ => pure []) >>= fun output =>
      pure (output, around)) _
    rw [bind_assoc]
    exact ties_bind hloop fun _ _ _ => ties_pure ⟨rfl, List.not_mem_nil, haround⟩
  | loopSum roll times =>
    have hroll : '&' ∉ roll := ht roll (by simp [Trigger.texts])
    have htimes : '&' ∉ times := ht times (by simp [Trigger.texts])
    have hloop := hC.runLoopWithin hlow h hloops beyond hroll htimes
    show C.Ties _ ((Trigger.runLoop again roll times >>= fun total => pure (Whole.render total)) >>=
      fun output => pure (output, around)) _
    rw [bind_assoc]
    refine ties_bind hloop fun total _ htotal => ?_
    exact ties_pure ⟨by rw [htotal], Whole.no_ampersand_render _, haround⟩
  | project roll goal =>
    have hroll : '&' ∉ roll := ht roll (by simp [Trigger.texts])
    have hgoal : '&' ∉ goal := ht goal (by simp [Trigger.texts])
    have hproject := hC.runProjectWithin hlow h hprojects beyond hroll hgoal
    show C.Ties _ ((Trigger.runProject again roll goal >>= fun record =>
      pure (Whole.render record.iterations)) >>= fun output => pure (output, around)) _
    rw [bind_assoc]
    refine ties_bind hproject fun record _ hrecord => ?_
    exact ties_pure
      ⟨by rw [hrecord], Whole.no_ampersand_render (record.iterations : Int), haround⟩
  | _ => exact hC.fire h ht haround

end Coupling

/-! ## Sessions without the permission -/

/-- A session with this configuration in which the limits are not raised. -/
def Unraised (c : Config) (s : Session ρ) : Prop := s.config = c ∧ s.flags.limitBreak = false

variable [Roller ρ] {c : Config}

/-- **Without the permission, that the limits are not raised is an invariant.** -/
theorem invariant_unraised (hc : c.isAdministrator = false) :
    Turn.Invariant (ρ := ρ) c (Unraised c) fun _ => Unraised c where
  config := And.left
  failed _ hs := hs
  message hs := hs
  exhausted hs := hs
  dice _ _ hs _ := hs
  diceFailed _ _ hs _ := hs
  record _ hs := hs
  flags := by
    intro f s hf hs
    refine ⟨hs.1, Bool.eq_false_iff.mpr fun hraised => ?_⟩
    rcases hf hraised with hbefore | hadmin
    · exact absurd hbefore (Bool.eq_false_iff.mp hs.2)
    · exact absurd hadmin (Bool.eq_false_iff.mp hc)
  defines _ hs := hs
  enter hs := hs
  leave hs := hs
  leaveHalted hs := hs

theorem unraised_perform (hc : c.isAdministrator = false) (s : Session ρ) (op : Operation ρ)
    (hs : Unraised c s) : Unraised c (s.perform op) := by
  cases op with
  | call k => exact (invariant_unraised hc).call (fun hs => hs) hs k
  | switch which on =>
    cases which with
    | ignore => exact hs
    | verbose => exact hs
  | resetFlags => exact ⟨hs.1, rfl⟩
  | setDefines d => exact hs
  | setRoller roller => exact hs

/-- A guarded call ends as the call itself does, where the limits are not raised and cannot be. -/
theorem run_eq_runFiring_fireGuarded (hc : c.isAdministrator = false) {s : Session ρ}
    (hs : Unraised c s) (k : Call) (beyond : Halt) :
    k.run s = k.runFiring (Trigger.fireGuarded Trigger.loopCap Trigger.projectCap beyond) s := by
  have hI := invariant_unraised (ρ := ρ) hc
  have hfires := hI.fair.fireGuarded (fun hu => hu.1 ▸ hu.2.2) (Nat.le_refl Trigger.loopCap)
    (Nat.le_refl Trigger.projectCap) beyond
  have hties := hI.fair.runFiring (hI.tower.nests 0) (fun u u' hu => ⟨⟨rfl, hu.1⟩, hu.2⟩)
    (fun hu => ⟨by rw [hu.1], hu.2⟩) hfires k
  rw [Call.run_eq_runFiring]
  exact Coupling.eq_of_ties_single hties hs

/-- **Without the permission the limits are never raised**, whatever is done with a session, with
whatever texts and defines, and however it ends.  In no call afterwards does a loop evaluate its
roll more than 100 times, or a project more than 50 times, and at no trigger of it are the limits
raised: triggers could be guarded against all three, and halt the call in any way, without a
difference. -/
theorem limits_stay_low (hc : c.isAdministrator = false) (roller : ρ) (ops : List (Operation ρ)) :
    ((Session.start c roller).afterOperations ops).flags.limitBreak = false ∧
    ∀ (k : Call) (beyond : Halt),
      k.run ((Session.start c roller).afterOperations ops) =
        k.runFiring (Trigger.fireGuarded 100 50 beyond)
          ((Session.start c roller).afterOperations ops) := by
  have hlow : Unraised c ((Session.start c roller).afterOperations ops) :=
    Session.keeps_afterOperations (unraised_perform hc) ⟨rfl, rfl⟩ ops
  exact ⟨hlow.2, run_eq_runFiring_fireGuarded hc hlow⟩

/-- Without any permission a define cannot raise the limits, neither in the text of a request nor
as the roll of a loop, and a failure in between changes nothing about it. -/
theorem limits_stay_low_without_permissions :
    let ops : List (Operation Stepping) :=
      [.setDefines (.ofList [("m".toList, "&limitbreak& 1d6".toList)]),
        .call (.roll "m; &loop m 500&".toList), .call (.evaluate "&loop m 2& (".toList),
        .switch .verbose true]
    let s := (Session.start {} ⟨1, 1⟩).afterOperations ops
    ({} : Config).isAdministrator = false ∧ s.flags.limitBreak = false ∧
    (Call.roll "&max 500& &project m 900&".toList).run s =
      (Call.roll "&max 500& &project m 900&".toList).runFiring
        (Trigger.fireGuarded 100 50 .exhausted) s := by
  intro ops s
  have hc : ({} : Config).isAdministrator = false := by decide
  have h := limits_stay_low hc (Stepping.mk 1 1) ops
  exact ⟨hc, h.1, h.2 _ _⟩

/-- With the permission a guard is reached. -/
example (again : Reentry Stepping) :
    (resolveFiring (Trigger.fireGuarded 100 50 (.message "raised")) again
      "&limitbreak& 1".toList).outcome
        (.start { permissions := [Config.administrator] } ⟨1, 1⟩) =
      .error (.message "raised") := by cbv

end DiceNotation
