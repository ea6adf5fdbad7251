import Mathlib
import DiceNotation.Proofs.Coupling.Level
import DiceNotation.Proofs.PlainText
import DiceNotation.Roller.Scripted

/-!
# Chains of triggers

A trigger may evaluate a text, or resolve one to a number, and the text may hold triggers that
do so again.  The depth bounds how often evaluations are nested in one another.  Numbers are not
counted by it, so that a define that resolves a number with its own name goes on for ever.  The
pipeline is kept total by a bound on the whole chain, `reentry`, and a run that reaches this
bound is *exhausted*.

A run *returns* if some bound is enough for it.  This module says exactly when: chains of numbers
must have an end, and nothing has to be asked of evaluations.

## Counting the two apart

`nested` bounds the numbers and the evaluations of a chain apart from each other.  What happens when
there is one number too many is a parameter.  A run in which the numbers end is one that does not
depend on this parameter, so the condition `NumbersEnd` does not speak of being exhausted, and it
allows as many evaluations as the depth does and not one more.

## How the two bounds are compared

Both ways of starting again are compared through couplings of a run with itself
(`Coupling.level`), which know the depth.  A smaller bound is ahead of a larger one
(`tiesAgain_reentry_nested`, `tiesAgain_nested_reentry`), and two bounds on evaluations are the
same if both exceed what the depth still allows (`tiesAgain_nested`), since an evaluation that
the depth refuses starts nothing again.

* `Turn.Exhausted`, `Turn.Returns`, `nested`, `NumbersWithin`, `NumbersEnd`.
* `Uniform`: runs that look at chains only by starting again.
* `returns_iff_numbersEnd`: when the operations of a session return.
-/

namespace DiceNotation

variable {ρ α : Type}

/-- A run has given up on a chain of triggers. -/
def Turn.Exhausted (r : EStateM.Result Halt (Session ρ) α) : Prop := ∃ s, r = .error .exhausted s

/-- From this session a run returns, when chains of triggers may be long enough. -/
def Turn.Returns [Roller ρ] (run : Reentry ρ → Turn ρ α) (s : Session ρ) : Prop :=
  ∃ n, ¬ Exhausted (run (reentry n) s)

/-- Evaluation and resolution for triggers, when so many numbers and so many evaluations may
start one another.  One number too many halts as given. -/
def nested [Roller ρ] (beyond : Halt) (numbers evaluations : Nat) : Reentry ρ :=
  { evaluate := fun t =>
      match evaluations with
      | 0 => throw .exhausted
      | evaluations + 1 => Turn.evaluateWith (nested beyond numbers evaluations) t
    resolve := fun t =>
      match numbers with
      | 0 => throw beyond
      | numbers + 1 => Resolution.resolve (nested beyond numbers evaluations) t }
termination_by numbers + evaluations

section Nested

variable [Roller ρ] (beyond : Halt) (k d : Nat) (t : Text)

@[simp] theorem nested_evaluate_zero :
    (nested beyond k 0 : Reentry ρ).evaluate t = throw .exhausted := by
  rw [nested]

@[simp] theorem nested_evaluate_succ :
    (nested beyond k (d + 1) : Reentry ρ).evaluate t = Turn.evaluateWith (nested beyond k d) t := by
  rw [nested]

@[simp] theorem nested_resolve_zero :
    (nested beyond 0 d : Reentry ρ).resolve t = throw beyond := by
  rw [nested]

@[simp] theorem nested_resolve_succ :
    (nested beyond (k + 1) d : Reentry ρ).resolve t = Resolution.resolve (nested beyond k d) t := by
  rw [nested]

end Nested

/-- With this many numbers and as many evaluations as the depth allows, a run does not depend on
what comes beyond. -/
def NumbersWithin [Roller ρ] (k : Nat) (run : Reentry ρ → Turn ρ α) (s : Session ρ) : Prop :=
  ∀ beyond beyond', run (nested beyond k (s.config.maxDepth + 1)) s =
    run (nested beyond' k (s.config.maxDepth + 1)) s

/-- The numbers that triggers resolve within one another come to an end. -/
def NumbersEnd [Roller ρ] (run : Reentry ρ → Turn ρ α) (s : Session ρ) : Prop :=
  ∃ k, NumbersWithin k run s

namespace Coupling

variable {c : Config} {permits : Halt → Prop}

/-- Runs in which the first one is ahead, and which start with its being exhausted. -/
theorem ties_exhausted {C : Coupling ρ} (hC : C.ahead .exhausted) {V : α → α → Prop}
    (y : Turn ρ α) :
    C.Ties V (throw .exhausted) y := by
  intro s s' _
  show C.Ends V (.error .exhausted s) (y s')
  cases y s' with
  | ok a t => exact hC
  | error h t => exact Or.inl hC

variable [Roller ρ]

/-- A level that permits every halt, and allows the first run to be ahead. -/
def leading (c : Config) : Nat → Coupling ρ := level c (fun h => h = .exhausted) fun _ => True

theorem tower_leading (c : Config) : Tower (leading c : Nat → Coupling ρ) c :=
  tower_level (fun _ => trivial) fun _ => trivial

/-- A chain is ahead of one that may be longer. -/
theorem tiesAgain_reentry {n m : Nat} (h : n ≤ m) (e : Nat) :
    (leading c e).TiesAgain (reentry n : Reentry ρ) (reentry m) := by
  induction n generalizing m e with
  | zero => exact ⟨fun _ _ => ties_exhausted rfl _, fun _ _ => ties_exhausted rfl _⟩
  | succ n ih =>
    obtain ⟨m, rfl⟩ := Nat.exists_eq_add_of_le' h
    have hT := tower_leading (ρ := ρ) c
    have hinner : ∀ e, (leading c e).TiesAgain (reentry n : Reentry ρ) (reentry (m + n)) :=
      ih (Nat.le_add_left n m)
    constructor
    · intro t _
      exact (hT.fair e).evaluateWith (hT.fair (e + 1)) (hT.nests e) (hinner (e + 1)) t
    · intro t _
      exact (hT.fair e).resolve (hinner e) t

/-- A chain of bounded length is ahead of one in which as many numbers and as many evaluations
may occur. -/
theorem tiesAgain_reentry_nested (beyond : Halt) {n k d : Nat} (hk : n ≤ k) (hd : n ≤ d) (e : Nat) :
    (leading c e).TiesAgain (reentry n : Reentry ρ) (nested beyond k d) := by
  induction n generalizing k d e with
  | zero => exact ⟨fun _ _ => ties_exhausted rfl _, fun _ _ => ties_exhausted rfl _⟩
  | succ n ih =>
    obtain ⟨k, rfl⟩ := Nat.exists_eq_add_of_le' hk
    obtain ⟨d, rfl⟩ := Nat.exists_eq_add_of_le' hd
    have hT := tower_leading (ρ := ρ) c
    constructor
    · intro t _
      rw [← Nat.add_assoc d, nested_evaluate_succ]
      have hinner := ih (Nat.le_of_succ_le hk) (Nat.le_add_left n d) (e + 1)
      exact (hT.fair e).evaluateWith (hT.fair (e + 1)) (hT.nests e) hinner t
    · intro t _
      rw [← Nat.add_assoc k, nested_resolve_succ]
      have hinner := ih (Nat.le_add_left n k) (Nat.le_of_succ_le hd) e
      exact (hT.fair e).resolve hinner t

/-- Numbers and evaluations that are bounded apart, with nothing beyond, are ahead of a chain
that may be as long as both bounds together. -/
theorem tiesAgain_nested_reentry {n k d : Nat} (h : k + d ≤ n) (e : Nat) :
    (leading c e).TiesAgain (nested .exhausted k d : Reentry ρ) (reentry n) := by
  induction n generalizing k d e with
  | zero =>
    obtain ⟨rfl, rfl⟩ : k = 0 ∧ d = 0 := by omega
    constructor
    · intro t _
      rw [nested_evaluate_zero]
      exact ties_exhausted rfl _
    · intro t _
      rw [nested_resolve_zero]
      exact ties_exhausted rfl _
  | succ n ih =>
    have hT := tower_leading (ρ := ρ) c
    constructor
    · intro t _
      cases d with
      | zero =>
        rw [nested_evaluate_zero]
        exact ties_exhausted rfl _
      | succ d =>
        rw [nested_evaluate_succ]
        have hinner := ih (k := k) (d := d) (by omega) (e + 1)
        exact (hT.fair e).evaluateWith (hT.fair (e + 1)) (hT.nests e) hinner t
    · intro t _
      cases k with
      | zero =>
        rw [nested_resolve_zero]
        exact ties_exhausted rfl _
      | succ k =>
        rw [nested_resolve_succ]
        have hinner := ih (k := k) (d := d) (by omega) e
        exact (hT.fair e).resolve hinner t

/-- Both bounds on evaluations exceed what the depth still allows at a level. -/
structure Ample (c : Config) (e d d' : Nat) : Prop where
  left_pos : 0 < d
  right_pos : 0 < d'
  left : c.maxDepth < e + d
  right : c.maxDepth < e + d'

/-- An evaluation that the depth refuses starts nothing again. -/
theorem ties_evaluateWith_of_maxDepth_le {C : Coupling ρ} (hC : C.Fair c)
    (h : ∀ {s s'}, C.state s s' → c.maxDepth ≤ s.depth) (again again' : Reentry ρ) (t : Text) :
    C.Ties Eq (Turn.evaluateWith again t) (Turn.evaluateWith again' t) := by
  refine ties_bind ties_get fun s s' hs => ?_
  have hdepth := h hs
  have hlimit : RollError.recursionLimit c.maxDepth ≠ .tooManyRolls := by simp
  rw [(hC.config hs).1, (hC.config hs).2, hC.depth_eq hs, if_pos hdepth,
    if_pos hdepth]
  exact hC.fail hlimit

/-- Evaluations are tied for two ample bounds, when numbers are. -/
theorem tiesAgain_nested_of_resolve (hT : Tower (strict c permits : Nat → Coupling ρ) c)
    {beyond : Halt} {k : Nat}
    (hresolve : ∀ {d d' e}, Ample c e d d' → ∀ t, (strict c permits e).Ties Eq
      ((nested beyond k d : Reentry ρ).resolve t) ((nested beyond k d').resolve t))
    {d d' e : Nat} (h : Ample c e d d') :
    (strict c permits e).TiesAgain (nested beyond k d : Reentry ρ) (nested beyond k d') := by
  induction d generalizing d' e with
  | zero => exact absurd h.left_pos (Nat.lt_irrefl 0)
  | succ d ih =>
    obtain ⟨d', rfl⟩ := Nat.exists_eq_succ_of_ne_zero (Nat.ne_of_gt h.right_pos)
    refine ⟨fun t _ => ?_, fun t _ => hresolve h t⟩
    rw [nested_evaluate_succ, nested_evaluate_succ]
    by_cases hdepth : c.maxDepth ≤ e
    · refine ties_evaluateWith_of_maxDepth_le (hT.fair e) ?_ _ _ t
      rintro s _ ⟨-, -, rfl⟩
      exact hdepth
    · have hleft := h.left
      have hright := h.right
      have hinner : Ample c (e + 1) d d' := by
        constructor
        all_goals omega
      exact (hT.fair e).evaluateWith (hT.fair (e + 1)) (hT.nests e) (ih hinner) t

/-- **Evaluations need no bound beyond the depth**: two bounds give the same when both are
ample, and neither of them is ever reached. -/
theorem tiesAgain_nested (hT : Tower (strict c permits : Nat → Coupling ρ) c)
    {beyond : Halt} (hbeyond : permits beyond) (k : Nat) {d d' e : Nat} (h : Ample c e d d') :
    (strict c permits e).TiesAgain (nested beyond k d : Reentry ρ) (nested beyond k d') := by
  induction k generalizing d d' e with
  | zero =>
    refine tiesAgain_nested_of_resolve hT (fun _ t => ?_) h
    rw [nested_resolve_zero, nested_resolve_zero]
    refine ties_throw ?_
    rintro s _ ⟨rfl, -, -⟩
    exact ⟨rfl, rfl, hbeyond⟩
  | succ k ih =>
    refine tiesAgain_nested_of_resolve hT (fun h t => ?_) h
    rw [nested_resolve_succ, nested_resolve_succ]
    exact (hT.fair _).resolve (ih h) t

end Coupling

open Coupling

/-- A run looks at chains only by starting again: it is tied to itself wherever starting again
is, at every depth, if beginning a new count of dice changes nothing. -/
def Uniform [Roller ρ] (run : Reentry ρ → Turn ρ α) : Prop :=
  ∀ {F : Nat → Coupling ρ} {c : Config}, Tower F c →
    (∀ {e s s'}, (F e).state s s' →
      (F e).state { s with cup := s.cup.reset } { s' with cup := s'.cup.reset }) →
    ∀ {again again' : Reentry ρ}, (∀ e, (F e).TiesAgain again again') →
      ∀ e, (F e).Ties Eq (run again) (run again')

section Uniform

variable [Roller ρ] (t : Text)

theorem uniform_resolve : Uniform fun again : Reentry ρ => Resolution.resolve again t :=
  fun hT _ _ _ h e => (hT.fair e).resolve (h e) t

theorem uniform_evaluate : Uniform fun again : Reentry ρ => Turn.evaluateWith again t :=
  fun hT _ _ _ h e => (hT.fair e).evaluateWith (hT.fair (e + 1)) (hT.nests e) (h (e + 1)) t

theorem uniform_request : Uniform fun again : Reentry ρ => Turn.requestWith again t := by
  intro F c hT hreset again again' h e
  refine ties_bind (ties_modify fun s s' hs => hreset hs) fun _ _ _ => ?_
  exact ties_evaluateEach (fun t => uniform_evaluate t hT hreset h e) _

end Uniform

section Levels

variable {x y : Turn ρ α} {s : Session ρ}

/-- Runs that are tied at a level end alike, unless the first one has given up. -/
theorem eq_of_ties_leading (h : (leading s.config s.depth).Ties Eq x y)
    (hx : ¬ Turn.Exhausted (x s)) : y s = x s := by
  have hends := h s s ⟨rfl, rfl, rfl⟩
  cases hxs : x s with
  | ok a t =>
    cases hys : y s with
    | ok b t' =>
      rw [hxs, hys] at hends
      obtain ⟨rfl, rfl, -⟩ := hends
      rfl
    | error e t' =>
      rw [hxs, hys] at hends
      exact hends.elim
  | error e t =>
    have hne : e ≠ .exhausted := by
      rintro rfl
      exact hx ⟨t, hxs⟩
    cases hys : y s with
    | ok b t' =>
      rw [hxs, hys] at hends
      exact absurd hends hne
    | error e' t' =>
      rw [hxs, hys] at hends
      rcases hends with hends | ⟨rfl, rfl, -⟩
      · exact absurd hends hne
      · rfl

end Levels

section Returning

variable [Roller ρ] {run : Reentry ρ → Turn ρ α} {s : Session ρ}

/-- A run that returns within a chain ends in the same way when numbers and evaluations are
bounded by as much. -/
theorem nested_eq_reentry (hrun : Uniform run) {n k d : Nat} (hk : n ≤ k) (hd : n ≤ d)
    (h : ¬ Turn.Exhausted (run (reentry n) s)) (beyond : Halt) :
    run (nested beyond k d) s = run (reentry n) s :=
  eq_of_ties_leading
    (hrun (tower_leading _) reset_level (tiesAgain_reentry_nested beyond hk hd) s.depth) h

/-- A run that does not use up numbers and evaluations ends in the same way in a chain that may
be as long as both bounds together. -/
theorem reentry_eq_nested (hrun : Uniform run) {n k d : Nat} (hn : k + d ≤ n)
    (h : ¬ Turn.Exhausted (run (nested .exhausted k d) s)) :
    run (reentry n) s = run (nested .exhausted k d) s :=
  eq_of_ties_leading
    (hrun (tower_leading _) reset_level (tiesAgain_nested_reentry hn) s.depth) h

/-- Two bounds on evaluations that exceed the greatest depth give the same. -/
theorem nested_eq_nested (hrun : Uniform run) (beyond : Halt) (k : Nat) {d d' : Nat}
    (hd : s.config.maxDepth < d) (hd' : s.config.maxDepth < d') :
    run (nested beyond k d') s = run (nested beyond k d) s := by
  have hT : Tower (strict s.config fun _ => True : Nat → Coupling ρ) s.config :=
    tower_level (fun _ => trivial) fun _ => trivial
  have hties : ∀ e, (strict s.config (fun _ => True) e).TiesAgain
      (nested beyond k d : Reentry ρ) (nested beyond k d') := by
    intro e
    refine tiesAgain_nested hT trivial k ?_
    constructor
    all_goals omega
  exact (eq_of_ties_level (hrun hT reset_level hties s.depth)).1

/-- With a bound on evaluations that exceeds the greatest depth, a run is not exhausted by them. -/
theorem not_exhausted_nested (hrun : Uniform run) {beyond : Halt} (hbeyond : beyond ≠ .exhausted)
    (k : Nat) : ¬ Turn.Exhausted (run (nested beyond k (s.config.maxDepth + 1)) s) := by
  have hT : Tower (strict s.config fun h => h ≠ .exhausted : Nat → Coupling ρ) s.config :=
    tower_level (fun _ => nofun) fun _ => nofun
  have hties : ∀ e, (strict s.config (fun h => h ≠ .exhausted) e).TiesAgain
      (nested beyond k (s.config.maxDepth + 1) : Reentry ρ)
      (nested beyond k (s.config.maxDepth + 1)) := by
    intro e
    refine tiesAgain_nested hT hbeyond k ?_
    constructor
    all_goals omega
  rintro ⟨t, ht⟩
  exact (eq_of_ties_level (hrun hT reset_level hties s.depth)).2 _ t ht rfl

/-- With numbers that end within a bound, a run is not exhausted in a chain that has room for
them and for the evaluations that the depth allows. -/
theorem not_exhausted_reentry (hrun : Uniform run) {n k : Nat} (hk : NumbersWithin k run s)
    (hn : k + (s.config.maxDepth + 1) ≤ n) : ¬ Turn.Exhausted (run (reentry n) s) := by
  have h : ¬ Turn.Exhausted (run (nested .exhausted k (s.config.maxDepth + 1)) s) := by
    rw [hk .exhausted (.message "")]
    exact not_exhausted_nested hrun (by simp) k
  rw [reentry_eq_nested hrun hn h]
  exact h

/-- **A run returns if and only if its numbers end.** -/
theorem returns_iff (hrun : Uniform run) : Turn.Returns run s ↔ NumbersEnd run s := by
  constructor
  · rintro ⟨n, hn⟩
    refine ⟨n, fun beyond beyond' => ?_⟩
    have hfull : ∀ beyond, run (nested beyond n (s.config.maxDepth + 1)) s =
        run (reentry n) s := by
      intro beyond
      have hd : n ≤ max n (s.config.maxDepth + 1) := Nat.le_max_left _ _
      rw [← nested_eq_reentry hrun (Nat.le_refl n) hd hn beyond]
      exact nested_eq_nested hrun beyond n (by omega) (Nat.lt_succ_self _)
    rw [hfull, hfull]
  · rintro ⟨k, hk⟩
    exact ⟨_, not_exhausted_reentry hrun hk (Nat.le_refl _)⟩

end Returning

/-! ## When the operations of a session return -/

/-- How an operation of a session, `perform`, comes to its end, where `run` is the same
operation with any chains. -/
structure CutOff [Roller ρ] (run : Reentry ρ → Turn ρ α) (perform : Turn ρ α) (s : Session ρ) :
    Prop where
  /-- Chains have as much room as `reach` leaves. -/
  performs : perform s = run (reentry (reach s.config)) s
  /-- Longer chains do not change how a run returns. -/
  stable : ∀ {n m}, n ≤ m → ¬ Turn.Exhausted (run (reentry n) s) →
    run (reentry m) s = run (reentry n) s
  /-- Evaluations are always cut off, and numbers have to end by themselves. -/
  returns_iff : Turn.Returns run s ↔ NumbersEnd run s
  /-- If they end soon enough, the operation is not exhausted. -/
  not_exhausted : ∀ {k}, k ≤ maxNumbers → NumbersWithin k run s → ¬ Turn.Exhausted (perform s)

theorem cutOff_of_uniform [Roller ρ] {run : Reentry ρ → Turn ρ α} {perform : Turn ρ α}
    {s : Session ρ}
    (hrun : Uniform run) (h : perform s = run (reentry (reach s.config)) s) :
    CutOff run perform s where
  performs := h
  stable := by
    intro n m hnm hn
    exact eq_of_ties_leading
      (hrun (tower_leading _) reset_level (tiesAgain_reentry hnm) s.depth) hn
  returns_iff := returns_iff hrun
  not_exhausted := by
    intro k hk hnumbers
    rw [h]
    refine not_exhausted_reentry hrun hnumbers ?_
    unfold reach
    omega

/-- **The operations of a session return if and only if the numbers that triggers resolve within
one another come to an end.** -/
theorem operations_return_iff [Roller ρ] (t : Text) (s : Session ρ) :
    CutOff (fun again => Resolution.resolve again t) (Turn.resolve t) s ∧
    CutOff (fun again => Turn.evaluateWith again t) (Turn.evaluate t) s ∧
    CutOff (fun again => Turn.requestWith again t) (Turn.request t) s := by
  refine ⟨cutOff_of_uniform (uniform_resolve t) rfl, cutOff_of_uniform (uniform_evaluate t) rfl, ?_⟩
  exact cutOff_of_uniform (uniform_request t) (Turn.request_eq_requestWith t s)

/-! ## A define that resolves itself -/

/-- A session in which `x` loops as often as `x` says. -/
def loopingSession : Session Scripted :=
  (Session.start {} (Scripted.mk [])).define [(['x'], "&loop 1 x&".toList)]

/-- Resolving `x` asks for the number `x`, in the same session. -/
theorem resolve_loopingSession {again : Reentry Scripted}
    (h : again.resolve ['x'] loopingSession = .error .exhausted loopingSession) :
    Resolution.resolve again ['x'] loopingSession = .error .exhausted loopingSession := by
  have hscan : Script.scan "&loop 1 x&".toList = .ok ⟨[], [(.loop ['1'] ['x'], [])]⟩ := by cbv
  have hexpand : Trigger.expand again "&loop 1 x&".toList loopingSession =
      .error .exhausted loopingSession := by
    unfold Trigger.expand
    rw [hscan]
    simp [Turn.ofExcept, Trigger.fireAll, Trigger.fire, Trigger.fireAlone, Trigger.runLoop,
      Trigger.resolveWhole, bind, EStateM.bind, pure, EStateM.pure, h]
  have hatoms : Resolution.atoms? ['x'] = .ok [.name ['x']] := by cbv
  have hround : (Resolution.prepare again ['x']).run 0 loopingSession =
      .ok ([.name ['x']], 0) loopingSession := by
    rw [Resolution.run_prepare_of_plain again 0 loopingSession (by decide), hatoms]
  have hsplice : Atom.splice? loopingSession.defines [] [.name ['x']] =
      some (['x'], "&loop 1 x&".toList) := by decide
  have hcount : (Resolution.countExpansion : Expanding Scripted Unit).run 0 loopingSession =
      .ok ((), 1) loopingSession := Coupling.run_countExpansion 0 loopingSession
  have hinner : (Resolution.build again 1101 0 [['x']] "&loop 1 x&".toList).run 1 loopingSession =
      .error .exhausted loopingSession := by
    refine Resolution.run_build_of_prepare_error again 1 (Nat.zero_le _) ?_
    exact Expanding.run_bind_of_error _ (Expanding.run_liftM_of_error hexpand)
  have hbuild :
      (Resolution.build again (Resolution.pathBound loopingSession.config) 0 [] ['x']).run 0
      loopingSession = .error .exhausted loopingSession := by
    show (Resolution.build again (1101 + 1) 0 [] ['x']).run 0 loopingSession = _
    rw [Resolution.run_build_of_prepare again 0 (Nat.zero_le _) hround]
    unfold Resolution.proceed
    rw [hsplice]
    show (Resolution.countExpansion >>= fun _ =>
      Resolution.build again 1101 0 [['x']] "&loop 1 x&".toList).run 0 loopingSession = _
    rw [Expanding.run_bind_of_ok _ hcount]
    exact hinner
  have htree : Resolution.tree again ['x'] loopingSession = .error .exhausted loopingSession := by
    rw [Resolution.run_tree]
    exact Turn.bind_of_error _ hbuild
  exact Turn.bind_of_error _ htree

/-- However long chains may be, `x` gives up in the end. -/
theorem exhausted_loopingSession (n : Nat) :
    Resolution.resolve (reentry n) ['x'] loopingSession = .error .exhausted loopingSession := by
  induction n with
  | zero => exact resolve_loopingSession rfl
  | succ n ih => exact resolve_loopingSession ih

/-- A budget of dice and a bound on the depth do not make every resolution return: a define whose
trigger resolves the define as a number does so for ever. -/
theorem not_forall_returns :
    ¬ ∀ (c : Config), c.maxRolls.isSome → ∀ (roller : Scripted)
      (pairs : List (Text × Text)) (t : Text),
      Turn.Returns (fun again => Resolution.resolve again t)
        ((Session.start c roller).define pairs) := by
  intro h
  obtain ⟨n, hn⟩ := h {} rfl (Scripted.mk []) [(['x'], "&loop 1 x&".toList)] ['x']
  exact hn ⟨loopingSession, exhausted_loopingSession n⟩

end DiceNotation
