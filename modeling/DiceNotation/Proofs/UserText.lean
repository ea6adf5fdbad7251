import DiceNotation.Proofs.Atoms
import DiceNotation.Proofs.Coupling.Invariant
import DiceNotation.Roller.Stepping

/-!
# What a user's text can do to the defines

A define that stands for text with an ampersand is a macro: where its name is found, its triggers
fire.  Whoever sets up a session may give it macros, but a text that is rolled cannot.  The defines
that `values` and `param` set hold no ampersand, because the text around a trigger has none by the
time that the trigger fires.

## What follows for re-entry

Triggers start evaluations, with texts that hold no ampersand.  In a session without macros such a
text starts nothing again: it has no triggers itself, and none of the names in it stands for text
that has any.  So at most two evaluations are under way at the same time, the one that a call begins
with and one that a trigger in it has started.

To say so without counting, a call is given a way to start evaluations for its first frame and
another one for the frames inside of that, `inner`.  The result of the call is the same for every
`inner`, even for one that halts as soon as it is used, and so it is never used
(`call_eq_runWith`).  In the same way the check of the depth never fails in a session
that allows two evaluations within one another: a call with `evaluateFreely`, which has no such
check, has the same result.

* `Call`, `Call.run`, `Session.afterCalls`: what a session is asked for.
* `MacrosWithin`, `tower_macrosWithin`: no macro is added.
* `evaluateFreely`, `once`, `Call.runWith`: calls that start again in ways of their own.
* `calls_make_no_macro`: the result for all calls on a session.
-/

namespace DiceNotation

variable {ρ : Type}

/-- Something that a session is asked for. -/
inductive Call where
  | roll (t : Text)
  | evaluate (t : Text)
  | resolve (t : Text)
  | rollCode (code : Text)
  deriving DecidableEq, Repr

namespace Call

/-- What a call is answered with. -/
def Answer : Call → Type
  | roll _ => List Roll
  | evaluate _ => Roll
  | resolve _ => Text
  | rollCode _ => Roll

variable [Roller ρ]

/-- What a session does when it is called. -/
def run : (k : Call) → Turn ρ k.Answer
  | roll t => Turn.request t
  | evaluate t => Turn.evaluate t
  | resolve t => Turn.resolve t
  | rollCode code => Turn.rollCode code

/-- A call in which texts are evaluated and resolved in given ways. -/
def runBy (evaluates : Text → Turn ρ Roll) (resolves : Text → Turn ρ Text) :
    (k : Call) → Turn ρ k.Answer
  | roll t => do
    modify fun s => { s with cup := s.cup.reset }
    Turn.evaluateEach evaluates (Text.segments t)
  | evaluate t => evaluates t
  | resolve t => resolves t
  | rollCode code => Turn.rollCode code

/-- All texts of a call start triggers again in the same way. -/
theorem run_eq_runBy (k : Call) (s : Session ρ) :
    k.run s = k.runBy (Turn.evaluateWith (reentry (reach s.config)))
      (Resolution.resolve (reentry (reach s.config))) s := by
  cases k with
  | roll t => exact Turn.request_eq_requestWith t s
  | evaluate t => rfl
  | resolve t => rfl
  | rollCode code => rfl

end Call

/-- The session after calls, one after another, however they have ended. -/
def Session.afterCalls [Roller ρ] (s : Session ρ) (ks : List Call) : Session ρ :=
  ks.foldl (fun s k => Turn.after k.run s) s

/-- A session at a depth whose macros are among these. -/
structure MacrosWithin (c : Config) (macros : List (Text × Text)) (depth : Nat) (s : Session ρ) :
    Prop where
  config_eq : s.config = c
  depth_eq : s.depth = depth
  macros_subset : s.defines.macros ⊆ macros

namespace Coupling

/-- A run with itself at a depth, whichever way it ends, with macros among these. -/
def macrosWithin (c : Config) (macros : List (Text × Text)) (depth : Nat) : Coupling ρ :=
  single (MacrosWithin c macros depth) fun _ => MacrosWithin c macros depth

variable [Roller ρ] {c : Config} {macros : List (Text × Text)} {depth : Nat}

/-- **No step adds a macro.** -/
theorem stable_macrosWithin (c : Config) (macros : List (Text × Text)) (depth : Nat) :
    Turn.Stable (ρ := ρ) c (MacrosWithin c macros depth) fun _ => MacrosWithin c macros depth where
  config := MacrosWithin.config_eq
  failed _ hs := hs
  message hs := hs
  exhausted hs := hs
  dice _ _ hs _ := { hs with }
  diceFailed _ _ hs _ := { hs with }
  record _ hs := { hs with }
  flags _ hs := { hs with }
  defines hd hs := { hs with macros_subset := List.Subset.trans hd hs.macros_subset }

theorem fair_macrosWithin : (macrosWithin c macros depth : Coupling ρ).Fair c :=
  (stable_macrosWithin c macros depth).fair

theorem tower_macrosWithin (c : Config) (macros : List (Text × Text)) :
    Tower (macrosWithin c macros : Nat → Coupling ρ) c where
  fair _ := fair_macrosWithin
  nests e :=
    { enter := by
        rintro s _ ⟨rfl, hs⟩
        exact ⟨rfl, { hs with depth_eq := congrArg (· + 1) hs.depth_eq }⟩
      leave := by
        rintro s _ ⟨rfl, hs⟩
        exact ⟨rfl, { hs with depth_eq := congrArg (· - 1) hs.depth_eq }⟩
      halt := by
        rintro h _ s _ ⟨⟨rfl, rfl⟩, hs⟩
        exact ⟨⟨rfl, rfl⟩, { hs with depth_eq := congrArg (· - 1) hs.depth_eq }⟩
      ahead := id }

/-- Starting again adds no macro, however long chains may be. -/
theorem tiesAgain_macrosWithin (c : Config) (macros : List (Text × Text)) (n e : Nat) :
    (macrosWithin c macros e).TiesAgain (reentry n : Reentry ρ) (reentry n) := by
  refine (tower_macrosWithin c macros).reentry ?_ n e
  rintro e u _ ⟨rfl, hu⟩
  exact ⟨⟨rfl, rfl⟩, hu⟩

/-- A call is tied when what it does with texts is. -/
theorem ties_runBy {C : Coupling ρ} (hC : C.Fair c)
    (hreset : ∀ {s s'}, C.state s s' →
      C.state { s with cup := s.cup.reset } { s' with cup := s'.cup.reset })
    {evaluates evaluates' : Text → Turn ρ Roll} {resolves resolves' : Text → Turn ρ Text}
    (hevaluates : ∀ t, C.Ties Eq (evaluates t) (evaluates' t))
    (hresolves : ∀ t, C.Ties Eq (resolves t) (resolves' t)) (k : Call) :
    C.Ties Eq (k.runBy evaluates resolves) (k.runBy evaluates' resolves') := by
  cases k with
  | roll t =>
    exact ties_bind (ties_modify fun _ _ => hreset) fun _ _ _ => ties_evaluateEach hevaluates _
  | evaluate t => exact hevaluates t
  | resolve t => exact hresolves t
  | rollCode code => exact hC.toRolls.rollCode code

omit [Roller ρ] in
theorem reset_macrosWithin {s s' : Session ρ} (h : (macrosWithin c macros depth).state s s') :
    (macrosWithin c macros depth).state { s with cup := s.cup.reset }
      { s' with cup := s'.cup.reset } := by
  obtain ⟨rfl, hs⟩ := h
  exact ⟨rfl, { hs with }⟩

end Coupling

section Calls

variable [Roller ρ] {c : Config} {macros : List (Text × Text)} {depth : Nat} {s : Session ρ}

open Coupling

/-- **A call adds no macro**, whichever way it ends. -/
theorem MacrosWithin.call (hs : MacrosWithin c macros depth s) (k : Call) :
    MacrosWithin c macros depth (Turn.after k.run s) := by
  have hT := tower_macrosWithin (ρ := ρ) c macros
  have hagain := tiesAgain_macrosWithin (ρ := ρ) c macros (reach s.config)
  have hties := ties_runBy (hT.fair depth) reset_macrosWithin
    (fun t => (hT.fair depth).evaluateWith (hT.fair (depth + 1)) (hT.nests depth)
      (hagain (depth + 1)) t)
    (fun t => (hT.fair depth).resolve (hagain depth) t) k
  have hends := Turn.Invariant.keeps_of_ties hties hs
  rw [← Call.run_eq_runBy] at hends
  exact hends.after

theorem MacrosWithin.afterCalls (hs : MacrosWithin c macros depth s) (ks : List Call) :
    MacrosWithin c macros depth (s.afterCalls ks) := by
  induction ks generalizing s with
  | nil => exact hs
  | cons k ks ih => exact ih (hs.call k)

end Calls

/-! ## Sessions without macros -/

section Frames

variable [Roller ρ]

/-- Resolves a text and rolls the code, however many evaluations are under way. -/
def Turn.evaluateFreely (again : Reentry ρ) (t : Text) : Turn ρ Roll :=
  deeper do
    let code ← Resolution.resolve again t
    rollCode code

/-- Starts a frame that starts further ones as given. -/
def once (evaluates : Reentry ρ → Text → Turn ρ Roll) (inner : Reentry ρ) : Reentry ρ :=
  ⟨evaluates inner, Resolution.resolve inner⟩

/-- A call with a first frame of its own and frames started by the triggers in it, in which further
ones are started as given. -/
def Call.runWith (evaluates : Reentry ρ → Text → Turn ρ Roll) (inner : Reentry ρ) (k : Call) :
    Turn ρ k.Answer :=
  k.runBy (evaluates (once evaluates inner)) (Resolution.resolve (once evaluates inner))

/-- Where the depth allows one more evaluation, its check does not matter. -/
theorem Turn.evaluateWith_eq_evaluateFreely (again : Reentry ρ) (t : Text) {s : Session ρ}
    (h : s.depth < s.config.maxDepth) : evaluateWith again t s = evaluateFreely again t s := by
  unfold evaluateWith
  rw [Turn.get_bind, if_neg (Nat.not_le.mpr h)]
  rfl

theorem reentry_succ (n : Nat) :
    (reentry (n + 1) : Reentry ρ) = once Turn.evaluateWith (reentry n) :=
  rfl

/-- The first frame of a call is followed by frames that triggers start. -/
theorem Call.run_eq_runWith (k : Call) (s : Session ρ) :
    k.run s = k.runWith Turn.evaluateWith (reentry (s.config.maxDepth + maxNumbers)) s := by
  have hreach : reach s.config = s.config.maxDepth + maxNumbers + 1 := by
    unfold reach
    omega
  rw [Call.run_eq_runBy, hreach, reentry_succ]
  rfl

namespace Coupling

variable {c : Config} {depth : Nat} {again again' inner inner' : Reentry ρ} {t : Text}

omit [Roller ρ] in
/-- **Without macros a text without ampersands starts nothing again.** -/
theorem rounds_of_no_macros (again again' : Reentry ρ) :
    (macrosWithin c [] depth).Rounds ('&' ∉ ·) (Trigger.expand again)
      (Trigger.expand again') where
  expand t ht := by
    rintro s _ ⟨rfl, hs⟩
    rw [Trigger.expand_of_plain again ht, Trigger.expand_of_plain again' ht]
    exact ⟨⟨rfl, ht⟩, rfl, hs⟩
  plain := id
  value := by
    rintro s _ name value ⟨rfl, hs⟩ hvalue
    exact Defines.no_ampersand_of_get? (List.subset_nil.mp hs.macros_subset) hvalue
  spliced := by
    rintro s _ used atoms name t ⟨rfl, hs⟩ hsplice
    have hnone : Atom.splice? s.defines used atoms = none :=
      splice?_eq_none fun _ _ => scripted?_eq_none fun _ _ hvalue =>
        Defines.no_ampersand_of_get? (List.subset_nil.mp hs.macros_subset) hvalue
    rw [hnone] at hsplice
    exact nomatch hsplice

/-- Two ways of evaluating a text are tied wherever resolving it is tied. -/
def Alike (c : Config) (depth : Nat) (evaluates evaluates' : Reentry ρ → Text → Turn ρ Roll) :
    Prop :=
  ∀ {again again' t}, (macrosWithin c [] (depth + 1)).Ties Eq (Resolution.resolve again t)
    (Resolution.resolve again' t) →
    (macrosWithin c [] depth).Ties Eq (evaluates again t) (evaluates' again' t)

theorem alike_evaluateFreely :
    Alike (ρ := ρ) c depth Turn.evaluateFreely Turn.evaluateFreely := by
  intro again again' t h
  refine ties_deeper ((tower_macrosWithin c []).nests depth) (ties_bind h fun code _ hcode => ?_)
  obtain rfl := hcode
  exact fair_macrosWithin.toRolls.rollCode code

/-- The check of the depth can be left out where the depth allows an evaluation. -/
theorem alike_evaluateWith_evaluateFreely (hdepth : depth < c.maxDepth) :
    Alike (ρ := ρ) c depth Turn.evaluateWith Turn.evaluateFreely := by
  rintro again again' t h s _ ⟨rfl, hs⟩
  have hallowed : s.depth < s.config.maxDepth := by
    rw [hs.depth_eq, hs.config_eq]
    exact hdepth
  rw [Turn.evaluateWith_eq_evaluateFreely again t hallowed]
  exact alike_evaluateFreely h s s ⟨rfl, hs⟩

theorem alike_evaluateWith : Alike (ρ := ρ) c depth Turn.evaluateWith Turn.evaluateWith := by
  intro again again' t h
  by_cases hdepth : depth < c.maxDepth
  · rintro s _ ⟨rfl, hs⟩
    have hallowed : s.depth < s.config.maxDepth := by
      rw [hs.depth_eq, hs.config_eq]
      exact hdepth
    rw [Turn.evaluateWith_eq_evaluateFreely again' t hallowed]
    exact alike_evaluateWith_evaluateFreely hdepth h s s ⟨rfl, hs⟩
  · -- the depth refuses both evaluations before they look at the text
    rintro s _ ⟨rfl, hs⟩
    have hrefused : s.config.maxDepth ≤ s.depth := by
      rw [hs.depth_eq, hs.config_eq]
      exact Nat.not_lt.mp hdepth
    unfold Turn.evaluateWith
    rw [Turn.get_bind, Turn.get_bind, if_pos hrefused, if_pos hrefused]
    exact Or.inr ⟨⟨rfl, rfl⟩, hs⟩

variable {evaluates evaluates' : Reentry ρ → Text → Turn ρ Roll}

/-- What a trigger starts does not depend on what could be started further on. -/
theorem tiesAgain_once (h : Alike c depth evaluates evaluates') (inner inner' : Reentry ρ) :
    (macrosWithin c [] depth).TiesAgain (once evaluates inner) (once evaluates' inner') where
  evaluate _ ht := h (fair_macrosWithin.resolveOf (rounds_of_no_macros inner inner') ht)
  resolve _ ht := fair_macrosWithin.resolveOf (rounds_of_no_macros inner inner') ht

theorem ties_runWith (h : Alike c depth evaluates evaluates')
    (h' : Alike c (depth + 1) evaluates evaluates') (inner inner' : Reentry ρ) (k : Call) :
    (macrosWithin c [] depth).Ties Eq (k.runWith evaluates inner) (k.runWith evaluates' inner') :=
  ties_runBy fair_macrosWithin reset_macrosWithin
    (fun t => h (fair_macrosWithin.resolve (tiesAgain_once h' inner inner') t))
    (fun t => fair_macrosWithin.resolve (tiesAgain_once h inner inner') t) k

end Coupling

open Coupling

/-- **Without macros no call starts a frame within a frame that a trigger has started**, and where
the depth allows two frames it refuses none. -/
theorem call_eq_runWith {s : Session ρ} (h : s.defines.macros = []) (k : Call)
    (inner : Reentry ρ) :
    k.run s = k.runWith Turn.evaluateWith inner s ∧
    (s.depth + 2 ≤ s.config.maxDepth → k.run s = k.runWith Turn.evaluateFreely inner s) := by
  have hs : MacrosWithin s.config [] s.depth s := ⟨rfl, rfl, by rw [h]; exact List.Subset.refl _⟩
  constructor
  · rw [Call.run_eq_runWith]
    exact eq_of_ties_single (ties_runWith alike_evaluateWith alike_evaluateWith _ inner k) hs
  · intro hdepth
    rw [Call.run_eq_runWith]
    refine eq_of_ties_single (ties_runWith (alike_evaluateWith_evaluateFreely ?_)
      (alike_evaluateWith_evaluateFreely ?_) _ inner k) hs
    · omega
    · omega

/-- **Calls on a session make no macro**, on whatever texts and with whatever outcome.  So a session
that has been set up without macros starts no frame within a frame that a trigger has started,
whatever it was asked for before, and never refuses one of the two if its depth allows them. -/
theorem calls_make_no_macro (ks : List Call) (s : Session ρ) :
    (s.afterCalls ks).defines.macros ⊆ s.defines.macros ∧
    (s.defines.macros = [] → ∀ (k : Call) (inner : Reentry ρ),
      k.run (s.afterCalls ks) = k.runWith Turn.evaluateWith inner (s.afterCalls ks) ∧
      (s.depth + 2 ≤ s.config.maxDepth →
        k.run (s.afterCalls ks) = k.runWith Turn.evaluateFreely inner (s.afterCalls ks))) := by
  have hs : MacrosWithin s.config s.defines.macros s.depth s := ⟨rfl, rfl, List.Subset.refl _⟩
  have hafter := hs.afterCalls ks
  refine ⟨hafter.macros_subset, fun hnone k inner => ?_⟩
  have hempty : (s.afterCalls ks).defines.macros = [] :=
    List.subset_nil.mp (hnone ▸ hafter.macros_subset)
  have hcall := call_eq_runWith hempty k inner
  rw [hafter.depth_eq, hafter.config_eq] at hcall
  exact hcall

/-- A new session. -/
def newSession : Session Stepping := .start {} ⟨1, 1⟩

/-- A new session makes no macros of a text that sets defines, and then a loop in a call needs no more
than the frame that it starts. -/
theorem calls_make_no_macro_in_new_session :
    newSession.defines.macros = [] ∧ newSession.depth + 2 ≤ newSession.config.maxDepth ∧
    (newSession.afterCalls [.roll "&values a = 2d6& (a); &param b& a".toList]).defines.macros ⊆
      newSession.defines.macros ∧
    (Call.evaluate "&loopsum a 3& + b".toList).run
        (newSession.afterCalls [.roll "&values a = 2d6& (a); &param b& a".toList]) =
      (Call.evaluate "&loopsum a 3& + b".toList).runWith Turn.evaluateFreely (reentry 0)
        (newSession.afterCalls [.roll "&values a = 2d6& (a); &param b& a".toList]) := by
  have hmacros : newSession.defines.macros = [] := rfl
  have hdepth : newSession.depth + 2 ≤ newSession.config.maxDepth := by decide
  have h := calls_make_no_macro [.roll "&values a = 2d6& (a); &param b& a".toList] newSession
  have hframes := h.2 hmacros (.evaluate "&loopsum a 3& + b".toList) (reentry 0)
  exact ⟨hmacros, hdepth, h.1, hframes.2 hdepth⟩

end Frames

end DiceNotation
