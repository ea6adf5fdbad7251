import DiceNotation.Proofs.Coupling.Level

/-!
# Invariants of requests

What is to be shown of a whole request is mostly a property of the session that everything in
the request keeps, and a property of the session in which it halts.  The two are a coupling of
one run with itself, and `Turn.Invariant` lists what has to be checked for them: rolling dice,
recording a roll, setting flags and defines, and entering and leaving an evaluation.  Triggers,
the taking apart of texts and loops need not be looked at again.

An invariant may mention the session that the request began with, so that it can compare the end
with the beginning.  A property that mentions the depth is no invariant, but one for every depth;
it is `Stable` at each depth by itself.

* `Turn.Stable`, `Turn.Invariant`: what is to be checked, at one depth and at every depth.
* `Invariant.request`, `Invariant.evaluate`, `Invariant.resolve`, `Invariant.rollCode`: what it comes
  to for the operations of a session.
-/

namespace DiceNotation

open Coupling

variable {ρ : Type} [Roller ρ]

/-- A turn has ended in a session that is as it should be. -/
def Turn.EndsIn {ρ α : Type} (keeps : Session ρ → Prop) (halts : Halt → Session ρ → Prop) :
    EStateM.Result Halt (Session ρ) α → Prop
  | .ok _ s => keeps s
  | .error h s => halts h s

omit [Roller ρ] in
/-- What is kept whichever way a turn ends holds after it. -/
theorem Turn.EndsIn.after {α : Type} {keeps : Session ρ → Prop} {x : Turn ρ α} {s : Session ρ}
    (h : EndsIn keeps (fun _ => keeps) (x s)) : keeps (Turn.after x s) := by
  unfold Turn.after
  cases hx : x s with
  | ok a s' =>
    rw [hx] at h
    exact h
  | error e s' =>
    rw [hx] at h
    exact h

/-- A property that every step in a session keeps at one depth, with one of the session in which a
turn halts. -/
structure Turn.Stable (c : Config) (keeps : Session ρ → Prop) (halts : Halt → Session ρ → Prop) :
    Prop where
  config : ∀ {s}, keeps s → s.config = c
  failed : ∀ {e s}, e ≠ .tooManyRolls → keeps s → halts (.failed e) s
  message : ∀ {s}, keeps s → halts (.message s.history.resonanceReport) s
  exhausted : ∀ {s}, keeps s → halts .exhausted s
  dice : ∀ {s dice cup} code spec, keeps s → Dice.roll code spec s.cup = (.ok dice, cup) →
    keeps { s with cup }
  diceFailed : ∀ {s e cup} code spec, keeps s → Dice.roll code spec s.cup = (.error e, cup) →
    halts (.failed e) { s with cup }
  record : ∀ {r v s}, Roll.total r = .ok v → keeps s →
    keeps { s with history := s.history.push r }
  flags : ∀ {f s}, (Flags.limitBreak f = true → s.flags.limitBreak = true ∨
    c.isAdministrator = true) → keeps s → keeps { s with flags := f }
  /-- Defines are set, and no macro is added. -/
  defines : ∀ {d s}, Defines.macros d ⊆ s.defines.macros → keeps s → keeps { s with defines := d }

/-- A property that every step in a session keeps at every depth. -/
structure Turn.Invariant (c : Config) (keeps : Session ρ → Prop) (halts : Halt → Session ρ → Prop) :
    Prop extends Turn.Stable c keeps halts where
  enter : ∀ {s}, keeps s → keeps (Turn.enter s)
  leave : ∀ {s}, keeps s → keeps (Turn.leave s)
  leaveHalted : ∀ {h s}, halts h s → halts h (Turn.leave s)

namespace Turn

variable {c : Config} {keeps : Session ρ → Prop} {halts : Halt → Session ρ → Prop}

/-- The run that keeps a property is coupled with itself fairly. -/
theorem Stable.fair (hI : Turn.Stable c keeps halts) : (single keeps halts).Fair c where
  config := by
    rintro s _ ⟨rfl, hs⟩
    exact ⟨hI.config hs, hI.config hs⟩
  back := by
    rintro s _ ⟨rfl, -⟩ n
    rfl
  failed := by
    rintro e s _ he ⟨rfl, hs⟩
    exact ⟨⟨rfl, rfl⟩, hI.failed he hs⟩
  dice code spec := by
    rintro s _ ⟨rfl, hs⟩
    rw [Turn.run_withCup]
    rcases hroll : Dice.roll code spec s.cup with ⟨result, cup⟩
    cases result with
    | ok dice => exact ⟨rfl, rfl, hI.dice code spec hs hroll⟩
    | error e => exact Or.inr ⟨⟨rfl, rfl⟩, hI.diceFailed code spec hs hroll⟩
  record := by
    rintro r v s _ hr ⟨rfl, hs⟩
    exact ⟨rfl, hI.record hr hs⟩
  flags_eq := by
    rintro s _ ⟨rfl, -⟩
    rfl
  defines_eq := by
    rintro s _ ⟨rfl, -⟩
    rfl
  depth_eq := by
    rintro s _ ⟨rfl, -⟩
    rfl
  report_eq := by
    rintro s _ ⟨rfl, -⟩
    rfl
  flags := by
    rintro f s _ hf ⟨rfl, hs⟩
    exact ⟨rfl, hI.flags hf hs⟩
  defines := by
    rintro d s _ hd ⟨rfl, hs⟩
    exact ⟨rfl, hI.defines hd hs⟩
  message := by
    rintro s _ ⟨rfl, hs⟩
    exact ⟨⟨rfl, rfl⟩, hI.message hs⟩

namespace Invariant

/-- An invariant does not depend on the depth, so that it nests itself. -/
theorem tower (hI : Turn.Invariant c keeps halts) : Tower (fun _ => single keeps halts) c where
  fair _ := hI.fair
  nests _ :=
    { enter := by
        rintro s _ ⟨rfl, hs⟩
        exact ⟨rfl, hI.enter hs⟩
      leave := by
        rintro s _ ⟨rfl, hs⟩
        exact ⟨rfl, hI.leave hs⟩
      halt := by
        rintro h _ s _ ⟨⟨rfl, rfl⟩, hs⟩
        exact ⟨⟨rfl, rfl⟩, hI.leaveHalted hs⟩
      ahead := id }

omit [Roller ρ] in
/-- A turn that is coupled with itself keeps the invariant. -/
theorem keeps_of_ties {α : Type} {x : Turn ρ α} (hx : (single keeps halts).Ties Eq x x)
    {s : Session ρ} (hs : keeps s) : EndsIn keeps halts (x s) := by
  have hrun := ties_single_iff.mp (ties_mono hx fun _ _ h => And.intro h trivial) s hs
  cases hresult : x s with
  | ok a s' =>
    rw [hresult] at hrun
    exact hrun.2
  | error h s' =>
    rw [hresult] at hrun
    exact hrun

/-- Starting again keeps the invariant, however long chains may be. -/
theorem tiesAgain (hI : Turn.Invariant c keeps halts) (n : Nat) :
    (single keeps halts).TiesAgain (reentry n : Reentry ρ) (reentry n) := by
  refine hI.tower.reentry ?_ n 0
  rintro - s _ ⟨rfl, hs⟩
  exact ⟨⟨rfl, rfl⟩, hI.exhausted hs⟩

theorem ties_evaluateWith (hI : Turn.Invariant c keeps halts) (n : Nat) (t : Text) :
    (single keeps halts).Ties Eq (evaluateWith (reentry n) t) (evaluateWith (reentry n) t) :=
  hI.fair.evaluateWith hI.fair (hI.tower.nests 0) (hI.tiesAgain n) t

/-- **An evaluation keeps the invariant.** -/
theorem evaluate (hI : Turn.Invariant c keeps halts) (t : Text) {s : Session ρ} (hs : keeps s) :
    EndsIn keeps halts (Turn.evaluate t s) :=
  keeps_of_ties (hI.ties_evaluateWith (reach s.config) t) hs

/-- **Resolving a text keeps the invariant.** -/
theorem resolve (hI : Turn.Invariant c keeps halts) (t : Text) {s : Session ρ} (hs : keeps s) :
    EndsIn keeps halts (Turn.resolve t s) :=
  keeps_of_ties (hI.fair.resolve (hI.tiesAgain (reach s.config)) t) hs

/-- **Rolling a dice code keeps the invariant.** -/
theorem rollCode (hI : Turn.Invariant c keeps halts) (code : Text) {s : Session ρ} (hs : keeps s) :
    EndsIn keeps halts (Turn.rollCode code s) :=
  keeps_of_ties (hI.fair.toRolls.rollCode code) hs

/-- **A request keeps the invariant**, once it has begun a new count of dice. -/
theorem request (hI : Turn.Invariant c keeps halts) (t : Text) {s : Session ρ}
    (hs : keeps { s with cup := s.cup.reset }) :
    EndsIn keeps halts (Turn.request t s) := by
  rw [Turn.request_eq_requestWith]
  exact keeps_of_ties (ties_evaluateEach (hI.ties_evaluateWith (reach s.config)) (Text.segments t))
    hs

end Invariant

end Turn

end DiceNotation
