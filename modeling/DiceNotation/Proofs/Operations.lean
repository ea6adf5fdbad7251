import DiceNotation.Proofs.UserText

/-!
# Operations on a session

Calls are not all that is done with a session.  Whoever holds it can also set its defines and its
roller, switch the ways of describing rolls, and reset what triggers have set.  A session is used by
operations of all these kinds, in any order, and a call may end in any way.

## The depth between operations

The depth counts evaluations that are under way.  A call starts them in many places: in groups, in
the rolls of loops and projects, in words and in conditions.  It can end early in each of them, for
an error or with a message, and whichever it is, an evaluation takes back what it has added.  So a
call leaves the depth as it was, and after whatever operations the depth is zero.  A call cannot be
refused, then, for what earlier calls have left behind.

* `Operation`, `Session.perform`, `Session.afterOperations`.
* `Session.keeps_afterOperations`: what a session keeps through operations.
* `depth_after_reentry`: evaluations within a call; `calls_restore_depth`.
-/

namespace DiceNotation

variable {ρ : Type}

/-- What can be done with a session. -/
inductive Operation (ρ : Type) where
  | call (k : Call)
  | switch (which : Toggle) (on : Bool)
  | resetFlags
  | setDefines (d : Defines)
  | setRoller (roller : ρ)

variable [Roller ρ]

namespace Session

/-- The session after an operation, however it has ended. -/
def perform (s : Session ρ) : Operation ρ → Session ρ
  | .call k => Turn.after k.run s
  | .switch which on => s.switch which on
  | .resetFlags => s.resetFlags
  | .setDefines defines => { s with defines }
  | .setRoller roller => { s with cup := { s.cup with roller } }

/-- The session after operations, one after another. -/
def afterOperations (s : Session ρ) (ops : List (Operation ρ)) : Session ρ := ops.foldl perform s

/-- What every operation keeps, a session keeps through any number of them. -/
theorem keeps_afterOperations {keeps : Session ρ → Prop}
    (hstep : ∀ s op, keeps s → keeps (s.perform op)) {s : Session ρ} (hs : keeps s)
    (ops : List (Operation ρ)) : keeps (s.afterOperations ops) := by
  induction ops generalizing s with
  | nil => exact hs
  | cons op ops ih => exact ih (hstep s op hs)

/-- A call leaves the configuration and the depth as they were, however it ends. -/
theorem config_depth_after_call (s : Session ρ) (k : Call) :
    (Turn.after k.run s).config = s.config ∧ (Turn.after k.run s).depth = s.depth := by
  have hs : MacrosWithin s.config s.defines.macros s.depth s := ⟨rfl, rfl, List.Subset.refl _⟩
  exact ⟨(hs.call k).config_eq, (hs.call k).depth_eq⟩

/-- No evaluation is under way in a session with this configuration. -/
def Idle (c : Config) (s : Session ρ) : Prop := s.config = c ∧ s.depth = 0

theorem idle_perform {c : Config} (s : Session ρ) (op : Operation ρ) (hs : s.Idle c) :
    (s.perform op).Idle c := by
  cases op with
  | call k =>
    obtain ⟨hconfig, hdepth⟩ := config_depth_after_call s k
    exact ⟨hconfig.trans hs.1, hdepth.trans hs.2⟩
  | switch which on => exact hs
  | resetFlags => exact hs
  | setDefines d => exact hs
  | setRoller roller => exact hs

/-- The session that is set up anew with the defines, the flags, the history and the cup of another
one. -/
def setUp (config : Config) (roller : ρ) (s : Session ρ) : Session ρ :=
  { start config roller with
    defines := s.defines, flags := s.flags, history := s.history, cup := s.cup }

omit [Roller ρ] in
theorem Idle.setUp_eq {c : Config} {s : Session ρ} (hs : s.Idle c) (roller : ρ) :
    setUp c roller s = s := by
  obtain ⟨config, defines, flags, history, cup, depth⟩ := s
  obtain ⟨rfl, rfl⟩ := hs
  rfl

end Session

open Coupling in
/-- What triggers start leaves the depth as it was, however many may start one another. -/
theorem depth_after_reentry (n : Nat) (t : Text) (s : Session ρ) :
    (Turn.after ((reentry n).evaluate t) s).depth = s.depth ∧
    (Turn.after ((reentry n).resolve t) s).depth = s.depth := by
  have hs : MacrosWithin s.config s.defines.macros s.depth s := ⟨rfl, rfl, List.Subset.refl _⟩
  have hT := tower_macrosWithin (ρ := ρ) s.config s.defines.macros
  have hagain := hT.reentry fun _ _ _ hu => ⟨⟨rfl, hu.1⟩, hu.2⟩
  -- what is started may be any text, so that the chain is looked at one step further
  cases n with
  | zero => exact ⟨rfl, rfl⟩
  | succ n =>
    have hevaluate := (hT.fair s.depth).evaluateWith (hT.fair (s.depth + 1)) (hT.nests s.depth)
      (hagain n (s.depth + 1)) t
    have hresolve := (hT.fair s.depth).resolve (hagain n s.depth) t
    exact ⟨(Turn.Invariant.keeps_of_ties hevaluate hs).after.depth_eq,
      (Turn.Invariant.keeps_of_ties hresolve hs).after.depth_eq⟩

/-- **Every call leaves the depth as it was**, on whatever text, in whatever session and with
whatever outcome, and so does everything that triggers start within it.  Between operations the
depth of a session is zero, then, whatever was done with it before, and every later call comes to
the same as on a session that is set up anew with what this one holds: it fails with
`RecursionLimit` exactly if it does so there. -/
theorem calls_restore_depth :
    (∀ (s : Session ρ) (k : Call), (Turn.after k.run s).depth = s.depth) ∧
    (∀ (n : Nat) (t : Text) (s : Session ρ),
      (Turn.after ((reentry n).evaluate t) s).depth = s.depth ∧
      (Turn.after ((reentry n).resolve t) s).depth = s.depth) ∧
    ∀ (config : Config) (roller : ρ) (ops : List (Operation ρ)),
      ((Session.start config roller).afterOperations ops).depth = 0 ∧
      ∀ (k : Call) (fresh : ρ),
        k.run ((Session.start config roller).afterOperations ops) =
          k.run (.setUp config fresh ((Session.start config roller).afterOperations ops)) := by
  refine ⟨fun s k => (s.config_depth_after_call k).2, depth_after_reentry,
    fun config roller ops => ?_⟩
  have hidle : ((Session.start config roller).afterOperations ops).Idle config :=
    Session.keeps_afterOperations Session.idle_perform ⟨rfl, rfl⟩ ops
  exact ⟨hidle.2, fun k fresh => by rw [hidle.setUp_eq fresh]⟩

end DiceNotation
