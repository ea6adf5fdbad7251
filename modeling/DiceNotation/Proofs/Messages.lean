import DiceNotation.Proofs.Coupling.Invariant
import DiceNotation.Proofs.Outcomes

/-!
# The message that ends a request

The trigger `resonances` ends whatever is under way with a report of the history, and the report is
the answer of the whole request.  It may fire far inside: in a roll of a loop or of a project, in
the condition of a conditional, in a word that `param` binds, in a define or in a group of the text,
or in a later segment.

None of these places answers the message or changes it, and none records a roll once it has been
sent.  So the message is the report of the history that the request leaves behind, and that is an
invariant: there is a property of the halts, and nothing to be said of the sessions in between.

* `Turn.Reports`, `invariant_reports`.
* `message_is_report`: whatever a session is asked for.
* `evaluate_of_resonances`: a text whose first trigger is this one.
-/

namespace DiceNotation

variable {ρ : Type}

/-- If a turn has halted with a message, it is the report of the history. -/
def Turn.Reports (h : Halt) (s : Session ρ) : Prop :=
  ∀ m, h = .message m → m = s.history.resonanceReport

/-- A turn has ended, and if with a message then with the report of the history that it leaves. -/
def Turn.EndsReporting {α : Type} (r : EStateM.Result Halt (Session ρ) α) : Prop :=
  ∀ m s, r = .error (.message m) s → m = s.history.resonanceReport

variable [Roller ρ]

/-- **That messages are reports is an invariant**, and nothing has to be kept for it. -/
theorem invariant_reports (c : Config) :
    Turn.Invariant (ρ := ρ) c (fun s => s.config = c) Turn.Reports where
  config := id
  failed _ _ _ h := nomatch h
  message _ _ h := (Halt.message.inj h).symm
  exhausted _ _ h := nomatch h
  dice _ _ hs _ := hs
  diceFailed _ _ _ _ _ h := nomatch h
  record _ hs := hs
  flags _ hs := hs
  defines _ hs := hs
  enter hs := hs
  leave hs := hs
  leaveHalted hs := hs

omit [Roller ρ] in
theorem Turn.EndsIn.reporting {α : Type} {keeps : Session ρ → Prop}
    {r : EStateM.Result Halt (Session ρ) α} (h : EndsIn keeps Reports r) : EndsReporting r := by
  rintro m s rfl
  exact h m rfl

/-- **A message is the report of the history that is left behind**, whichever operation of a session
answers with it. -/
theorem message_is_report (t : Text) (s : Session ρ) :
    Turn.EndsReporting (Turn.request t s) ∧ Turn.EndsReporting (Turn.evaluate t s) ∧
      Turn.EndsReporting (Turn.resolve t s) := by
  have hI := invariant_reports (ρ := ρ) s.config
  exact ⟨(hI.request t rfl).reporting, (hI.evaluate t rfl).reporting,
    (hI.resolve t rfl).reporting⟩

/-! ## A text that asks for the report

The message of a text whose first trigger is `resonances` is sent before anything else happens, so
that the session is left as it was. -/

section Report

variable (again : Reentry ρ) {t : Text} {script : Script} {text : Text}
  {rest : List (Trigger × Text)} {s : Session ρ}

omit [Roller ρ] in
theorem expand_of_resonances (hscan : Script.scan t = .ok script)
    (hfirst : script.rest = (.resonances, text) :: rest) (s : Session ρ) :
    Trigger.expand again t s = .error (.message s.history.resonanceReport) s := by
  have hscript : (Turn.ofExcept (Script.scan t) : Turn ρ Script) s = .ok script s := by
    rw [hscan]
    rfl
  unfold Trigger.expand
  rw [Turn.bind_of_ok _ hscript, hfirst]
  rfl

/-- **An evaluation answers with the report** of the session in which it begins, and leaves that
session as it was. -/
theorem evaluate_of_resonances (hscan : Script.scan t = .ok script)
    (hfirst : script.rest = (.resonances, text) :: rest) (hdepth : s.depth < s.config.maxDepth) :
    Turn.evaluate t s = .error (.message s.history.resonanceReport) s := by
  have hexpand := expand_of_resonances (reentry (reach s.config)) hscan hfirst (Turn.enter s)
  rw [Turn.evaluate_of_expand_error hdepth hexpand, Turn.leave_enter]
  rfl

end Report

end DiceNotation
