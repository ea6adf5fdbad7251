import DiceNotation.Proofs.Coupling.Resolving
import DiceNotation.Session.Pipeline

/-!
# Evaluating side by side

An evaluation takes place one level deeper than what starts it.  So there are two couplings, the one
outside and the one inside, and the outer one has to *nest* the inner one: entering the level leads
from the one to the other, and leaving it leads back, whichever way the inner runs end.

A coupling that does not look at the depth nests itself.  One that does is a member of a family,
with one coupling for every depth, each nesting the next.

* `Turn.evaluateBy`: evaluation with a way of resolving texts of one's own.
* `Coupling.Nests`, `ties_deeper`, `Fair.evaluateBy`, `Fair.evaluateWith`.
* `Coupling.Tower`: such a family, with `Tower.reentry`.
* `Turn.evaluateEach`, `Turn.requestWith`: requests in which triggers start again in a given way.
-/

namespace DiceNotation

namespace Turn

variable {ρ : Type} [Roller ρ]

/-- Resolves a text in a given way and rolls the code, unless too many evaluations are under way. -/
def evaluateBy (resolve : Text → Turn ρ Text) (t : Text) : Turn ρ Roll := do
  let s ← get
  if s.config.maxDepth ≤ s.depth then fail (.recursionLimit s.config.maxDepth)
  else deeper do
    let code ← resolve t
    rollCode code

theorem evaluateWith_eq_evaluateBy (again : Reentry ρ) :
    evaluateWith again = evaluateBy (Resolution.resolve again) := rfl

/-- Evaluates segments in order by an evaluation of one's own, where blank ones are empty rolls. -/
def evaluateEach (evaluate : Text → Turn ρ Roll) : List Text → Turn ρ (List Roll)
  | [] => pure []
  | t :: ts => do
    let r ← if Text.isAllBlank t then pure Roll.empty else evaluate t
    let rs ← evaluateEach evaluate ts
    return r :: rs

theorem evaluateAll_eq_evaluateEach (ts : List Text) :
    (evaluateAll ts : Turn ρ (List Roll)) = evaluateEach evaluate ts := by
  induction ts with
  | nil => rfl
  | cons t ts ih =>
    unfold evaluateAll evaluateEach
    rw [ih]

/-- A request in which triggers start again in a given way. -/
def requestWith (again : Reentry ρ) (t : Text) : Turn ρ (List Roll) := do
  modify fun s => { s with cup := s.cup.reset }
  evaluateEach (evaluateWith again) (Text.segments t)

end Turn

namespace Coupling

variable {ρ α β : Type}

/-- One coupling outside of an evaluation, and one inside. -/
structure Nests (C C' : Coupling ρ) : Prop where
  enter : ∀ {s s'}, C.state s s' → C'.state (Turn.enter s) (Turn.enter s')
  leave : ∀ {s s'}, C'.state s s' → C.state (Turn.leave s) (Turn.leave s')
  halt : ∀ {h h' s s'}, C'.halt h s h' s' → C.halt h (Turn.leave s) h' (Turn.leave s')
  ahead : ∀ {h}, C'.ahead h → C.ahead h

/-- Turns one level deeper are tied outside when they are tied inside. -/
theorem ties_deeper {C C' : Coupling ρ} (hN : C.Nests C') {V : α → β → Prop} {x : Turn ρ α}
    {y : Turn ρ β} (h : C'.Ties V x y) : C.Ties V (Turn.deeper x) (Turn.deeper y) := by
  intro s s' hs
  have hin := h _ _ (hN.enter hs)
  unfold Turn.deeper
  cases hx : x (Turn.enter s) with
  | ok a t =>
    cases hy : y (Turn.enter s') with
    | ok b t' =>
      rw [hx, hy] at hin
      exact ⟨hin.1, hN.leave hin.2⟩
    | error e t' =>
      rw [hx, hy] at hin
      exact hin.elim
  | error e t =>
    cases hy : y (Turn.enter s') with
    | ok b t' =>
      rw [hx, hy] at hin
      exact hN.ahead hin
    | error e' t' =>
      rw [hx, hy] at hin
      rcases hin with hin | hin
      · exact Or.inl (hN.ahead hin)
      · exact Or.inr (hN.halt hin)

variable [Roller ρ] {C C' : Coupling ρ} {c : Config} {again again' : Reentry ρ}

/-- **Evaluating a text keeps sessions related**, when resolving it is tied inside. -/
theorem Fair.evaluateBy (hC : C.Fair c) (hC' : C'.Fair c) (hN : C.Nests C')
    {resolve resolve' : Text → Turn ρ Text} {t : Text} (h : C'.Ties Eq (resolve t) (resolve' t)) :
    C.Ties Eq (Turn.evaluateBy resolve t) (Turn.evaluateBy resolve' t) := by
  refine ties_bind ties_get fun s s' hs => ?_
  rw [(hC.config hs).1, (hC.config hs).2, hC.depth_eq hs]
  split
  · exact hC.fail (by simp)
  · refine ties_deeper hN (ties_bind h fun code _ hcode => ?_)
    obtain rfl := hcode
    exact hC'.toRolls.rollCode code

/-- Evaluating a text keeps sessions related, when what it starts again is tied inside. -/
theorem Fair.evaluateWith (hC : C.Fair c) (hC' : C'.Fair c) (hN : C.Nests C')
    (h : C'.TiesAgain again again') (t : Text) :
    C.Ties Eq (Turn.evaluateWith again t) (Turn.evaluateWith again' t) := by
  rw [Turn.evaluateWith_eq_evaluateBy, Turn.evaluateWith_eq_evaluateBy]
  exact hC.evaluateBy hC' hN (hC'.resolve h t)

omit [Roller ρ] in
/-- All segments of a text, when each of them is tied. -/
theorem ties_evaluateEach {evaluate evaluate' : Text → Turn ρ Roll}
    (h : ∀ t, C.Ties Eq (evaluate t) (evaluate' t)) (ts : List Text) :
    C.Ties Eq (Turn.evaluateEach evaluate ts) (Turn.evaluateEach evaluate' ts) := by
  induction ts with
  | nil => exact ties_pure rfl
  | cons t ts ih =>
    have hrest : ∀ r r' : Roll, r = r' → C.Ties Eq
        (do let rs ← Turn.evaluateEach evaluate ts
            return r :: rs)
        (do let rs ← Turn.evaluateEach evaluate' ts
            return r' :: rs) := by
      rintro r _ rfl
      refine ties_bind ih fun rs _ hrs => ?_
      exact ties_pure (by rw [hrs])
    unfold Turn.evaluateEach
    dsimp only
    split
    · exact ties_bind (ties_pure rfl) hrest
    · exact ties_bind (h t) hrest

/-- Couplings for every depth, each of which nests the next. -/
structure Tower (F : Nat → Coupling ρ) (c : Config) : Prop where
  fair : ∀ e, (F e).Fair c
  nests : ∀ e, (F e).Nests (F (e + 1))

/-- Chains of triggers of every length are tied to themselves, if all couplings permit that a
chain is too long. -/
theorem Tower.reentry {F : Nat → Coupling ρ} (hF : Tower F c)
    (hexhausted : ∀ e s s', (F e).state s s' → (F e).halt .exhausted s .exhausted s') (n e : Nat) :
    (F e).TiesAgain (reentry n : Reentry ρ) (reentry n) := by
  induction n generalizing e with
  | zero =>
    exact ⟨fun _ _ => ties_throw (hexhausted e), fun _ _ => ties_throw (hexhausted e)⟩
  | succ n ih =>
    exact ⟨fun t _ => (hF.fair e).evaluateWith (hF.fair (e + 1)) (hF.nests e) (ih (e + 1)) t,
      fun t _ => (hF.fair e).resolve (ih e) t⟩

end Coupling

end DiceNotation
