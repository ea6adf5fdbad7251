import DiceNotation.Proofs.Coupling.Evaluating

/-!
# One run at a level

The simplest coupling is that of a run with itself, about which only the configuration and the depth
are known, and how the run may halt.  A run keeps both of these, so that the levels form a tower
(`tower_level`).

A pipeline that looks up the configuration in the middle of a request therefore finds the one
that the request has begun with, and all evaluations of a request start triggers again in the
same way (`request_eq_requestWith`).

* `Coupling.level`, `fair_level`, `tower_level`, `eq_of_ties_level`.
* `Turn.request_eq_requestWith`.
-/

namespace DiceNotation

variable {ρ α : Type}

namespace Coupling

/-- A run with itself at a depth, which permits certain halts. -/
def level (c : Config) (ahead : Halt → Prop) (permits : Halt → Prop) (e : Nat) : Coupling ρ where
  state s s' := s = s' ∧ s.config = c ∧ s.depth = e
  halt h s h' s' := h = h' ∧ s = s' ∧ permits h
  ahead := ahead

/-- A level at which no run is ahead. -/
def strict (c : Config) (permits : Halt → Prop) : Nat → Coupling ρ :=
  level c (fun _ => False) permits

variable {c : Config} {ahead : Halt → Prop} {permits : Halt → Prop}

/-- A run is tied to itself at a level if it keeps the configuration and the depth, and the level
permits how it halts. -/
theorem ties_level {e : Nat} {x : Turn ρ α}
    (h : ∀ s, s.config = c → s.depth = e → match x s with
      | .ok _ s' => s'.config = c ∧ s'.depth = e
      | .error h _ => permits h) :
    (level c ahead permits e).Ties Eq x x := by
  rintro s _ ⟨rfl, hc, he⟩
  have hx := h s hc he
  cases hxs : x s with
  | ok a t =>
    rw [hxs] at hx
    exact ⟨rfl, rfl, hx⟩
  | error h t =>
    rw [hxs] at hx
    exact Or.inr ⟨rfl, rfl, hx⟩

/-- Beginning a new count of dice leaves a session at its level. -/
theorem reset_level {e : Nat} {s s' : Session ρ} (h : (level c ahead permits e).state s s') :
    (level c ahead permits e).state { s with cup := s.cup.reset }
      { s' with cup := s'.cup.reset } := by
  obtain ⟨rfl, hc, he⟩ := h
  exact ⟨rfl, hc, he⟩

/-- Runs that are tied at a level where no run is ahead end alike, as the level permits. -/
theorem eq_of_ties_level {x y : Turn ρ α} {s : Session ρ}
    (h : (strict s.config permits s.depth).Ties Eq x y) :
    y s = x s ∧ ∀ e t, x s = .error e t → permits e := by
  have hends := h s s ⟨rfl, rfl, rfl⟩
  cases hxs : x s with
  | ok a t =>
    cases hys : y s with
    | ok b t' =>
      rw [hxs, hys] at hends
      obtain ⟨rfl, rfl, -⟩ := hends
      exact ⟨rfl, fun e u hu => nomatch hu⟩
    | error e t' =>
      rw [hxs, hys] at hends
      exact hends.elim
  | error e t =>
    cases hys : y s with
    | ok b t' =>
      rw [hxs, hys] at hends
      exact hends.elim
    | error e' t' =>
      rw [hxs, hys] at hends
      rcases hends with hends | ⟨rfl, rfl, hpermits⟩
      · exact hends.elim
      · refine ⟨rfl, fun e u hu => ?_⟩
        obtain ⟨rfl, -⟩ := EStateM.Result.error.inj hu
        exact hpermits

variable [Roller ρ]

/-- Levels are fair when they permit failures and messages. -/
theorem fair_level (hfailed : ∀ e, permits (.failed e)) (hmessage : ∀ m, permits (.message m))
    (e : Nat) : (level c ahead permits e : Coupling ρ).Fair c where
  config := by
    rintro s _ ⟨rfl, hc, -⟩
    exact ⟨hc, hc⟩
  back := by
    rintro s _ ⟨rfl, -, -⟩ n
    rfl
  failed := by
    rintro error s _ - ⟨rfl, -, -⟩
    exact ⟨rfl, rfl, hfailed error⟩
  dice code spec := by
    refine ties_level fun s hc he => ?_
    rw [Turn.run_withCup]
    cases (Dice.roll code spec s.cup).1 with
    | ok dice => exact ⟨hc, he⟩
    | error error => exact hfailed error
  record := by
    rintro r v s _ - ⟨rfl, hc, he⟩
    exact ⟨rfl, hc, he⟩
  flags_eq := by
    rintro s _ ⟨rfl, -, -⟩
    rfl
  defines_eq := by
    rintro s _ ⟨rfl, -, -⟩
    rfl
  depth_eq := by
    rintro s _ ⟨rfl, -, -⟩
    rfl
  report_eq := by
    rintro s _ ⟨rfl, -, -⟩
    rfl
  flags := by
    rintro f s _ - ⟨rfl, hc, he⟩
    exact ⟨rfl, hc, he⟩
  defines := by
    rintro d s _ - ⟨rfl, hc, he⟩
    exact ⟨rfl, hc, he⟩
  message := by
    rintro s _ ⟨rfl, -, -⟩
    exact ⟨rfl, rfl, hmessage _⟩

/-- An evaluation leads from every level to the next. -/
theorem tower_level (hfailed : ∀ e, permits (.failed e)) (hmessage : ∀ m, permits (.message m)) :
    Tower (level c ahead permits : Nat → Coupling ρ) c where
  fair := fair_level hfailed hmessage
  nests e :=
    { enter := by
        rintro s _ ⟨rfl, hc, he⟩
        exact ⟨rfl, hc, congrArg (· + 1) he⟩
      leave := by
        rintro s _ ⟨rfl, hc, he⟩
        exact ⟨rfl, hc, congrArg (· - 1) he⟩
      halt := by
        rintro h _ s _ ⟨rfl, rfl, hpermits⟩
        exact ⟨rfl, rfl, hpermits⟩
      ahead := id }

/-- Evaluating the segments of a text looks up the configuration for each of them, and finds the
same one. -/
theorem ties_evaluateAll (e : Nat) (ts : List Text) :
    (strict c (fun _ => True) e).Ties Eq (Turn.evaluateAll (ρ := ρ) ts)
      (Turn.evaluateEach (Turn.evaluateWith (reentry (reach c))) ts) := by
  have hT : Tower (strict c fun _ => True : Nat → Coupling ρ) c :=
    tower_level (fun _ => trivial) fun _ => trivial
  have hexhausted : ∀ e s s', (strict c (fun _ => True) e : Coupling ρ).state s s' →
      (strict c (fun _ => True) e : Coupling ρ).halt .exhausted s .exhausted s' := by
    rintro e s _ ⟨rfl, -, -⟩
    exact ⟨rfl, rfl, trivial⟩
  have hevaluate : ∀ t : Text, (strict c (fun _ => True) e).Ties Eq (Turn.evaluate (ρ := ρ) t)
      (Turn.evaluateWith (reentry (reach c)) t) := by
    rintro t s _ ⟨rfl, hc, he⟩
    show (strict c (fun _ => True) e).Ends Eq (Turn.evaluateWith (reentry (reach s.config)) t s) _
    rw [hc]
    have hinner := hT.reentry hexhausted (reach c) (e + 1)
    exact (hT.fair e).evaluateWith (hT.fair (e + 1)) (hT.nests e) hinner t s s ⟨rfl, hc, he⟩
  rw [Turn.evaluateAll_eq_evaluateEach]
  exact ties_evaluateEach hevaluate ts

end Coupling

/-- **All segments of a request start triggers again in the same way.** -/
theorem Turn.request_eq_requestWith [Roller ρ] (t : Text) (s : Session ρ) :
    request t s = requestWith (reentry (reach s.config)) t s := by
  have h := Coupling.ties_evaluateAll (ρ := ρ) (c := s.config) s.depth (Text.segments t)
  exact (Coupling.eq_of_ties_level (s := { s with cup := s.cup.reset }) h).1.symm

end DiceNotation
