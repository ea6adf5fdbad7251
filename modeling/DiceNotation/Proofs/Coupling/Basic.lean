import DiceNotation.Session.RollCode

/-!
# Two runs side by side

Most of what is to be said about a session is said about every turn in it: what a turn keeps, which
errors it can end with, and that two sessions which differ in something invisible go on to differ in
nothing else.  All of these are statements about *two* runs that are made at the same time, where
the two may well be one and the same.

A `Coupling` says how the two sessions are related as long as both runs go on, and how the runs may
halt.  Two turns are *tied* by a coupling if they lead from related sessions to the same kind of
end: to values and related sessions, or to a halt of both that the coupling permits.

## Why no frame is needed

The relation is between the sessions *in between*, so that sequencing ties is `ties_bind` and asks
for nothing: neither that the relation is reflexive nor that it is transitive.  A property of one
run that compares the end with the beginning fixes the beginning as a parameter; `Coupling.single`
makes such a property into a coupling of a run with itself.

## Runs that give up

A run with a smaller bound follows one with a larger bound until it gives up.  So a coupling can be
`ahead` in certain halts: the first run may halt in such a way whatever the second one does.

* `Coupling`, `Coupling.Ends`, `Coupling.Ties`.
* `ties_pure`, `ties_bind`, `ties_mono`, `ties_get`, `ties_modify`, `ties_throw`, `ties_ofExcept`.
* `Coupling.single`, `ties_single_iff`, `eq_of_ties_single`: one run.
-/

namespace DiceNotation

/-- A relation between two sessions in which turns are under way. -/
structure Coupling (ρ : Type) where
  /-- The sessions, as long as both runs go on. -/
  state : Session ρ → Session ρ → Prop
  /-- The halts of the two runs, with the sessions that they leave. -/
  halt : Halt → Session ρ → Halt → Session ρ → Prop
  /-- The halts of the first run that do not depend on what the second one does. -/
  ahead : Halt → Prop := fun _ => False

namespace Coupling

variable {ρ α β γ δ : Type} (C : Coupling ρ)

/-- The ends of two runs that a coupling permits, where `V` relates their values. -/
def Ends (V : α → β → Prop) :
    EStateM.Result Halt (Session ρ) α → EStateM.Result Halt (Session ρ) β → Prop
  | .ok a s, .ok b s' => V a b ∧ C.state s s'
  | .error h s, .error h' s' => C.ahead h ∨ C.halt h s h' s'
  | .error h _, .ok _ _ => C.ahead h
  | .ok _ _, .error _ _ => False

/-- Two turns end as a coupling permits, when they are made in related sessions. -/
def Ties (V : α → β → Prop) (x : Turn ρ α) (y : Turn ρ β) : Prop :=
  ∀ s s', C.state s s' → C.Ends V (x s) (y s')

variable {C}

theorem Ends.mono {V W : α → β → Prop} (hVW : ∀ a b, V a b → W a b)
    {r : EStateM.Result Halt (Session ρ) α} {r' : EStateM.Result Halt (Session ρ) β}
    (h : C.Ends V r r') : C.Ends W r r' := by
  cases r with
  | ok a s =>
    cases r' with
    | ok b s' => exact ⟨hVW a b h.1, h.2⟩
    | error e s' => exact h
  | error e s =>
    cases r' with
    | ok b s' => exact h
    | error e' s' => exact h

/-- A run that is ahead ends as it likes. -/
theorem ends_of_ahead {V : α → β → Prop} {h : Halt} {s : Session ρ} (hh : C.ahead h)
    (r : EStateM.Result Halt (Session ρ) β) :
    C.Ends V (.error h s : EStateM.Result Halt (Session ρ) α) r := by
  cases r with
  | ok b s' => exact hh
  | error h' s' => exact Or.inl hh

theorem ties_mono {V W : α → β → Prop} {x : Turn ρ α} {y : Turn ρ β}
    (h : C.Ties V x y) (hVW : ∀ a b, V a b → W a b) : C.Ties W x y :=
  fun s s' hs => (h s s' hs).mono hVW

theorem ties_pure {V : α → β → Prop} {a : α} {b : β} (h : V a b) :
    C.Ties V (pure a) (pure b) :=
  fun _ _ hs => ⟨h, hs⟩

/-- **Ties are composed one after another.** -/
theorem ties_bind {V : α → β → Prop} {W : γ → δ → Prop} {x : Turn ρ α} {y : Turn ρ β}
    {f : α → Turn ρ γ} {g : β → Turn ρ δ} (hx : C.Ties V x y)
    (hf : ∀ a b, V a b → C.Ties W (f a) (g b)) : C.Ties W (x >>= f) (y >>= g) := by
  intro s s' hs
  have h := hx s s' hs
  show C.Ends W (EStateM.bind x f s) (EStateM.bind y g s')
  unfold EStateM.bind
  cases hx' : x s with
  | ok a t =>
    cases hy : y s' with
    | ok b t' =>
      rw [hx', hy] at h
      exact hf a b h.1 t t' h.2
    | error e t' =>
      rw [hx', hy] at h
      exact h.elim
  | error e t =>
    cases hy : y s' with
    | ok b t' =>
      rw [hx', hy] at h
      -- the first run has given up, so that it does not matter how the second one goes on
      show C.Ends W (.error e t) (g b t')
      cases g b t' with
      | ok c u => exact h
      | error e' u => exact Or.inl h
    | error e' t' =>
      rw [hx', hy] at h
      exact h

/-- The sessions that two turns look at are related. -/
theorem ties_get : C.Ties C.state (get : Turn ρ (Session ρ)) get :=
  fun _ _ hs => ⟨hs, hs⟩

/-- Changing both sessions in a way that keeps them related. -/
theorem ties_modify {f g : Session ρ → Session ρ}
    (h : ∀ s s', C.state s s' → C.state (f s) (g s')) :
    C.Ties (fun _ _ => True) (modify f : Turn ρ PUnit) (modify g) :=
  fun s s' hs => ⟨trivial, h s s' hs⟩

/-- Halting both runs in a way that the coupling permits. -/
theorem ties_throw {V : α → β → Prop} {h h' : Halt}
    (hh : ∀ s s', C.state s s' → C.halt h s h' s') :
    C.Ties V (throw h : Turn ρ α) (throw h') :=
  fun s s' hs => Or.inr (hh s s' hs)

/-- A value that is known already, or its error. -/
theorem ties_ofExcept {r : Except RollError α}
    (h : ∀ e, r = .error e → ∀ s s', C.state s s' → C.halt (.failed e) s (.failed e) s') :
    C.Ties (fun a b => a = b ∧ r = .ok a) (Turn.ofExcept r) (Turn.ofExcept r) := by
  cases r with
  | ok a => exact ties_pure ⟨rfl, rfl⟩
  | error e => exact ties_throw (h e rfl)

/-- A coupling of a run with itself: what holds of the session as long as it goes on, and of the
halts. -/
def single (keeps : Session ρ → Prop) (halts : Halt → Session ρ → Prop) : Coupling ρ where
  state s s' := s = s' ∧ keeps s
  halt h s h' s' := (h = h' ∧ s = s') ∧ halts h s

/-- Coupled with itself, a turn has to keep what is to be kept. -/
theorem ties_single_iff {keeps : Session ρ → Prop} {halts : Halt → Session ρ → Prop}
    {x : Turn ρ α} {V : α → Prop} :
    (single keeps halts).Ties (fun a b => a = b ∧ V a) x x ↔
      ∀ s, keeps s → match x s with
        | .ok a s' => V a ∧ keeps s'
        | .error h s' => halts h s' := by
  constructor
  · intro hx s hs
    have h := hx s s ⟨rfl, hs⟩
    cases hxs : x s with
    | ok a t =>
      rw [hxs] at h
      exact ⟨h.1.2, h.2.2⟩
    | error e t =>
      rw [hxs] at h
      rcases h with h | h
      · exact h.elim
      · exact h.2
  · intro hx s s' hs
    obtain ⟨rfl, hs⟩ := hs
    have h := hx s hs
    cases hxs : x s with
    | ok a t =>
      rw [hxs] at h
      exact ⟨⟨rfl, h.1⟩, rfl, h.2⟩
    | error e t =>
      rw [hxs] at h
      exact Or.inr ⟨⟨rfl, rfl⟩, h⟩

/-- Coupled with itself, a run has one end. -/
theorem eq_of_ties_single {keeps : Session ρ → Prop} {halts : Halt → Session ρ → Prop}
    {x y : Turn ρ α} (h : (single keeps halts).Ties Eq x y) {s : Session ρ} (hs : keeps s) :
    x s = y s := by
  have hends := h s s ⟨rfl, hs⟩
  cases hx : x s with
  | ok a t =>
    cases hy : y s with
    | ok b t' =>
      rw [hx, hy] at hends
      obtain ⟨rfl, rfl, -⟩ := hends
      rfl
    | error e t' =>
      rw [hx, hy] at hends
      exact hends.elim
  | error e t =>
    cases hy : y s with
    | ok b t' =>
      rw [hx, hy] at hends
      exact hends.elim
    | error e' t' =>
      rw [hx, hy] at hends
      rcases hends with hends | ⟨⟨rfl, rfl⟩, -⟩
      · exact hends.elim
      · rfl

end Coupling

end DiceNotation
