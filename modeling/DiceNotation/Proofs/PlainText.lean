import DiceNotation.Proofs.Coupling.Resolving

/-!
# Texts without triggers

A text without an ampersand has no triggers to fire.  Taking it apart then begins with what can
be read off the text alone: its atoms, or the parenthesis that has no partner.

Turns are run one step at a time, in a given session and with a given count of expansions
(`Turn.bind_of_ok`, `Expanding.run_bind_of_ok`).

* `Turn.outcome`: what a turn comes to.
* `Script.scan_of_plain`, `Trigger.expand_of_plain`.
* `Resolution.atoms?`, `run_prepare_of_plain`, `ties_build_of_plain`.
-/

namespace DiceNotation

variable {ρ : Type} {t : Text}

/-- What a turn comes to, apart from the session that it leaves. -/
def Turn.outcome {α : Type} (x : Turn ρ α) (s : Session ρ) : Except Halt α :=
  match x s with
  | .ok a _ => .ok a
  | .error h _ => .error h

section Steps

variable {α β : Type} {s s' : Session ρ} {e : Halt} {n m : Nat}

/-- A turn goes on after its first step. -/
theorem Turn.bind_of_ok {x : Turn ρ α} {a : α} (f : α → Turn ρ β) (h : x s = .ok a s') :
    (x >>= f) s = f a s' := by
  show EStateM.bind x f s = f a s'
  unfold EStateM.bind
  rw [h]

/-- A turn ends with its first step. -/
theorem Turn.bind_of_error {x : Turn ρ α} (f : α → Turn ρ β) (h : x s = .error e s') :
    (x >>= f) s = .error e s' := by
  show EStateM.bind x f s = .error e s'
  unfold EStateM.bind
  rw [h]

theorem Turn.get_bind (f : Session ρ → Turn ρ α) (s : Session ρ) : (get >>= f) s = f s s := rfl

theorem Expanding.run_bind_of_ok {x : Expanding ρ α} {a : α} (f : α → Expanding ρ β)
    (h : x.run n s = .ok (a, m) s') : (x >>= f).run n s = (f a).run m s' := by
  rw [StateT.run_bind, Turn.bind_of_ok _ h]

theorem Expanding.run_bind_of_error {x : Expanding ρ α} (f : α → Expanding ρ β)
    (h : x.run n s = .error e s') : (x >>= f).run n s = .error e s' := by
  rw [StateT.run_bind, Turn.bind_of_error _ h]

/-- Looking at the session. -/
theorem Expanding.run_get_bind (f : Session ρ → Expanding ρ β) (n : Nat) (s : Session ρ) :
    (liftM (getThe (Session ρ) : Turn ρ (Session ρ)) >>= f).run n s = (f s).run n s := rfl

/-- A step that counts nothing. -/
theorem Expanding.run_liftM_of_ok {x : Turn ρ α} {a : α} (h : x s = .ok a s') :
    (liftM x : Expanding ρ α).run n s = .ok (a, n) s' :=
  Turn.bind_of_ok (fun a => pure (a, n)) h

theorem Expanding.run_liftM_of_error {x : Turn ρ α} (h : x s = .error e s') :
    (liftM x : Expanding ρ α).run n s = .error e s' :=
  Turn.bind_of_error (fun a => pure (a, n)) h

end Steps

/-- A text without an ampersand is a script without triggers. -/
theorem Script.scan_of_plain (h : '&' ∉ t) : scan t = .ok ⟨t, []⟩ := by
  have hpieces : Text.pieces isAmpersand t = [t] := by
    refine Text.pieces_of_forall_not fun c hc => ?_
    unfold isAmpersand
    rw [beq_eq_false_iff_ne]
    rintro rfl
    exact h hc
  unfold scan
  rw [hpieces]
  rfl

/-- A text without an ampersand stays as it is. -/
theorem Trigger.expand_of_plain (again : Reentry ρ) (h : '&' ∉ t) (s : Session ρ) :
    expand again t s = .ok t s := by
  have hscan : (Turn.ofExcept (Script.scan t) : Turn ρ Script) s = .ok ⟨t, []⟩ s := by
    rw [Script.scan_of_plain h]
    rfl
  have htext : (⟨[t], []⟩ : Surroundings).text = t := by
    unfold Surroundings.text
    rw [List.reverse_singleton, List.flatten_singleton, List.flatten_nil, List.append_nil]
  unfold expand
  rw [Turn.bind_of_ok _ hscan]
  show EStateM.Result.ok (Surroundings.text ⟨[t], []⟩) s = .ok t s
  rw [htext]

namespace Resolution

/-- The atoms of a text whose triggers have fired. -/
def atoms? (t : Text) : Except RollError (List Atom) :=
  (Group.parts? (Group.dropEmptyGroups t)).map Atom.ofParts

variable (again : Reentry ρ) (n : Nat) (s : Session ρ)

/-- A round, once its triggers have fired. -/
theorem run_prepare_of_expand {t' : Text} {s s' : Session ρ}
    (h : Trigger.expand again t s = .ok t' s') :
    (prepare again t).run n s = match atoms? t' with
      | .ok atoms => .ok (atoms, n) s'
      | .error e => .error (.failed e) s' := by
  have hexpand : (liftM (Trigger.expand again t) : Expanding ρ Text).run n s = .ok (t', n) s' :=
    Expanding.run_liftM_of_ok h
  unfold prepare atoms?
  rw [Expanding.run_bind_of_ok _ hexpand]
  cases Group.parts? (Group.dropEmptyGroups t') with
  | ok parts => rfl
  | error e => rfl

/-- The round of a text without an ampersand only takes it into its atoms. -/
theorem run_prepare_of_plain (h : '&' ∉ t) :
    (prepare again t).run n s = match atoms? t with
      | .ok atoms => .ok (atoms, n) s
      | .error e => .error (.failed e) s :=
  run_prepare_of_expand again n (Trigger.expand_of_plain again h s)

/-- What becomes of the atoms of a round: another round, or the pieces. -/
def proceed (path depth : Nat) (used : List Text) (defines : Defines) (atoms : List Atom) :
    Expanding ρ Pieces :=
  match Atom.splice? defines used atoms with
  | some (name, t) => do
    countExpansion
    build again path depth (name :: used) t
  | none => assemble (build again path) depth used atoms

variable {s} {path depth m : Nat} {used : List Text} {s' : Session ρ}

/-- Taking a text apart, once its atoms are known. -/
theorem run_build_of_prepare {atoms : List Atom} (hdepth : depth ≤ s.config.maxDepth)
    (h : (prepare again t).run n s = .ok (atoms, m) s') :
    (build again (path + 1) depth used t).run n s =
      (proceed again path depth used s'.defines atoms).run m s' := by
  unfold build
  rw [Expanding.run_get_bind, if_neg (Nat.not_lt.mpr hdepth), Expanding.run_bind_of_ok _ h,
    Expanding.run_get_bind]
  rfl

/-- Taking a text apart at a depth that is not allowed. -/
theorem run_build_of_lt (hdepth : s.config.maxDepth < depth) :
    (build again (path + 1) depth used t).run n s =
      .error (.failed (.recursionLimit s.config.maxDepth)) s := by
  unfold build
  rw [Expanding.run_get_bind, if_pos hdepth]
  rfl

/-- Taking a text apart, when the round ends early. -/
theorem run_build_of_prepare_error {e : Halt} (hdepth : depth ≤ s.config.maxDepth)
    (h : (prepare again t).run n s = .error e s') :
    (build again (path + 1) depth used t).run n s = .error e s' := by
  unfold build
  rw [Expanding.run_get_bind, if_neg (Nat.not_lt.mpr hdepth)]
  exact Expanding.run_bind_of_error _ h

/-- **Two runs take a text without an ampersand apart** one round further: both end early, and in
the same way, or both go on from its atoms. -/
theorem ties_build_of_plain {C : Coupling ρ} {c : Config}
    (hconfig : ∀ {s s'}, C.state s s' → s.config = c ∧ s'.config = c)
    (hfailed : ∀ {e s s'}, C.state s s' → C.halt (.failed e) s (.failed e) s')
    {again again' : Reentry ρ} {path path' j j' : Nat} {used' : List Text}
    {V : Pieces × Nat → Pieces × Nat → Prop} (ht : '&' ∉ t)
    (h : ∀ {atoms s s'}, atoms? t = .ok atoms → C.state s s' → depth ≤ c.maxDepth →
      C.Ends V ((proceed again path depth used s.defines atoms).run j s)
        ((proceed again' path' depth used' s'.defines atoms).run j' s')) :
    C.Ties V ((build again (path + 1) depth used t).run j)
      ((build again' (path' + 1) depth used' t).run j') := by
  intro s s' hs
  obtain ⟨hc, hc'⟩ := hconfig hs
  by_cases hdepth : c.maxDepth < depth
  · rw [run_build_of_lt again j (by rw [hc]; exact hdepth),
      run_build_of_lt again' j' (by rw [hc']; exact hdepth), hc, hc']
    exact Or.inr (hfailed hs)
  have hdepth := Nat.not_lt.mp hdepth
  have hround := run_prepare_of_plain again j s ht
  have hround' := run_prepare_of_plain again' j' s' ht
  cases hatoms : atoms? t with
  | error e =>
    rw [hatoms] at hround hround'
    rw [run_build_of_prepare_error again j (by rw [hc]; exact hdepth) hround,
      run_build_of_prepare_error again' j' (by rw [hc']; exact hdepth) hround']
    exact Or.inr (hfailed hs)
  | ok atoms =>
    rw [hatoms] at hround hround'
    rw [run_build_of_prepare again j (by rw [hc]; exact hdepth) hround,
      run_build_of_prepare again' j' (by rw [hc']; exact hdepth) hround']
    exact h hatoms hs hdepth

/-- Taking a text apart from its beginning. -/
theorem run_tree (t : Text) (s : Session ρ) :
    tree again t s =
      ((build again (pathBound s.config) 0 [] t).run 0 >>= fun p => pure p.1 :
        Turn ρ Pieces) s := rfl

/-- A text whose first round ends early is taken no further. -/
theorem resolve_of_prepare_error [Roller ρ] {e : Halt} {s s' : Session ρ}
    (h : (prepare again t).run 0 s = .error e s') : resolve again t s = .error e s' := by
  have hbuild : (build again (s.config.maxDepth + s.config.maxExpansions + 2) 0 [] t).run 0 s =
      .error e s' := run_build_of_prepare_error again 0 (Nat.zero_le _) h
  have htree : tree again t s = .error e s' := by
    rw [run_tree]
    exact Turn.bind_of_error _ hbuild
  exact Turn.bind_of_error _ htree

/-- A text whose triggers end early is taken no further. -/
theorem resolve_of_expand_error [Roller ρ] {e : Halt} {s s' : Session ρ}
    (h : Trigger.expand again t s = .error e s') : resolve again t s = .error e s' := by
  have hexpand : (liftM (Trigger.expand again t) : Expanding ρ Text).run 0 s = .error e s' :=
    Expanding.run_liftM_of_error h
  exact resolve_of_prepare_error again (Expanding.run_bind_of_error _ hexpand)

end Resolution

end DiceNotation
