import Mathlib
import DiceNotation.Proofs.Atoms
import DiceNotation.Proofs.Origins
import DiceNotation.Proofs.Outcomes
import DiceNotation.Roller.Scripted

/-!
# Taking texts apart leaves the session alone

Where no define stands for text with triggers, a text without ampersands is taken apart before
anything is done with what comes of it.  The defines are looked up and their expansions are counted,
and that is all that taking it apart asks for: `Resolution.apart` says what comes of it from the
configuration and the defines alone, and a session in which this is done stays as it is
(`Resolution.still_build`).

After that the structure of the text is settled.  Groups can only fail as codes do, so parentheses
without a partner, texts that nest too deeply and expansions without end are all found before the
first die.

* `Tallying`, `Resolution.tally`, `Resolution.assembled`, `Resolution.apart`.
* `Still`, with `still_bind`; `Resolution.still_build`, `Resolution.run_tree_of_plain`.
* `RollError.IsStructural`, `structural_failures_change_nothing`.
-/

namespace DiceNotation

variable {ρ α β : Type}

/-! ## Taking texts apart without a session -/

/-- A computation that counts the defines that it expands. -/
abbrev Tallying := StateT Nat (Except Halt)

namespace Resolution

/-- Counts the expansion of a define. -/
def tally (c : Config) : Tallying Unit := do
  let n ← get
  set (n + 1)
  if c.maxExpansions < n + 1 then throw (.failed (.expansionLimit c.maxExpansions))

theorem run_tally (c : Config) (n : Nat) :
    (tally c).run n =
      if c.maxExpansions < n + 1 then .error (.failed (.expansionLimit c.maxExpansions))
      else .ok ((), n + 1) := by
  show (if c.maxExpansions < n + 1 then
    throw (.failed (.expansionLimit c.maxExpansions)) else pure () : Tallying Unit).run (n + 1) = _
  split <;> rfl

/-- The pieces of atoms, where groups and defines are taken apart by `down`. -/
def assembled (c : Config) (d : Defines) (down : Nat → List Text → Text → Tallying Pieces)
    (depth : Nat) (used : List Text) : List Atom → Tallying Pieces
  | [] => pure .nil
  | .group inner :: atoms => do
    let inner ← down (depth + 1) used inner
    let rest ← assembled c d down depth used atoms
    return .group inner rest
  | .other t :: atoms => do
    let rest ← assembled c d down depth used atoms
    return .text t rest
  | .name n :: atoms =>
    match if used.contains n then none else d.get? n with
    | none => do
      let rest ← assembled c d down depth used atoms
      return .text n rest
    | some value => do
      tally c
      let inner ← down depth (n :: used) value
      let rest ← assembled c d down depth used atoms
      return .define inner rest

/-- The pieces of a text without triggers. -/
def apart (c : Config) (d : Defines) : (path : Nat) → (depth : Nat) → List Text → Text →
    Tallying Pieces
  | 0, _, _, _ => throw .exhausted
  | path + 1, depth, used, t =>
    if c.maxDepth < depth then throw (.failed (.recursionLimit c.maxDepth))
    else do
      let atoms ← (liftM ((atoms? t).mapError Halt.failed) : Tallying (List Atom))
      assembled c d (apart c d path) depth used atoms

end Resolution

/-! ## Steps that leave a session alone -/

/-- A step comes to what a computation says, and leaves a session as it is. -/
def Still (s : Session ρ) (x : Expanding ρ α) (y : Tallying α) : Prop :=
  ∀ n, x.run n s = match y.run n with
    | .ok p => .ok p s
    | .error h => .error h s

section Steps

variable {s : Session ρ}

theorem still_pure (a : α) : Still s (pure a) (pure a) := fun _ => rfl

theorem still_bind {x : Expanding ρ α} {y : Tallying α} {f : α → Expanding ρ β}
    {g : α → Tallying β} (hx : Still s x y) (hf : ∀ a, Still s (f a) (g a)) :
    Still s (x >>= f) (y >>= g) := by
  intro n
  have hfirst := hx n
  rw [StateT.run_bind y]
  cases hy : y.run n with
  | ok p =>
    rw [hy] at hfirst
    rw [Expanding.run_bind_of_ok f hfirst]
    exact hf p.1 p.2
  | error h =>
    rw [hy] at hfirst
    exact Expanding.run_bind_of_error f hfirst

theorem still_get_bind {f : Session ρ → Expanding ρ β} {y : Tallying β} (h : Still s (f s) y) :
    Still s (liftM (getThe (Session ρ) : Turn ρ (Session ρ)) >>= f) y := h

end Steps

namespace Resolution

variable {s : Session ρ} {again : Reentry ρ}

theorem still_tally (s : Session ρ) : Still s countExpansion (tally s.config) := by
  intro n
  rw [Coupling.run_countExpansion, run_tally]
  split <;> rfl

/-- **The pieces of atoms**, when groups and defines are taken apart and leave the session alone. -/
theorem still_assemble {build : Nat → List Text → Text → Expanding ρ Pieces}
    {down : Nat → List Text → Text → Tallying Pieces} (hmacros : s.defines.macros = [])
    (hdown : ∀ depth used t, '&' ∉ t → Still s (build depth used t) (down depth used t))
    (depth : Nat) (used : List Text) {atoms : List Atom} (hatoms : ∀ a ∈ atoms, '&' ∉ a.text) :
    Still s (assemble build depth used atoms)
      (assembled s.config s.defines down depth used atoms) := by
  induction atoms with
  | nil => exact still_pure _
  | cons a atoms ih =>
    have hrest := ih fun b hb => hatoms b (List.mem_cons_of_mem a hb)
    have ha := hatoms a List.mem_cons_self
    cases a with
    | group inner =>
      have hinner : '&' ∉ inner := fun hmem =>
        ha (List.mem_cons_of_mem _ (List.mem_append_left _ hmem))
      unfold assemble assembled
      exact still_bind (hdown _ _ _ hinner) fun _ => still_bind hrest fun _ => still_pure _
    | other t =>
      unfold assemble assembled
      exact still_bind hrest fun _ => still_pure _
    | name n =>
      unfold assemble assembled
      refine still_get_bind ?_
      dsimp only
      generalize hfound : (if used.contains n then none else s.defines.get? n) = found
      cases found with
      | none => exact still_bind hrest fun _ => still_pure _
      | some value =>
        have hvalue : '&' ∉ value := by
          split at hfound
          · cases hfound
          · exact Defines.no_ampersand_of_get? hmacros hfound
        exact still_bind (still_tally s) fun _ => still_bind (hdown _ _ _ hvalue) fun _ =>
          still_bind hrest fun _ => still_pure _

/-- **Taking a text without triggers apart** comes to what the configuration and the defines say,
and leaves the session as it is. -/
theorem still_build (again : Reentry ρ) (hmacros : s.defines.macros = []) (path depth : Nat)
    (used : List Text) {t : Text} (ht : '&' ∉ t) :
    Still s (build again path depth used t) (apart s.config s.defines path depth used t) := by
  induction path generalizing depth used t with
  | zero => exact fun _ => rfl
  | succ path ih =>
    intro n
    unfold apart
    by_cases hdepth : s.config.maxDepth < depth
    · rw [run_build_of_lt again n hdepth, if_pos hdepth]
      rfl
    · rw [if_neg hdepth]
      have hround := run_prepare_of_plain again n s ht
      cases hatoms : atoms? t with
      | error e =>
        rw [hatoms] at hround
        rw [run_build_of_prepare_error again n (Nat.not_lt.mp hdepth) hround]
        rfl
      | ok atoms =>
        rw [hatoms] at hround
        rw [run_build_of_prepare again n (Nat.not_lt.mp hdepth) hround]
        have hnone : Atom.splice? s.defines used atoms = none :=
          splice?_eq_none fun a _ => scripted?_eq_none fun _ _ hvalue =>
            Defines.no_ampersand_of_get? hmacros hvalue
        unfold proceed
        rw [hnone]
        exact still_assemble hmacros (fun _ _ _ ht => ih _ _ ht) depth used
          (fun a ha hmem => ht (mem_of_mem_text hatoms ha hmem)) n

/-- The tree of a text without triggers. -/
theorem run_tree_of_plain (again : Reentry ρ) (hmacros : s.defines.macros = []) {t : Text}
    (ht : '&' ∉ t) :
    tree again t s =
      match (apart s.config s.defines (pathBound s.config) 0 [] t).run 0 with
      | .ok p => .ok p.1 s
      | .error h => .error h s := by
  have hbuild := still_build again hmacros (pathBound s.config) 0 [] ht 0
  rw [run_tree]
  cases hapart : (apart s.config s.defines (pathBound s.config) 0 [] t).run 0 with
  | ok p =>
    rw [hapart] at hbuild
    exact Turn.bind_of_ok _ hbuild
  | error h =>
    rw [hapart] at hbuild
    exact Turn.bind_of_error _ hbuild

theorem exists_of_tree_eq_ok {again : Reentry ρ} (hmacros : s.defines.macros = []) {t : Text}
    (ht : '&' ∉ t) {p : Pieces} {s' : Session ρ} (h : tree again t s = .ok p s') :
    (∃ n, (apart s.config s.defines (pathBound s.config) 0 [] t).run 0 = .ok (p, n)) ∧ s' = s := by
  rw [run_tree_of_plain again hmacros ht] at h
  split at h
  · next q hq =>
    obtain ⟨rfl, rfl⟩ := EStateM.Result.ok.inj h
    exact ⟨⟨q.2, hq⟩, rfl⟩
  · exact nomatch h

end Resolution

/-! ## What can fail after that -/

/-- The failures that are about how a text is built up. -/
inductive RollError.IsStructural : RollError → Prop where
  | unmatched (delimiter : Delimiter) (position : Nat) :
    IsStructural (.unmatched delimiter position)
  | recursionLimit (limit : Nat) : IsStructural (.recursionLimit limit)
  | expansionLimit (limit : Nat) : IsStructural (.expansionLimit limit)

/-- A code has no structure that could be wrong. -/
theorem CodeError.not_isStructural {e : RollError} (h : CodeError e) : ¬ e.IsStructural := by
  intro he
  cases h with
  | usage husage =>
    cases he with
    | _ => exact nomatch husage
  | _ => exact nomatch he

variable {s s' : Session ρ} {t : Text} {e : Halt}

/-- Numbers cannot be folded for a reason of arithmetic. -/
theorem Resolution.codeError_of_fold (h : Resolution.fold t s = .error e s') :
    ∃ error, e = .failed error ∧ CodeError error := by
  unfold fold at h
  cases hfold : NumberRun.foldNumbers t with
  | ok u =>
    rw [hfold] at h
    exact nomatch h
  | error error =>
    rw [hfold] at h
    obtain ⟨rfl, -⟩ := EStateM.Result.error.inj h
    exact ⟨_, rfl, .arith error⟩

variable [Roller ρ]

theorem codeError_of_rollCode (h : Turn.rollCode t s = .error e s') :
    ∃ error, e = .failed error ∧ CodeError error := by
  have hends := rollEnds_rollCode t s
  rw [h] at hends
  cases hends with
  | failed _ herror => exact ⟨_, rfl, herror⟩

namespace Resolution

/-- **Flattening the pieces of a text fails as codes do.** -/
theorem codeError_of_flatten {p : Pieces} (h : flatten p s = .error e s') :
    ∃ error, e = .failed error ∧ CodeError error := by
  induction p generalizing s with
  | nil => exact nomatch h
  | text t rest ih =>
    unfold flatten at h
    rcases Turn.cases_of_bind_eq_error h with h | ⟨_, _, -, h⟩
    · exact ih h
    · exact nomatch h
  | group inner rest ihi ihr =>
    unfold flatten at h
    rcases Turn.cases_of_bind_eq_error h with h | ⟨_, _, -, h⟩
    · exact ihi h
    rcases Turn.cases_of_bind_eq_error h with h | ⟨_, _, -, h⟩
    · exact codeError_of_fold h
    rcases Turn.cases_of_bind_eq_error h with h | ⟨_, _, -, h⟩
    · exact codeError_of_rollCode h
    rcases Turn.cases_of_bind_eq_error h with h | ⟨_, _, -, h⟩
    · exact ihr h
    · exact nomatch h
  | define inner rest ihi ihr =>
    unfold flatten at h
    rcases Turn.cases_of_bind_eq_error h with h | ⟨_, _, -, h⟩
    · exact ihi h
    rcases Turn.cases_of_bind_eq_error h with h | ⟨_, _, -, h⟩
    · exact codeError_of_fold h
    rcases Turn.cases_of_bind_eq_error h with h | ⟨_, _, -, h⟩
    · exact ihr h
    · exact nomatch h

/-- Resolving a text without triggers fails for its structure before anything is rolled. -/
theorem eq_of_resolve_structural {again : Reentry ρ} {e : RollError}
    (hmacros : s.defines.macros = []) (ht : '&' ∉ t) (he : e.IsStructural)
    (h : resolve again t s = .error (.failed e) s') : s' = s := by
  have hcode : ¬ ∃ error, Halt.failed e = .failed error ∧ CodeError error := by
    rintro ⟨_, ⟨⟩, herror⟩
    exact herror.not_isStructural he
  unfold resolve at h
  rcases Turn.cases_of_bind_eq_error h with h | ⟨_, _, -, h⟩
  · rw [run_tree_of_plain again hmacros ht] at h
    split at h
    · exact nomatch h
    · exact (EStateM.Result.error.inj h).2.symm
  rcases Turn.cases_of_bind_eq_error h with h | ⟨_, _, -, h⟩
  · exact absurd (codeError_of_flatten h) hcode
  · exact absurd (codeError_of_fold h) hcode

end Resolution

/-- **A text that fails for its structure has changed nothing**, whether it is resolved or
evaluated, when neither it nor any define holds triggers: not one die was rolled. -/
theorem structural_failures_change_nothing {e : RollError} (hmacros : s.defines.macros = [])
    (ht : '&' ∉ t) (he : e.IsStructural)
    (h : Turn.evaluate t s = .error (.failed e) s' ∨ Turn.resolve t s = .error (.failed e) s') :
    s' = s := by
  rcases h with h | h
  · rw [Turn.evaluate_eq] at h
    unfold Turn.evaluateWith at h
    rw [Turn.get_bind] at h
    split at h
    · exact (EStateM.Result.error.inj h).2.symm
    obtain ⟨u, hinner, rfl⟩ := Turn.exists_of_deeper_eq_error h
    rcases Turn.cases_of_bind_eq_error hinner with hinner | ⟨_, _, -, hinner⟩
    · have hmacros' : (Turn.enter s).defines.macros = [] := hmacros
      rw [Resolution.eq_of_resolve_structural hmacros' ht he hinner, Turn.leave_enter]
    · obtain ⟨_, ⟨⟩, herror⟩ := codeError_of_rollCode hinner
      exact absurd he herror.not_isStructural
  · exact Resolution.eq_of_resolve_structural hmacros ht he h

/-- A parenthesis without a partner in a define two groups deep is found before the dice in front of
it are rolled. -/
theorem unmatched_in_define_changes_nothing :
    let s := (Session.start {} (Scripted.mk [4, 2])).define [("x".toList, "1 + (2".toList)]
    s.defines.macros = [] ∧ '&' ∉ "(2d6) + (3d6 + (x))".toList ∧
    (RollError.unmatched .opening 4).IsStructural ∧
    Turn.evaluate "(2d6) + (3d6 + (x))".toList s = .error (.failed (.unmatched .opening 4)) s := by
  intro s
  have hmacros : s.defines.macros = [] := by cbv
  have ht : '&' ∉ "(2d6) + (3d6 + (x))".toList := by decide
  have he := RollError.IsStructural.unmatched .opening 4
  have houtcome : ∀ again : Reentry Scripted,
      (Turn.evaluateWith again "(2d6) + (3d6 + (x))".toList).outcome s =
        .error (.failed (.unmatched .opening 4)) := fun again => by cbv
  obtain ⟨s', hs⟩ := Turn.exists_of_outcome_eq_error (houtcome (reentry (reach s.config)))
  rw [← Turn.evaluate_eq] at hs
  have hsame := structural_failures_change_nothing hmacros ht he (Or.inl hs)
  rw [hsame] at hs
  exact ⟨hmacros, ht, he, hs⟩

end DiceNotation
