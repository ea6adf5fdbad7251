import DiceNotation.Proofs.Coupling.Firing
import DiceNotation.Resolution.Flatten

/-!
# Resolving side by side

Taking a text apart counts the defines that it expands.  The count is not part of the session, so
that ties say what becomes of it: it is the same in both runs, it never falls, and as long as the
runs go on it is within the limit.

## The path never runs out

Taking a text apart recurses on the length of a path, and both couplings of different runs and those
of a run with itself have to know that this length is never used up.  A step down the tree enters a
group, which the depth allows so often, or expands a define, which the count allows so often.
`Resolution.room` is what the two still allow, and `Fair.build` asks for a path that is longer than
that.  So there is no case of an exhausted path in it, and a coupling of a run with itself that
permits no exhaustion shows that there is none.

## Which texts there are

How a round is tied can depend on the text that it begins with.  `Coupling.Rounds` is about a kind
of texts that taking apart does not lead out of.  All texts are one such kind, and where no define
is a macro the texts without ampersands are another.

A round begins with the firing of triggers, and nothing else in resolution depends on how they fire.
So ties are shown of `Resolution.resolveBy`, where this is a parameter.

* `Coupling.TiesFrom`: ties of turns that count, with `tiesFrom_bind`, `tiesFrom_lift_bind`.
* `Resolution.resolveBy`, with `Resolution.resolve_eq_resolveBy`.
* `Resolution.room`; `Coupling.Rounds`; `Fair.build`, `Fair.resolveBy`, `Fair.resolve`.
-/

namespace DiceNotation

/-- How many steps down the tree the configuration still allows. -/
def Resolution.room (c : Config) (depth n : Nat) : Nat :=
  (c.maxDepth + 1 - depth) + (c.maxExpansions - n)

theorem Resolution.room_lt_pathBound (c : Config) : room c 0 0 < pathBound c := by
  unfold room pathBound
  omega

/-! ## Triggers that fire in a given way -/

namespace Resolution

section

variable {ρ : Type} (expand : Text → Turn ρ Text)

/-- A round in which triggers fire in a given way. -/
def prepareBy (t : Text) : Expanding ρ (List Atom) := do
  let t ← liftM (expand t)
  let parts ← liftM (Turn.ofExcept (Group.parts? (Group.dropEmptyGroups t)) : Turn ρ _)
  return Atom.ofParts parts

/-- The pieces of a text whose triggers fire in a given way. -/
def buildBy : (path : Nat) → (depth : Nat) → (used : List Text) → Text → Expanding ρ Pieces
  | 0, _, _, _ => throw .exhausted
  | path + 1, depth, used, t => do
    let s ← liftM (getThe (Session ρ) : Turn ρ (Session ρ))
    if s.config.maxDepth < depth then
      liftM (Turn.fail (.recursionLimit s.config.maxDepth) : Turn ρ Pieces)
    else
      let atoms ← prepareBy expand t
      let s ← liftM (getThe (Session ρ) : Turn ρ (Session ρ))
      match Atom.splice? s.defines used atoms with
      | some (n, t) => do
        countExpansion
        buildBy path depth (n :: used) t
      | none => assemble (buildBy path) depth used atoms

/-- The tree of a text whose triggers fire in a given way. -/
def treeBy (t : Text) : Turn ρ Pieces := do
  let s ← get
  let (pieces, _) ← (buildBy expand (pathBound s.config) 0 [] t).run 0
  return pieces

/-- What a text resolves to when its triggers fire in a given way. -/
def resolveBy [Roller ρ] (t : Text) : Turn ρ Text := do
  let pieces ← treeBy expand t
  let t ← flatten pieces
  fold t

theorem build_eq_buildBy (again : Reentry ρ) : build again = buildBy (Trigger.expand again) := by
  funext path
  induction path with
  | zero => rfl
  | succ path ih =>
    funext depth used t
    unfold build buildBy
    rw [ih]
    rfl

theorem resolve_eq_resolveBy [Roller ρ] (again : Reentry ρ) :
    resolve again = resolveBy (Trigger.expand again) := by
  funext t
  unfold resolve resolveBy tree treeBy
  rw [build_eq_buildBy]

end

end Resolution

namespace Coupling

variable {ρ α β : Type} {C : Coupling ρ} {c : Config}

/-- Two turns that count expansions, when `n` have been counted: they end with the same count,
which is within the limit and at least `least`. -/
def TiesFrom (C : Coupling ρ) (c : Config) (n least : Nat) (x y : Expanding ρ α) : Prop :=
  C.Ties (fun a b => a = b ∧ least ≤ a.2 ∧ a.2 ≤ c.maxExpansions) (x.run n) (y.run n)

/-- A turn that counts nothing. -/
theorem run_liftM (x : Turn ρ α) (n : Nat) :
    (liftM x : Expanding ρ α).run n = x >>= fun a => pure (a, n) := rfl

/-- Turns that count expansions are composed one after another, whatever their counts are. -/
theorem ties_run_bind {n m : Nat} {V : α × Nat → α × Nat → Prop} {W : β × Nat → β × Nat → Prop}
    {x y : Expanding ρ α}
    {f g : α → Expanding ρ β} (hx : C.Ties V (x.run n) (y.run m))
    (hf : ∀ a b, V a b → C.Ties W ((f a.1).run a.2) ((g b.1).run b.2)) :
    C.Ties W ((x >>= f).run n) ((y >>= g).run m) := by
  rw [StateT.run_bind, StateT.run_bind]
  exact ties_bind hx hf

/-- Turns that count nothing come before others that count. -/
theorem ties_run_lift_bind {n m : Nat} {V : α → α → Prop} {W : β × Nat → β × Nat → Prop}
    {x y : Turn ρ α} {f g : α → Expanding ρ β} (hx : C.Ties V x y)
    (hf : ∀ a b, V a b → C.Ties W ((f a).run n) ((g b).run m)) :
    C.Ties W ((liftM x >>= f).run n) ((liftM y >>= g).run m) := by
  rw [StateT.run_bind, StateT.run_bind, run_liftM, run_liftM, bind_assoc, bind_assoc]
  exact ties_bind hx hf

theorem ties_run_get_bind {n m : Nat} {W : β × Nat → β × Nat → Prop}
    {f g : Session ρ → Expanding ρ β}
    (hf : ∀ s s', C.state s s' → C.Ties W ((f s).run n) ((g s').run m)) :
    C.Ties W ((liftM (getThe (Session ρ) : Turn ρ (Session ρ)) >>= f).run n)
      ((liftM (getThe (Session ρ) : Turn ρ (Session ρ)) >>= g).run m) :=
  ties_run_lift_bind ties_get hf

theorem tiesFrom_pure {n least : Nat} (hleast : least ≤ n) (hn : n ≤ c.maxExpansions) (a : α) :
    C.TiesFrom c n least (pure a) (pure a) :=
  ties_pure ⟨rfl, hleast, hn⟩

theorem tiesFrom_bind {n least least' : Nat} {x y : Expanding ρ α} {f g : α → Expanding ρ β}
    (hx : C.TiesFrom c n least x y)
    (hf : ∀ a m, least ≤ m → m ≤ c.maxExpansions → C.TiesFrom c m least' (f a) (g a)) :
    C.TiesFrom c n least' (x >>= f) (y >>= g) := by
  refine ties_run_bind hx fun p _ hp => ?_
  obtain ⟨rfl, hleast, hmax⟩ := hp
  exact hf p.1 p.2 hleast hmax

theorem tiesFrom_lift_bind {n least : Nat} {V : α → α → Prop} {x y : Turn ρ α}
    {f g : α → Expanding ρ β} (hx : C.Ties V x y)
    (hf : ∀ a b, V a b → C.TiesFrom c n least (f a) (g b)) :
    C.TiesFrom c n least (liftM x >>= f) (liftM y >>= g) :=
  ties_run_lift_bind hx hf

theorem tiesFrom_get_bind {n least : Nat} {f g : Session ρ → Expanding ρ β}
    (hf : ∀ s s', C.state s s' → C.TiesFrom c n least (f s) (g s')) :
    C.TiesFrom c n least (liftM (getThe (Session ρ) : Turn ρ (Session ρ)) >>= f)
      (liftM (getThe (Session ρ) : Turn ρ (Session ρ)) >>= g) :=
  tiesFrom_lift_bind ties_get hf

/-- What counting an expansion comes to. -/
theorem run_countExpansion (n : Nat) (s : Session ρ) :
    (Resolution.countExpansion : Expanding ρ Unit).run n s =
      if s.config.maxExpansions < n + 1 then
        .error (.failed (.expansionLimit s.config.maxExpansions)) s
      else .ok ((), n + 1) s := by
  show ((if s.config.maxExpansions < n + 1 then
    liftM (Turn.fail (.expansionLimit s.config.maxExpansions) : Turn ρ Unit)
    else pure () : Expanding ρ Unit)).run (n + 1) s = _
  split <;> rfl

/-- Rounds with texts of a kind are tied, and taking a text of this kind apart leads to such texts
only. -/
structure Rounds (C : Coupling ρ) (P : Text → Prop) (expand expand' : Text → Turn ρ Text) :
    Prop where
  expand : ∀ t, P t → C.Ties (fun a b => a = b ∧ '&' ∉ a) (expand t) (expand' t)
  /-- Groups are of the kind, since their text has no ampersand. -/
  plain : ∀ {t}, '&' ∉ t → P t
  value : ∀ {s s' name value}, C.state s s' → s.defines.get? name = some value → P value
  spliced : ∀ {s s' used atoms name t}, C.state s s' →
    Atom.splice? s.defines used atoms = some (name, t) → P t

variable [Roller ρ]

namespace Fair

/-- Failing while expansions are counted. -/
theorem tiesFrom_fail (hC : C.Fair c) {n least : Nat} {e : RollError} (he : e ≠ .tooManyRolls) :
    C.TiesFrom c n least (liftM (Turn.fail e : Turn ρ α)) (liftM (Turn.fail e : Turn ρ α)) :=
  ties_throw fun _ _ hs => hC.failed he hs

/-- An expansion is counted, or it is one too many. -/
theorem countExpansion (hC : C.Fair c) (n : Nat) :
    C.TiesFrom c n (n + 1) (Resolution.countExpansion : Expanding ρ Unit)
      Resolution.countExpansion := by
  intro s s' hs
  rw [run_countExpansion, run_countExpansion, (hC.config hs).1, (hC.config hs).2]
  split
  · exact Or.inr (hC.failed (by simp) hs)
  · next h => exact ⟨⟨rfl, Nat.le_refl _, Nat.not_lt.mp h⟩, hs⟩

variable {expand expand' : Text → Turn ρ Text} {again again' : Reentry ρ} {P : Text → Prop}

/-- The atoms of a round are the same in both runs, and have no ampersand. -/
theorem prepare (hC : C.Fair c) (h : C.Rounds P expand expand') (n : Nat) {t : Text} (ht : P t) :
    C.Ties (fun a b => a = b ∧ a.2 = n ∧ ∀ atom ∈ a.1, '&' ∉ atom.text)
      ((Resolution.prepareBy expand t).run n) ((Resolution.prepareBy expand' t).run n) := by
  refine ties_run_lift_bind (h.expand t ht) fun t _ ht => ?_
  obtain ⟨rfl, ht⟩ := ht
  refine ties_run_lift_bind (hC.ofExcept ?_) fun parts _ hparts => ?_
  · exact (failsOnly_unmatched_partsFrom? 0 _).ne_error (by simp)
  · obtain ⟨rfl, hparts⟩ := hparts
    refine ties_pure ⟨rfl, rfl, fun atom hatom hamp => ht ?_⟩
    exact Group.dropEmptyGroups_subset t (Atom.subset_of_mem_ofParts hparts hatom hamp)

/-- The pieces of atoms, when groups one level deeper are tied at any later count, and values of
defines at any count after one more expansion. -/
theorem assemble (hC : C.Fair c) (h : C.Rounds P expand expand') {depth : Nat}
    {build build' : Nat → List Text → Text → Expanding ρ Pieces} {atoms : List Atom}
    (hatoms : ∀ a ∈ atoms, '&' ∉ a.text) (used : List Text) {n : Nat} (hn : n ≤ c.maxExpansions)
    (hgroup : ∀ m used t, P t → n ≤ m → m ≤ c.maxExpansions →
      C.TiesFrom c m m (build (depth + 1) used t) (build' (depth + 1) used t))
    (hdefine : ∀ m used t, P t → n < m → m ≤ c.maxExpansions →
      C.TiesFrom c m m (build depth used t) (build' depth used t)) :
    C.TiesFrom c n n (Resolution.assemble build depth used atoms)
      (Resolution.assemble build' depth used atoms) := by
  induction atoms generalizing n with
  | nil => exact tiesFrom_pure (Nat.le_refl n) hn _
  | cons a atoms ih =>
    have hrest : ∀ m, n ≤ m → m ≤ c.maxExpansions →
        C.TiesFrom c m n (Resolution.assemble build depth used atoms)
          (Resolution.assemble build' depth used atoms) := by
      intro m hnm hm
      refine ties_mono (ih (fun a ha => hatoms a (List.mem_cons_of_mem _ ha)) hm
        (fun k used t ht hk => hgroup k used t ht (Nat.le_trans hnm hk))
        fun k used t ht hk => hdefine k used t ht (Nat.lt_of_le_of_lt hnm hk)) ?_
      rintro p _ ⟨rfl, hleast, hmax⟩
      exact ⟨rfl, Nat.le_trans hnm hleast, hmax⟩
    have ha : '&' ∉ a.text := hatoms a List.mem_cons_self
    cases a with
    | group inner =>
      have hinner : '&' ∉ inner := fun hamp =>
        ha (List.mem_cons_of_mem _ (List.mem_append_left _ hamp))
      unfold Resolution.assemble
      refine tiesFrom_bind (hgroup n used inner (h.plain hinner) (Nat.le_refl n) hn)
        fun inner m hm hmax => ?_
      refine tiesFrom_bind (hrest m hm hmax) fun rest k hk hkmax => ?_
      exact tiesFrom_pure hk hkmax _
    | other t =>
      unfold Resolution.assemble
      refine tiesFrom_bind (hrest n (Nat.le_refl n) hn) fun rest k hk hkmax => ?_
      exact tiesFrom_pure hk hkmax _
    | name name =>
      unfold Resolution.assemble
      refine tiesFrom_get_bind fun s s' hs => ?_
      rw [hC.defines_eq hs]
      dsimp only
      split
      · refine tiesFrom_bind (hrest n (Nat.le_refl n) hn) fun rest k hk hkmax => ?_
        exact tiesFrom_pure hk hkmax _
      · next value hvalue =>
        have hvalue : P value := by
          split at hvalue
          · exact nomatch hvalue
          · exact h.value hs hvalue
        refine tiesFrom_bind (hC.countExpansion n) fun _ m hm hmax => ?_
        refine tiesFrom_bind (hdefine m _ value hvalue hm hmax) fun inner k hk hkmax => ?_
        refine tiesFrom_bind (hrest k (Nat.le_trans (Nat.le_of_lt hm) hk) hkmax) fun rest l hl
          hlmax => ?_
        exact tiesFrom_pure hl hlmax _

/-- **Taking a text apart**, along a path that is longer than what the configuration allows. -/
theorem build (hC : C.Fair c) (h : C.Rounds P expand expand') {path depth n : Nat}
    (used : List Text) {t : Text} (ht : P t) (hn : n ≤ c.maxExpansions)
    (hpath : Resolution.room c depth n < path) :
    C.TiesFrom c n n (Resolution.buildBy expand path depth used t)
      (Resolution.buildBy expand' path depth used t) := by
  induction path generalizing depth n used t with
  | zero => exact absurd hpath (Nat.not_lt_zero _)
  | succ path ih =>
    unfold Resolution.buildBy
    refine tiesFrom_get_bind fun s s' hs => ?_
    rw [(hC.config hs).1, (hC.config hs).2]
    split
    · exact hC.tiesFrom_fail (by simp)
    · next hdepth =>
      refine ties_run_bind (hC.prepare h n ht) fun a _ ha => ?_
      obtain ⟨rfl, hcount, hatoms⟩ := ha
      rw [hcount]
      refine tiesFrom_get_bind fun u u' hu => ?_
      rw [hC.defines_eq hu]
      have hroom : ∀ k, n < k → k ≤ c.maxExpansions → Resolution.room c depth k < path := by
        intro k hnk hk
        unfold Resolution.room at hpath ⊢
        omega
      split
      · next name t' hsplice =>
        refine tiesFrom_bind (hC.countExpansion n) fun _ k hk hkmax => ?_
        refine ties_mono (ih (name :: used) (h.spliced hu hsplice) hkmax (hroom k hk hkmax)) ?_
        rintro p _ ⟨rfl, hleast, hmax⟩
        exact ⟨rfl, Nat.le_trans (Nat.le_of_lt hk) hleast, hmax⟩
      · refine hC.assemble h hatoms used hn (fun k used t ht hk hkmax => ?_)
          fun k used t ht hk hkmax => ih used ht hkmax (hroom k hk hkmax)
        refine ih used ht hkmax ?_
        unfold Resolution.room at hpath ⊢
        omega

theorem tree (hC : C.Fair c) (h : C.Rounds P expand expand') {t : Text} (ht : P t) :
    C.Ties Eq (Resolution.treeBy expand t) (Resolution.treeBy expand' t) := by
  refine ties_bind ties_get fun s s' hs => ?_
  rw [(hC.config hs).1, (hC.config hs).2]
  refine ties_bind (hC.build h [] ht (Nat.zero_le _) (Resolution.room_lt_pathBound c))
    fun p _ hp => ?_
  exact ties_pure (by rw [hp.1])

/-- **Resolving a text of a kind keeps sessions related**, when the rounds with such texts do. -/
theorem resolveBy (hC : C.Fair c) (h : C.Rounds P expand expand') {t : Text} (ht : P t) :
    C.Ties Eq (Resolution.resolveBy expand t) (Resolution.resolveBy expand' t) := by
  refine ties_bind (hC.tree h ht) fun pieces _ hpieces => ?_
  obtain rfl := hpieces
  refine ties_bind (hC.toRolls.flatten pieces) fun t _ ht => ?_
  obtain rfl := ht
  exact hC.toRolls.fold t

/-- Resolving a text of a kind, when its triggers only differ in how they start again. -/
theorem resolveOf (hC : C.Fair c)
    (h : C.Rounds P (Trigger.expand again) (Trigger.expand again')) {t : Text} (ht : P t) :
    C.Ties Eq (Resolution.resolve again t) (Resolution.resolve again' t) := by
  rw [Resolution.resolve_eq_resolveBy, Resolution.resolve_eq_resolveBy]
  exact hC.resolveBy h ht

/-- When firing is tied, so are the rounds with any text. -/
theorem rounds (hC : C.Fair c) {fires fires' : Firing ρ} (h : C.TiesFiring fires fires') :
    C.Rounds (fun _ => True) (Trigger.expandBy fires) (Trigger.expandBy fires') where
  expand t _ := hC.expandBy h t
  plain _ := trivial
  value _ _ := trivial
  spliced _ _ := trivial

/-- **Resolving any text keeps sessions related**, when starting again is tied. -/
theorem resolve (hC : C.Fair c) (h : C.TiesAgain again again') (t : Text) :
    C.Ties Eq (Resolution.resolve again t) (Resolution.resolve again' t) := by
  have hrounds := hC.rounds (hC.fire h)
  rw [← Trigger.expand_eq_expandBy, ← Trigger.expand_eq_expandBy] at hrounds
  exact hC.resolveOf hrounds trivial

end Fair

end Coupling

end DiceNotation
