import DiceNotation.Proofs.Occurrences

/-!
# A macro and a numeral side by side

Where a name occurs once, the run in which it is bound to a macro and the run in which it is
bound to a numeral are tied by `twins`.  Both count the same expansions, but not at the same
time: the macro is counted before anything else in its text, so that the first run may reach the
limit where the second one would have failed otherwise, and `twins` lets it be ahead in this.

Their trees differ where the name was: the numeral is part of the text in the first tree, and
the pieces of a define in the second (`Stands`).  When trees are flattened this makes no
difference, because a numeral is its own value.

* `Stands`; `twins`, `Twinned`, `rolls_twins`, `ties_flatten_stands`.
* `Grown`, `Alike`; `ties_assemble_twins`, `ties_build_twins`, `ties_resolve_twins`.
* `Turn.outcome`, `outcome_eq_of_twins`.
-/

namespace DiceNotation

open Resolution

/-- A tree with a text where another tree has the pieces of a define with this text. -/
inductive Stands (w : Text) : Pieces → Pieces → Prop
  | nil : Stands w .nil .nil
  | text (t : Text) {p p' : Pieces} (h : Stands w p p') : Stands w (.text t p) (.text t p')
  | group {i i' p p' : Pieces} (hi : Stands w i i') (h : Stands w p p') :
    Stands w (.group i p) (.group i' p')
  | define {i i' p p' : Pieces} (hi : Stands w i i') (h : Stands w p p') :
    Stands w (.define i p) (.define i' p')
  | numeral {p p' : Pieces} (h : Stands w p p') :
    Stands w (.text w p) (.define (.text w .nil) p')

/-! ## The two runs -/

section Twins

variable {ρ : Type} [Roller ρ] {c : Config} {d : Defines} {n w : Text}

/-- Sessions that differ in a define and in rolls without faces. -/
structure Twinned (c : Config) (e e' : Defines) (s s' : Session ρ) : Prop where
  config : s.config = c ∧ s'.config = c
  defines : s.defines = e ∧ s'.defines = e'
  depth : s.depth < c.maxDepth
  cup : s'.cup = s.cup
  backs : s'.history.backs = s.history.backs
  backCapacity : s'.history.backCapacity = s.history.backCapacity

/-- A run with a macro and a run with a numeral. -/
def twins (c : Config) (e e' : Defines) : Coupling ρ where
  state := Twinned c e e'
  halt h _ h' _ := h = h'
  ahead h := ∃ l, h = .failed (.expansionLimit l)

omit [Roller ρ] in
/-- Recording a roll in both histories. -/
theorem Twinned.record {e e' : Defines} {s s' : Session ρ} (h : Twinned c e e' s s') (r : Roll) :
    Twinned c e e' { s with history := s.history.push r }
      { s' with history := s'.history.push r } where
  config := h.config
  defines := h.defines
  depth := h.depth
  cup := h.cup
  backs := by
    simp only [History.push, h.backs, h.backCapacity]
  backCapacity := h.backCapacity

omit [Roller ρ] in
/-- The condition of the macro is recorded in one history. -/
theorem Twinned.recordOne {e e' : Defines} {s s' : Session ρ} (h : Twinned c e e' s s') :
    Twinned c e e' (recordOne s) s' where
  config := h.config
  defines := h.defines
  depth := h.depth
  cup := h.cup
  backs := h.backs
  backCapacity := h.backCapacity

/-- Rolling sees no difference between twins. -/
theorem rolls_twins (e e' : Defines) : (twins c e e' : Coupling ρ).Rolls c where
  config h := h.config
  back := by
    intro s s' h n
    cases n with
    | zero => rfl
    | succ n =>
      show s'.history.backs.reverse[n]? = s.history.backs.reverse[n]?
      rw [h.backs]
  failed _ _ := rfl
  dice code spec := by
    intro s s' h
    rw [Turn.run_withCup, Turn.run_withCup, h.cup]
    have hcup : Twinned c e e' { s with cup := (Dice.roll code spec s.cup).2 }
        { s' with cup := (Dice.roll code spec s.cup).2 } :=
      ⟨h.config, h.defines, h.depth, rfl, h.backs, h.backCapacity⟩
    cases (Dice.roll code spec s.cup).1 with
    | ok dice => exact ⟨rfl, hcup⟩
    | error error => exact Or.inr rfl
  record _ h := h.record _

/-- Flattening trees of which one stands for the other. -/
theorem ties_flatten_stands (hw : Numeral w) (e e' : Defines) {p p' : Pieces} (h : Stands w p p') :
    (twins c e e' : Coupling ρ).Ties Eq (flatten p) (flatten p') := by
  have hC := rolls_twins (ρ := ρ) (c := c) e e'
  induction h with
  | nil => exact Coupling.ties_pure rfl
  | text t _ ih =>
    refine Coupling.ties_bind ih fun a a' ha => ?_
    exact Coupling.ties_pure (by rw [ha])
  | group _ _ ihi ihr =>
    refine Coupling.ties_bind ihi fun code _ h => ?_
    obtain rfl := h
    refine Coupling.ties_bind (hC.fold code) fun code _ h => ?_
    obtain rfl := h
    refine Coupling.ties_bind (hC.rollCode code) fun roll _ h => ?_
    obtain rfl := h
    refine Coupling.ties_bind ihr fun rest _ h => ?_
    exact Coupling.ties_pure (by rw [h])
  | define _ _ ihi ihr =>
    refine Coupling.ties_bind ihi fun value _ h => ?_
    obtain rfl := h
    refine Coupling.ties_bind (hC.fold value) fun value _ h => ?_
    obtain rfl := h
    refine Coupling.ties_bind ihr fun rest _ h => ?_
    exact Coupling.ties_pure (by rw [h])
  | @numeral p p' _ ih =>
    have hfold : (fold w : Turn ρ Text) = pure w := by
      unfold fold
      rw [hw.foldNumbers]
      rfl
    have hvalue : (flatten (.define (.text w .nil) p') : Turn ρ Text) =
        flatten p' >>= fun rest => pure (w ++ rest) := by
      show (pure (w ++ []) >>= fun value => fold value >>= fun value =>
        flatten p' >>= fun rest => pure (value ++ rest) : Turn ρ Text) = _
      rw [pure_bind, List.append_nil, hfold, pure_bind]
    rw [hvalue]
    refine Coupling.ties_bind ih fun a a' ha => ?_
    exact Coupling.ties_pure (by rw [ha])

/-- What taking a text apart gives in the two runs: one tree stands for the other, the first run
has counted so many expansions more, and its count is within the limit. -/
structure Grown (c : Config) (w : Text) (more least : Nat) (a b : Pieces × Nat) : Prop where
  stands : Stands w a.1 b.1
  count : a.2 = b.2 + more
  least_le : least ≤ a.2
  le_max : a.2 ≤ c.maxExpansions

theorem Grown.mono {more least least' : Nat} {a b : Pieces × Nat} (h : Grown c w more least a b)
    (hle : least' ≤ least) : Grown c w more least' a b :=
  ⟨h.stands, h.count, Nat.le_trans hle h.least_le, h.le_max⟩

omit [Roller ρ] in
/-- Counting an expansion in both runs, where the first one may be the first to reach the limit. -/
theorem ties_countExpansion_twins (e e' : Defines) (j more : Nat) :
    (twins c e e' : Coupling ρ).Ties
      (fun a b => a.2 = j + 1 + more ∧ b.2 = j + 1 ∧ j + 1 + more ≤ c.maxExpansions)
      ((countExpansion : Expanding ρ Unit).run (j + more))
        ((countExpansion : Expanding ρ Unit).run j) := by
  intro s s' hs
  have hs' : Twinned c e e' s s' := hs
  rw [Coupling.run_countExpansion, Coupling.run_countExpansion, hs'.config.1, hs'.config.2]
  by_cases hmax : c.maxExpansions < j + more + 1
  · rw [if_pos hmax]
    split
    · exact Or.inl ⟨_, rfl⟩
    · exact ⟨_, rfl⟩
  · rw [if_neg hmax, if_neg (by omega)]
    exact ⟨⟨by omega, rfl, by omega⟩, hs⟩

/-- Groups and values among atoms are taken apart alike. -/
structure Alike (c : Config) (d : Defines) (n w : Text)
    (down down' : Nat → List Text → Text → Expanding ρ Pieces)
    (depth : Nat) (used used' : List Text) (more least : Nat) (atoms : List Atom) : Prop where
  group : ∀ {inner j}, .group inner ∈ atoms → least ≤ j + more → j + more ≤ c.maxExpansions →
    (twins c (d.insert n (macroText w)) (d.insert n w)).Ties (Grown c w more (j + more))
      ((down (depth + 1) used inner).run (j + more)) ((down' (depth + 1) used' inner).run j)
  value : ∀ {m v j}, .name m ∈ atoms → m ∉ used' → d.get? m = some v → least < j + more →
    j + more ≤ c.maxExpansions →
    (twins c (d.insert n (macroText w)) (d.insert n w)).Ties (Grown c w more (j + more))
      ((down depth (m :: used) v).run (j + more)) ((down' depth (m :: used') v).run j)

variable {down down' : Nat → List Text → Text → Expanding ρ Pieces} {depth : Nat}
  {used used' : List Text} {more more' least : Nat}

omit [Roller ρ] in
/-- **Atoms without the name are assembled alike**, whatever comes after them. -/
theorem ties_assemble_twins {pre rest rest' : List Atom} (hpre : .name n ∉ pre)
    (hused : SameBut n used used')
    (halike : Alike c d n w down down' depth used used' more least pre)
    (hrest : ∀ j, least ≤ j + more → j + more ≤ c.maxExpansions →
      (twins c (d.insert n (macroText w)) (d.insert n w)).Ties (Grown c w more' least)
        ((assemble down depth used rest).run (j + more)) ((assemble down' depth used' rest').run j))
    {j : Nat} (hleast : least ≤ j + more) (hmax : j + more ≤ c.maxExpansions) :
    (twins c (d.insert n (macroText w)) (d.insert n w)).Ties (Grown c w more' least)
      ((assemble down depth used (pre ++ rest)).run (j + more))
      ((assemble down' depth used' (pre ++ rest')).run j) := by
  induction pre generalizing j with
  | nil => exact hrest j hleast hmax
  | cons a pre ih =>
    have hlater : ∀ k, least ≤ k + more → k + more ≤ c.maxExpansions →
        (twins c (d.insert n (macroText w)) (d.insert n w)).Ties (Grown c w more' least)
          ((assemble down depth used (pre ++ rest)).run (k + more))
          ((assemble down' depth used' (pre ++ rest')).run k) := by
      intro k hk hkmax
      refine ih (fun hmem => hpre (List.mem_cons_of_mem a hmem)) ⟨?_, ?_⟩ hk hkmax
      · exact fun hmem => halike.group (List.mem_cons_of_mem a hmem)
      · exact fun hmem => halike.value (List.mem_cons_of_mem a hmem)
    cases a with
    | other t =>
      refine Coupling.ties_run_bind (hlater j hleast hmax) fun p p' hp => ?_
      exact Coupling.ties_pure ⟨hp.stands.text t, hp.count, hp.least_le, hp.le_max⟩
    | group inner =>
      refine Coupling.ties_run_bind (halike.group List.mem_cons_self hleast hmax) fun i i' hi => ?_
      have hcount := hi.count
      have hi_least := hi.least_le
      have hi_max := hi.le_max
      rw [hcount] at hi_least hi_max ⊢
      refine Coupling.ties_run_bind (hlater i'.2 (by omega) hi_max) fun p p' hp => ?_
      exact Coupling.ties_pure ⟨.group hi.stands hp.stands, hp.count, hp.least_le, hp.le_max⟩
    | name m =>
      have hm : m ≠ n := by
        rintro rfl
        exact hpre List.mem_cons_self
      refine Coupling.ties_run_get_bind fun s s' hs => ?_
      have hs' : Twinned c (d.insert n (macroText w)) (d.insert n w) s s' := hs
      have hcontains : used.contains m = used'.contains m := by
        rw [Bool.eq_iff_iff, List.contains_iff_mem, List.contains_iff_mem]
        exact hused m hm
      rw [hs'.defines.1, hs'.defines.2, d.get?_insert_of_ne _ hm, d.get?_insert_of_ne _ hm,
        hcontains]
      dsimp only
      split
      · refine Coupling.ties_run_bind (hlater j hleast hmax) fun p p' hp => ?_
        exact Coupling.ties_pure ⟨hp.stands.text m, hp.count, hp.least_le, hp.le_max⟩
      · next v hv =>
        obtain ⟨hunused, hv⟩ := get?_of_unused hv
        refine Coupling.ties_run_bind (ties_countExpansion_twins _ _ j more) fun a a' ha => ?_
        obtain ⟨hcount, hcount', hmax'⟩ := ha
        rw [hcount, hcount']
        have hvalue := halike.value List.mem_cons_self hunused hv (j := j + 1) (by omega) hmax'
        refine Coupling.ties_run_bind hvalue fun i i' hi => ?_
        have hcount := hi.count
        have hi_least := hi.least_le
        have hi_max := hi.le_max
        rw [hcount] at hi_least hi_max ⊢
        refine Coupling.ties_run_bind (hlater i'.2 (by omega) hi_max) fun p p' hp => ?_
        exact Coupling.ties_pure ⟨.define hi.stands hp.stands, hp.count, hp.least_le, hp.le_max⟩

omit [Roller ρ] in
/-- The same with nothing after them. -/
theorem ties_assemble_alike {atoms : List Atom} (hother : .name n ∉ atoms)
    (hused : SameBut n used used')
    (halike : Alike c d n w down down' depth used used' more least atoms) {j : Nat}
    (hleast : least ≤ j + more) (hmax : j + more ≤ c.maxExpansions) :
    (twins c (d.insert n (macroText w)) (d.insert n w)).Ties (Grown c w more least)
      ((assemble down depth used atoms).run (j + more))
        ((assemble down' depth used' atoms).run j) := by
  have hnil : ∀ k, least ≤ k + more → k + more ≤ c.maxExpansions →
      (twins c (d.insert n (macroText w)) (d.insert n w)).Ties (Grown c w more least)
        ((assemble down depth used []).run (k + more)) ((assemble down' depth used' []).run k) :=
    fun k hk hkmax => Coupling.ties_pure ⟨.nil, rfl, hk, hkmax⟩
  have h := ties_assemble_twins hother hused halike hnil hleast hmax
  rw [List.append_nil] at h
  exact h

omit [Roller ρ] in
/-- A numeral is taken apart into itself. -/
theorem run_build_numeral (hw : Numeral w) (again : Reentry ρ) (path j : Nat) (used : List Text)
    {s : Session ρ} (hdepth : depth ≤ s.config.maxDepth) :
    (build again (path + 1) depth used w).run j s = .ok (.text w .nil, j) s := by
  have hround : (prepare again w).run j s = .ok ([.other w], j) s := by
    rw [run_prepare_of_plain again j s (hw.not_mem (by decide)), atoms?_numeral hw]
  rw [run_build_of_prepare again j hdepth hround]
  rfl

omit [Roller ρ] in
/-- The name of a numeral among atoms. -/
theorem run_assemble_numeral (hw : Numeral w) (again : Reentry ρ) (path j : Nat) {rest : List Atom}
    {s : Session ρ} (hdepth : depth ≤ s.config.maxDepth) (hn : n ∉ used)
    (hget : s.defines.get? n = some w) (hmax : j + 1 ≤ s.config.maxExpansions) :
    (assemble (build again (path + 1)) depth used (.name n :: rest)).run j s =
      (assemble (build again (path + 1)) depth used rest >>= fun p =>
        pure (.define (.text w .nil) p)).run (j + 1) s := by
  have hcount : (countExpansion : Expanding ρ Unit).run j s = .ok ((), j + 1) s := by
    rw [Coupling.run_countExpansion, if_neg (Nat.not_lt.mpr hmax)]
  have hcontains : used.contains n = false := by
    rw [Bool.eq_false_iff]
    exact fun hc => hn (List.contains_iff_mem.mp hc)
  show ((liftM (getThe (Session ρ) : Turn ρ (Session ρ)) : Expanding ρ (Session ρ)) >>= _).run
    j s = _
  rw [Expanding.run_get_bind]
  dsimp only
  rw [hcontains, if_neg Bool.false_ne_true, hget]
  dsimp only
  rw [Expanding.run_bind_of_ok _ hcount,
    Expanding.run_bind_of_ok _ (run_build_numeral hw again path (j + 1) (n :: used) hdepth)]

omit [Roller ρ] in
/-- Where the numeral is in the first text, the second run takes its define apart. -/
theorem ties_assemble_occurrence (hw : Numeral w) {rest : List Atom} {path : Nat}
    {again' : Reentry ρ}
    (hn : n ∉ used') (hdepth : depth ≤ c.maxDepth)
    (hrest : ∀ j, least ≤ j + more → j + more ≤ c.maxExpansions →
      (twins c (d.insert n (macroText w)) (d.insert n w)).Ties (Grown c w more least)
        ((assemble down depth used rest).run (j + more))
        ((assemble (Resolution.build again' (path + 1)) depth used' rest).run j))
    {j : Nat} (hleast : least ≤ j + (more + 1)) (hmax : j + (more + 1) ≤ c.maxExpansions) :
    (twins c (d.insert n (macroText w)) (d.insert n w)).Ties (Grown c w more least)
      ((assemble down depth used (.other w :: rest)).run (j + (more + 1)))
      ((assemble (Resolution.build again' (path + 1)) depth used' (.name n :: rest)).run j) := by
  intro s s' hs
  have hs' : Twinned c (d.insert n (macroText w)) (d.insert n w) s s' := hs
  have hget : s'.defines.get? n = some w := by
    rw [hs'.defines.2, Defines.get?_insert_self]
  have hjmax : j + 1 ≤ s'.config.maxExpansions := by
    rw [hs'.config.2]
    omega
  rw [run_assemble_numeral hw again' path j (by rw [hs'.config.2]; exact hdepth) hn hget hjmax,
    show j + (more + 1) = j + 1 + more by omega]
  refine Coupling.ties_run_bind (hrest (j + 1) (by omega) (by omega)) (fun p p' hp => ?_) s s' hs
  exact Coupling.ties_pure ⟨.numeral hp.stands, hp.count, hp.least_le, hp.le_max⟩

omit [Roller ρ] in
/-- **Atoms around one occurrence are assembled alike.** -/
theorem ties_assemble_around (hw : Numeral w) {pre post : List Atom} {path : Nat}
    {again' : Reentry ρ} (hother : .name n ∉ pre ++ post) (hused : SameBut n used used')
    (hn : n ∉ used') (hdepth : depth ≤ c.maxDepth)
    (hpre : Alike c d n w down (Resolution.build again' (path + 1)) depth used used'
      (more + 1) least
      pre)
    (hpost : Alike c d n w down (Resolution.build again' (path + 1)) depth used used' more
      least post)
    {j : Nat} (hleast : least ≤ j + (more + 1)) (hmax : j + (more + 1) ≤ c.maxExpansions) :
    (twins c (d.insert n (macroText w)) (d.insert n w)).Ties (Grown c w more least)
      ((assemble down depth used (pre ++ .other w :: post)).run (j + (more + 1)))
      ((assemble (Resolution.build again' (path + 1)) depth used'
        (pre ++ .name n :: post)).run j) := by
  have hafter : ∀ k, least ≤ k + more → k + more ≤ c.maxExpansions →
      (twins c (d.insert n (macroText w)) (d.insert n w)).Ties (Grown c w more least)
        ((assemble down depth used post).run (k + more))
        ((assemble (Resolution.build again' (path + 1)) depth used' post).run k) :=
    fun k hk hkmax => ties_assemble_alike (fun hmem => hother (List.mem_append_right pre hmem))
      hused
      hpost hk hkmax
  refine ties_assemble_twins (fun hmem => hother (List.mem_append_left post hmem)) hused hpre ?_
    hleast
    hmax
  intro k hk hkmax
  exact ties_assemble_occurrence hw hn hdepth hafter hk hkmax

omit [Roller ρ] in
/-- Clear atoms are taken apart alike, when sparse texts can be taken apart alike along a path. -/
theorem alike_of_clear (hd : Unbound d n) {again again' : Reentry ρ} {path path' depth : Nat}
    {part : List Atom} (hatoms : ∀ {a}, a ∈ part → '&' ∉ a.text)
    (hused : SameBut n used used') (hn : n ∉ used') (hdepth : depth ≤ c.maxDepth)
    (hroom : room c depth least < path + 1) (hclear : ∀ a ∈ part, a.Clear d n used used')
    (ih : ∀ {depth j : Nat} {used used' : List Text} {t : Text}, room c depth (j + more) < path →
      j + more ≤ c.maxExpansions → SameBut n used used' → n ∉ used' → '&' ∉ t →
      Sparse d n used used' t →
      (twins c (d.insert n (macroText w)) (d.insert n w)).Ties (Grown c w more (j + more))
        ((build again path depth used t).run (j + more))
          ((build again' path' depth used' t).run j)) :
    Alike c d n w (build again path) (build again' path') depth used used' more least part := by
  constructor
  · intro inner j hmem hleast hmax
    refine ih ?_ hmax hused hn ?_ (hclear _ hmem)
    · unfold room at hroom ⊢
      omega
    · exact fun hamp => hatoms hmem (List.mem_cons_of_mem _ (List.mem_append_left _ hamp))
  · intro m v j hmem hm hv hleast hmax
    obtain ⟨hne, hbelow⟩ := hclear _ hmem
    refine ih ?_ hmax (hused.cons m) ?_ (hd.plain hv) (hbelow v hm hv)
    · unfold room at hroom ⊢
      omega
    · rw [List.mem_cons, not_or]
      exact ⟨hne.symm, hn⟩

omit [Roller ρ] in
/-- The first run may be at the limit where the second one has an expansion left. -/
theorem ends_countExpansion_of_lt {e e' : Defines} {α β : Type} {V : α × Nat → β × Nat → Prop}
    {j : Nat} (hlimit : c.maxExpansions < j + 1) {s s' : Session ρ} (hs : Twinned c e e' s s')
    (f : Unit → Expanding ρ α) (y : EStateM.Result Halt (Session ρ) (β × Nat)) :
    (twins c e e').Ends V (((countExpansion : Expanding ρ Unit) >>= f).run j s) y := by
  have hcount : (countExpansion : Expanding ρ Unit).run j s =
      .error (.failed (.expansionLimit c.maxExpansions)) s := by
    rw [Coupling.run_countExpansion, hs.config.1, if_pos hlimit]
  have hahead : (twins c e e' : Coupling ρ).ahead (.failed (.expansionLimit c.maxExpansions)) :=
    ⟨_, rfl⟩
  rw [Expanding.run_bind_of_error _ hcount]
  exact Coupling.ends_of_ahead hahead _

/-- **The round that puts the output of the macro in the place of its name** is one round more
than the other run takes. -/
theorem ends_proceed_macroText (hd : Unbound d n) (hw : Numeral w) {again again' : Reentry ρ}
    (hagain : ∀ s : Session ρ, s.depth < s.config.maxDepth →
      again.evaluate "1".toList s = .ok one (recordOne s))
    {path path' j : Nat} {t : Text} {pre post : List Atom}
    (hatoms : atoms? t = .ok (pre ++ .name n :: post)) (ht : '&' ∉ t)
    (hused : SameBut n used used') (hn : n ∉ used') (hdepth : depth ≤ c.maxDepth)
    (hclear : ∀ a ∈ pre ++ post, a.Clear d n (n :: used) used')
    (hlimit : j + more + 1 ≤ c.maxExpansions)
    (halike : ∀ {k : Nat} {part : List Atom}, (∀ a ∈ part, a ∈ pre ++ post) →
      Alike c d n w (build again path) (build again' (path' + 1)) depth (n :: used) used' k
        (j + (more + 1)) part)
    {s s' : Session ρ} (hs : Twinned c (d.insert n (macroText w)) (d.insert n w) s s') :
    (twins c (d.insert n (macroText w)) (d.insert n w)).Ends (Grown c w more (j + more))
      ((countExpansion >>= fun _ => build again (path + 1) depth (n :: used)
        (pre.flatMap Atom.text ++ (macroText w ++ post.flatMap Atom.text)) :
          Expanding ρ Pieces).run (j + more) s)
      ((assemble (build again' (path' + 1)) depth used' (pre ++ .name n :: post)).run j s') := by
  have hcount : (countExpansion : Expanding ρ Unit).run (j + more) s =
      .ok ((), j + (more + 1)) s := by
    rw [Coupling.run_countExpansion, hs.config.1, if_neg (Nat.not_lt.mpr hlimit)]
    rfl
  have hdepthM : depth ≤ s.config.maxDepth := by
    rw [hs.config.1]
    exact hdepth
  have hdeep : s.depth < s.config.maxDepth := by
    rw [hs.config.1]
    exact hs.depth
  rw [Expanding.run_bind_of_ok _ hcount,
    run_build_macroText hd hw hagain hatoms ht path _ hdeep hdepthM hs.defines.1]
  have hassemble := ties_assemble_around hw (not_mem_of_clear hclear) hused.add hn hdepth
    (halike fun a ha => List.mem_append_left post ha)
    (halike fun a ha => List.mem_append_right pre ha) (Nat.le_refl _) hlimit
  have hgrown := hassemble (recordOne s) s' hs.recordOne
  exact hgrown.mono fun a b hab => hab.mono (Nat.le_succ _)

/-- **A sparse text is taken apart alike** with a macro and with a numeral. -/
theorem ties_build_twins (hd : Unbound d n) (hw : Numeral w) {again again' : Reentry ρ}
    (hagain : ∀ s : Session ρ, s.depth < s.config.maxDepth →
      again.evaluate "1".toList s = .ok one (recordOne s))
    {path path' j : Nat} {t : Text} (hroom : room c depth (j + more) < path) (hpath : path ≤ path')
    (hmax : j + more ≤ c.maxExpansions) (hused : SameBut n used used') (hn : n ∉ used')
    (ht : '&' ∉ t) (h : Sparse d n used used' t) :
    (twins c (d.insert n (macroText w)) (d.insert n w)).Ties (Grown c w more (j + more))
      ((build again path depth used t).run (j + more))
        ((build again' path' depth used' t).run j) := by
  induction path using Nat.strongRecOn generalizing path' depth j more used used' t with
  | ind path₀ ih =>
    obtain ⟨path, rfl⟩ := Nat.exists_eq_succ_of_ne_zero (Nat.ne_of_gt (Nat.zero_lt_of_lt hroom))
    obtain ⟨path', rfl⟩ := Nat.exists_eq_succ_of_ne_zero (Nat.ne_of_gt (Nat.lt_of_lt_of_le
      (Nat.succ_pos path) hpath))
    refine ties_build_of_plain (C := twins c (d.insert n (macroText w)) (d.insert n w))
      (fun hs => Twinned.config hs) (fun _ => rfl) ht ?_
    intro atoms s s' hatoms hs hdepth
    have hs : Twinned c (d.insert n (macroText w)) (d.insert n w) s s' := hs
    have hchars : ∀ {a}, a ∈ atoms → '&' ∉ a.text :=
      fun ha hc => ht (mem_of_mem_text hatoms ha hc)
    unfold proceed
    rw [hs.defines.1, hs.defines.2, splice?_numeral hd hw]
    by_cases hmem : .name n ∈ atoms
    · -- the macro takes the place of its name, and what is left is another round
      have hnew : n ∉ used := fun hused => h.not_mem hused hatoms hmem
      obtain ⟨pre, post, rfl, hpre⟩ := List.eq_append_cons_of_mem hmem
      have hclear := (sparse_iff_of_mem hatoms hnew).mp h
      rw [splice?_macroText hd post hnew hpre]
      by_cases hlimit : c.maxExpansions < j + more + 1
      · exact ends_countExpansion_of_lt hlimit hs _ _
      have hlimit := Nat.not_lt.mp hlimit
      obtain ⟨path, rfl⟩ : ∃ p, path = p + 1 := by
        refine Nat.exists_eq_succ_of_ne_zero ?_
        unfold room at hroom
        omega
      obtain ⟨path', rfl⟩ : ∃ p, path' = p + 1 :=
        Nat.exists_eq_succ_of_ne_zero (by omega)
      refine ends_proceed_macroText hd hw hagain hatoms ht hused hn hdepth hclear hlimit ?_ hs
      intro k part hpart
      refine alike_of_clear hd (fun ha => hchars (mem_append_cons_iff.mpr (Or.inr (hpart _ ha))))
        hused.add hn hdepth ?_ (fun a ha => hclear a (hpart a ha)) ?_
      · unfold room at hroom ⊢
        omega
      · intro depth j used used' t hroom hmax hused hn ht h
        exact ih path (by omega) hroom (by omega) hmax hused hn ht h
    · -- nothing is spliced, and the groups and the values are taken apart
      rw [splice?_macro_eq_none hd fun h => absurd h hmem]
      have halike : Alike c d n w (build again path) (build again' path') depth used used' more
          (j + more) atoms := by
        refine alike_of_clear hd hchars hused hn hdepth hroom
          ((sparse_iff_of_not_mem hatoms hmem).mp h) ?_
        intro depth j used used' t hroom hmax hused hn ht h
        exact ih path (Nat.lt_succ_self path) hroom (Nat.le_of_succ_le_succ hpath) hmax hused
          hn ht h
      exact ties_assemble_alike hmem hused halike (Nat.le_refl _) hmax s s' hs

theorem ties_resolve_twins (hd : Unbound d n) (hw : Numeral w) {again again' : Reentry ρ}
    (hagain : ∀ s : Session ρ, s.depth < s.config.maxDepth →
      again.evaluate "1".toList s = .ok one (recordOne s))
    {t : Text} (ht : '&' ∉ t) (honce : Once d n [] t) :
    (twins c (d.insert n (macroText w)) (d.insert n w)).Ties Eq (Resolution.resolve again t)
      (Resolution.resolve again' t) := by
  have hC := rolls_twins (ρ := ρ) (c := c) (d.insert n (macroText w)) (d.insert n w)
  have hbuild : (twins c (d.insert n (macroText w)) (d.insert n w)).Ties (Grown c w 0 0)
      ((build again (pathBound c) 0 [] t).run 0) ((build again' (pathBound c) 0 [] t).run 0) :=
    ties_build_twins hd hw hagain (room_lt_pathBound c) (Nat.le_refl _) (Nat.zero_le _)
      (fun m _ => Iff.rfl) List.not_mem_nil ht (Or.inr ⟨List.not_mem_nil, honce⟩)
  have htree : (twins c (d.insert n (macroText w)) (d.insert n w)).Ties (Stands w)
      (tree again t) (tree again' t) := by
    refine Coupling.ties_bind Coupling.ties_get fun s s' hs => ?_
    rw [(hC.config hs).1, (hC.config hs).2]
    exact Coupling.ties_bind hbuild fun a b hab => Coupling.ties_pure hab.stands
  refine Coupling.ties_bind htree fun p p' hp => ?_
  refine Coupling.ties_bind (ties_flatten_stands hw _ _ hp) fun t _ ht => ?_
  obtain rfl := ht
  exact hC.fold t

end Twins

/-! ## The outcome -/

theorem Turn.outcome_resolve {ρ : Type} [Roller ρ] (t : Text) (s : Session ρ) :
    (Turn.resolve t).outcome s = (Resolution.resolve (reentry (reach s.config)) t).outcome s := by
  unfold Turn.outcome Turn.resolve
  rw [Turn.get_bind]

/-- Twins have the same outcome, unless the first one has reached the limit of expansions. -/
theorem outcome_eq_of_twins {ρ α : Type} {c : Config} {d d' : Defines} {x y : Turn ρ α}
    (h : (twins c d d').Ties Eq x y) {s s' : Session ρ} (hs : Twinned c d d' s s')
    (hlimit : ∀ l, x.outcome s ≠ .error (.failed (.expansionLimit l))) :
    x.outcome s = y.outcome s' := by
  have hends := h s s' hs
  unfold Turn.outcome at hlimit ⊢
  cases hx : x s with
  | ok a t =>
    rw [hx] at hends
    cases hy : y s' with
    | ok b t' =>
      rw [hy] at hends
      exact congrArg Except.ok hends.1
    | error e t' =>
      rw [hy] at hends
      exact hends.elim
  | error e t =>
    rw [hx] at hends hlimit
    have hahead : ¬ (twins c d d' : Coupling ρ).ahead e := by
      rintro ⟨l, rfl⟩
      exact hlimit l rfl
    cases hy : y s' with
    | ok b t' =>
      rw [hy] at hends
      exact absurd hends hahead
    | error e' t' =>
      rw [hy] at hends
      rcases hends with hends | hends
      · exact absurd hends hahead
      · exact congrArg Except.error hends

/-- A turn has the means to evaluate the condition of a macro. -/
theorem evaluate_one_reentry {ρ : Type} [Roller ρ] (c : Config) (u : Session ρ)
    (hu : u.depth < u.config.maxDepth) :
    (reentry (reach c)).evaluate "1".toList u = .ok one (recordOne u) := by
  obtain ⟨k, hk⟩ := Nat.exists_eq_succ_of_ne_zero (Nat.ne_of_gt (Nat.zero_lt_of_lt
    (maxDepth_lt_reach c)))
  rw [hk]
  exact evaluateWith_one (reentry k) hu

/-- **A macro may stand for a number where it occurs once**: if the name occurs once along every
way down, resolving has the same outcome as with the numeral. -/
theorem outcome_macro_eq_outcome_numeral {ρ : Type} [Roller ρ] {s : Session ρ} {n t : Text}
    (c : Nat)
    (hdepth : s.depth < s.config.maxDepth) (hunbound : Unbound s.defines n) (ht : '&' ∉ t)
    (honce : Once s.defines n [] t)
    (hlimit : ∀ l, (Turn.resolve t).outcome (s.define [(n, macroText (Whole.renderNat c))]) ≠
      .error (.failed (.expansionLimit l))) :
    (Turn.resolve t).outcome (s.define [(n, macroText (Whole.renderNat c))]) =
      (Turn.resolve t).outcome (s.define [(n, Whole.renderNat c)]) := by
  have hties : (twins s.config (s.defines.insert n (macroText (Whole.renderNat c)))
      (s.defines.insert n (Whole.renderNat c)) : Coupling ρ).Ties Eq
      (Resolution.resolve (reentry (reach s.config)) t)
      (Resolution.resolve (reentry (reach s.config)) t) :=
    ties_resolve_twins hunbound (numeral_renderNat c) (evaluate_one_reentry s.config) ht honce
  have htwins : Twinned s.config (s.defines.insert n (macroText (Whole.renderNat c)))
      (s.defines.insert n (Whole.renderNat c)) (s.define [(n, macroText (Whole.renderNat c))])
      (s.define [(n, Whole.renderNat c)]) :=
    ⟨⟨rfl, rfl⟩, ⟨rfl, rfl⟩, hdepth, rfl, rfl, rfl⟩
  rw [Turn.outcome_resolve] at hlimit
  rw [Turn.outcome_resolve, Turn.outcome_resolve, htwins.config.1, htwins.config.2]
  rw [htwins.config.1] at hlimit
  exact outcome_eq_of_twins hties htwins hlimit

end DiceNotation
