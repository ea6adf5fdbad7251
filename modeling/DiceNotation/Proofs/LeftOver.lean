import Mathlib
import DiceNotation.Proofs.Twins
import DiceNotation.Roller.Scripted

/-!
# Names that are left over

Where a name occurs once, a macro may stand for a number.  Where it occurs more often, the
occurrences after the first are left in the tree as they are written, and so this is the only
case in which the two bindings are taken apart into different trees.

## One run

The tree of a text is followed in one run only, and what is said of every part of it is an
equivalence:  the part mentions the name exactly if one of its atoms is not clear
(`mentions_assemble`).  The atoms of a text differ in what it takes to be clear, and with the
numeral they all are.

* `Pieces.Mentions`, `Bound`, `Shows`; `ties_assemble_shows`.
* `ties_build_macroText`, `ties_build_numeral`, `mentions_iff_of_ties`.
* `macro_stands_for_number`: when the macro may stand for the number.
-/

namespace DiceNotation

open Resolution

/-- A name is part of the plain text of a tree. -/
def Pieces.Mentions (n : Text) : Pieces → Prop
  | .nil => False
  | .text t rest => t = n ∨ rest.Mentions n
  | .group inner rest => inner.Mentions n ∨ rest.Mentions n
  | .define inner rest => inner.Mentions n ∨ rest.Mentions n

section Shows

variable {ρ : Type} {c : Config} {e : Defines} {n : Text}

/-- A session with a configuration and a table, in which an evaluation may begin. -/
structure Bound (c : Config) (e : Defines) (s : Session ρ) : Prop where
  config : s.config = c
  defines : s.defines = e
  depth : s.depth < c.maxDepth

/-- One run in such sessions. -/
def alone (c : Config) (e : Defines) : Coupling ρ := .single (Bound c e) fun _ _ => True

/-- A tree mentions a name unless something is the case. -/
def Shows (n : Text) (P : Prop) (a b : Pieces × Nat) : Prop := a = b ∧ (a.1.Mentions n ↔ ¬ P)

theorem Shows.congr {P Q : Prop} {a b : Pieces × Nat} (h : Shows n P a b) (hPQ : P ↔ Q) :
    Shows n Q a b := ⟨h.1, h.2.trans (not_congr hPQ)⟩

/-- Counting an expansion in one run. -/
theorem ties_countExpansion_alone (j : Nat) :
    (alone c e : Coupling ρ).Ties Eq ((countExpansion : Expanding ρ Unit).run j)
      ((countExpansion : Expanding ρ Unit).run j) := by
  rintro s _ ⟨rfl, hs⟩
  rw [Coupling.run_countExpansion]
  split
  · exact Or.inr ⟨⟨rfl, rfl⟩, trivial⟩
  · exact ⟨rfl, rfl, hs⟩

variable {down : Nat → List Text → Text → Expanding ρ Pieces} {depth : Nat} {used : List Text}

/-- **The tree of atoms mentions the name unless all of them are clear**, where it is given for
each atom what it takes to be clear. -/
theorem ties_assemble_shows {atoms : List Atom} {P : Atom → Prop}
    (hother : ∀ {t}, .other t ∈ atoms → t ≠ n ∧ P (.other t))
    (hgroup : ∀ {inner}, .group inner ∈ atoms → ∀ j, (alone c e).Ties (Shows n (P (.group inner)))
      ((down (depth + 1) used inner).run j) ((down (depth + 1) used inner).run j))
    (hplain : ∀ {m}, .name m ∈ atoms → m ∈ used ∨ e.get? m = none → (P (.name m) ↔ m ≠ n))
    (hvalue : ∀ {m v}, .name m ∈ atoms → m ∉ used → e.get? m = some v → ∀ j,
      (alone c e).Ties (Shows n (P (.name m))) ((down depth (m :: used) v).run j)
        ((down depth (m :: used) v).run j)) (j : Nat) :
    (alone c e).Ties (Shows n (∀ a ∈ atoms, P a)) ((assemble down depth used atoms).run j)
      ((assemble down depth used atoms).run j) := by
  induction atoms generalizing j with
  | nil => exact Coupling.ties_pure ⟨rfl, iff_of_false id (not_not_intro fun a ha => nomatch ha)⟩
  | cons a atoms ih =>
    have hlater := ih (fun h => hother (List.mem_cons_of_mem a h))
      (fun h => hgroup (List.mem_cons_of_mem a h)) (fun h => hplain (List.mem_cons_of_mem a h))
      fun h => hvalue (List.mem_cons_of_mem a h)
    -- an atom and what comes after it are clear if each of the two is
    have hcons : ∀ {Q R : Prop}, (Q ↔ ¬ P a) → (R ↔ ¬ ∀ b ∈ atoms, P b) →
        (Q ∨ R ↔ ¬ ∀ b ∈ a :: atoms, P b) := by
      intro Q R hQ hR
      rw [hQ, hR, List.forall_mem_cons, not_and_or]
    cases a with
    | other t =>
      obtain ⟨hne, hP⟩ := hother List.mem_cons_self
      refine Coupling.ties_run_bind (hlater j) fun p p' hp => ?_
      obtain ⟨rfl, hp⟩ := hp
      exact Coupling.ties_pure ⟨rfl, hcons (iff_of_false hne (not_not_intro hP)) hp⟩
    | group inner =>
      refine Coupling.ties_run_bind (hgroup List.mem_cons_self j) fun i i' hi => ?_
      obtain ⟨rfl, hi⟩ := hi
      refine Coupling.ties_run_bind (hlater i.2) fun p p' hp => ?_
      obtain ⟨rfl, hp⟩ := hp
      exact Coupling.ties_pure ⟨rfl, hcons hi hp⟩
    | name m =>
      refine Coupling.ties_run_get_bind fun s s' hs => ?_
      obtain ⟨rfl, hs⟩ := hs
      rw [hs.defines]
      dsimp only
      split
      · next hnone =>
        have hleft : m ∈ used ∨ e.get? m = none := by
          by_cases hm : m ∈ used
          · exact Or.inl hm
          · rw [if_neg fun hc => hm (List.contains_iff_mem.mp hc)] at hnone
            exact Or.inr hnone
        have hP := hplain List.mem_cons_self hleft
        refine Coupling.ties_run_bind (hlater j) fun p p' hp => ?_
        obtain ⟨rfl, hp⟩ := hp
        exact Coupling.ties_pure ⟨rfl, hcons (by rw [hP, not_not]) hp⟩
      · next v hv =>
        obtain ⟨hm, hv⟩ := get?_of_unused hv
        refine Coupling.ties_run_bind (ties_countExpansion_alone j) fun k k' hk => ?_
        obtain rfl := hk
        refine Coupling.ties_run_bind (hvalue List.mem_cons_self hm hv k.2) fun i i' hi => ?_
        obtain ⟨rfl, hi⟩ := hi
        refine Coupling.ties_run_bind (hlater i.2) fun p p' hp => ?_
        obtain ⟨rfl, hp⟩ := hp
        exact Coupling.ties_pure ⟨rfl, hcons hi hp⟩

end Shows

/-! ## The two bindings -/

section Bindings

variable {ρ : Type} {c : Config} {d : Defines} {n w t : Text} {again : Reentry ρ}
  {depth : Nat} {used used' : List Text}

/-- Words between names are no names. -/
theorem isName_of_other_mem {atoms : List Atom} {u : Text} (hatoms : atoms? t = .ok atoms)
    (h : .other u ∈ atoms) : Text.isName u = false := by
  obtain ⟨parts, _, rfl⟩ := atoms?_eq_ok_iff.mp hatoms
  obtain ⟨part, _, hpart⟩ := List.mem_flatMap.mp h
  cases part with
  | group inner => exact nomatch List.mem_singleton.mp hpart
  | plain text =>
    obtain ⟨run, hrun, heq⟩ := List.mem_map.mp hpart
    exact Atom.isName_of_ofRun_eq_other ((Text.orderly_runs text).uniform run hrun) heq

/-- Taking a text apart in one round, when it does not end early. -/
theorem ties_build_of_atoms {e : Defines} {path : Nat} {V : Pieces × Nat → Pieces × Nat → Prop}
    (ht : '&' ∉ t) (j : Nat)
    (h : ∀ {atoms} {s : Session ρ}, atoms? t = .ok atoms → Bound c e s → depth ≤ c.maxDepth →
      (alone c e : Coupling ρ).Ends V ((proceed again path depth used e atoms).run j s)
        ((proceed again path depth used e atoms).run j s)) :
    (alone c e).Ties V ((build again (path + 1) depth used t).run j)
      ((build again (path + 1) depth used t).run j) := by
  refine ties_build_of_plain (c := c) ?_ ?_ ht ?_
  · rintro s _ ⟨rfl, hs⟩
    exact ⟨hs.config, hs.config⟩
  · rintro e s _ ⟨rfl, -⟩
    exact ⟨⟨rfl, rfl⟩, trivial⟩
  · rintro atoms s _ hatoms ⟨rfl, hs⟩ hdepth
    rw [hs.defines]
    exact h hatoms hs hdepth

/-- The tree of atoms in the run with the macro, when nothing is spliced any more. -/
theorem ties_assemble_macroText (hd : Unbound d n) (hname : Text.isName n = true)
    {down : Nat → List Text → Text → Expanding ρ Pieces} {atoms : List Atom}
    (hother : ∀ {u}, .other u ∈ atoms → Text.isName u = false)
    (hmem : .name n ∈ atoms → n ∈ used) (hamp : ∀ {a}, a ∈ atoms → '&' ∉ a.text)
    (hused : SameBut n used used') (hn : n ∉ used')
    (ih : ∀ {depth : Nat} {used used' : List Text} {t : Text}, SameBut n used used' → n ∉ used' →
      '&' ∉ t → ∀ j, (alone c (d.insert n (macroText w))).Ties (Shows n (Sparse d n used used' t))
        ((down depth used t).run j) ((down depth used t).run j)) (j : Nat) :
    (alone c (d.insert n (macroText w))).Ties (Shows n (∀ a ∈ atoms, a.Clear d n used used'))
      ((assemble down depth used atoms).run j) ((assemble down depth used atoms).run j) := by
  refine ties_assemble_shows ?_ ?_ ?_ ?_ j
  · intro u hu
    refine ⟨?_, trivial⟩
    rintro rfl
    exact Bool.false_ne_true ((hother hu).symm.trans hname)
  · intro inner hinner j
    refine ih hused hn (fun h => hamp hinner ?_) j
    exact List.mem_cons_of_mem _ (List.mem_append_left _ h)
  · intro m _ hleft
    refine ⟨And.left, fun hne => ⟨hne, fun v hm hv => ?_⟩⟩
    rcases hleft with hleft | hleft
    · exact absurd ((hused m hne).mp hleft) hm
    · rw [d.get?_insert_of_ne _ hne, hv] at hleft
      exact nomatch hleft
  · intro m v hmem' hm hv j
    have hne : m ≠ n := by
      rintro rfl
      exact hm (hmem hmem')
    rw [d.get?_insert_of_ne _ hne] at hv
    have hn' : n ∉ m :: used' := by
      rw [List.mem_cons, not_or]
      exact ⟨hne.symm, hn⟩
    refine Coupling.ties_mono (ih (hused.cons m) hn' (hd.plain hv) j) fun a b hab => hab.congr ?_
    constructor
    · intro hsparse
      refine ⟨hne, fun v' _ hv' => ?_⟩
      obtain rfl := Option.some.inj (hv.symm.trans hv')
      exact hsparse
    · exact fun hclear => hclear.2 v (fun h => hm ((hused m hne).mpr h)) hv

/-- The tree of atoms around an occurrence of the name, whose macro has taken its place. -/
theorem ties_assemble_spliced (hd : Unbound d n) (hw : Numeral w) (hname : Text.isName n = true)
    {down : Nat → List Text → Text → Expanding ρ Pieces} {pre post : List Atom}
    (hatoms : atoms? t = .ok (pre ++ .name n :: post)) (ht : '&' ∉ t) (hnew : n ∉ used)
    (hused : SameBut n used used') (hn : n ∉ used')
    (ih : ∀ {depth : Nat} {used used' : List Text} {t : Text}, SameBut n used used' → n ∉ used' →
      '&' ∉ t → ∀ j, (alone c (d.insert n (macroText w))).Ties (Shows n (Sparse d n used used' t))
        ((down depth used t).run j) ((down depth used t).run j)) (j : Nat) :
    (alone c (d.insert n (macroText w))).Ties (Shows n (Sparse d n used used' t))
      ((assemble down depth (n :: used) (pre ++ .other w :: post)).run j)
      ((assemble down depth (n :: used) (pre ++ .other w :: post)).run j) := by
  have hsubset : ∀ {a}, a ∈ pre ++ post → a ∈ pre ++ .name n :: post := fun ha =>
    mem_append_cons_iff.mpr (Or.inr ha)
  have hother : ∀ {u}, .other u ∈ pre ++ .other w :: post → Text.isName u = false := by
    intro u hu
    rcases mem_append_cons_iff.mp hu with hu | hu
    · cases hu
      exact Bool.eq_false_iff.mpr hw.not_isName
    · exact isName_of_other_mem hatoms (hsubset hu)
  have hamp : ∀ {a}, a ∈ pre ++ .other w :: post → '&' ∉ a.text := by
    intro a ha
    rcases mem_append_cons_iff.mp ha with rfl | ha
    · exact hw.not_mem (by decide)
    · exact fun hc => ht (mem_of_mem_text hatoms (hsubset ha) hc)
  refine Coupling.ties_mono (ties_assemble_macroText hd hname hother (fun _ => List.mem_cons_self)
    hamp
    hused.add hn ih j) fun a b hab => hab.congr ?_
  rw [sparse_iff_of_mem hatoms hnew]
  constructor
  · exact fun h a ha => h a (mem_append_cons_iff.mpr (Or.inr ha))
  · intro h a ha
    rcases mem_append_cons_iff.mp ha with rfl | ha
    · trivial
    · exact h a ha

/-- **With the macro**, the tree of a text mentions the name unless the text is sparse. -/
theorem ties_build_macroText [Roller ρ] (hd : Unbound d n) (hw : Numeral w)
    (hname : Text.isName n = true)
    (hagain : ∀ s : Session ρ, s.depth < s.config.maxDepth →
      again.evaluate "1".toList s = .ok one (recordOne s))
    (path : Nat) (hused : SameBut n used used') (hn : n ∉ used') (ht : '&' ∉ t) (j : Nat) :
    (alone c (d.insert n (macroText w))).Ties (Shows n (Sparse d n used used' t))
      ((build again path depth used t).run j) ((build again path depth used t).run j) := by
  induction path using Nat.strongRecOn generalizing depth used used' t j with
  | ind path ih =>
    cases path with
    | zero => exact Coupling.ties_throw fun s s' h => ⟨⟨rfl, h.1⟩, trivial⟩
    | succ path =>
      refine ties_build_of_atoms ht j fun {atoms s} hatoms hs hdepth => ?_
      unfold proceed
      by_cases hoccurs : .name n ∈ atoms ∧ n ∉ used
      · obtain ⟨hmem, hnew⟩ := hoccurs
        obtain ⟨pre, post, rfl, hpre⟩ := List.eq_append_cons_of_mem hmem
        rw [splice?_macroText hd post hnew hpre]
        refine Coupling.ties_run_bind (ties_countExpansion_alone j) (fun k k' hk => ?_) s s
          ⟨rfl, hs⟩
        obtain rfl := hk
        cases path with
        | zero => exact Coupling.ties_throw fun s s' h => ⟨⟨rfl, h.1⟩, trivial⟩
        | succ path =>
          rintro s _ ⟨rfl, hs⟩
          rw [run_build_macroText hd hw hagain hatoms ht path k.2
            (by rw [hs.config]; exact hs.depth)
            (by rw [hs.config]; exact hdepth) hs.defines]
          exact ties_assemble_spliced hd hw hname hatoms ht hnew hused hn
            (fun hused hn ht j => ih path (by omega) hused hn ht j) k.2 (recordOne s) (recordOne s)
            ⟨rfl, hs.config, hs.defines, hs.depth⟩
      · have hleft : .name n ∈ atoms → n ∈ used :=
          fun hmem => not_not.mp fun hn => hoccurs ⟨hmem, hn⟩
        rw [splice?_macro_eq_none hd hleft]
        refine Coupling.ties_mono (ties_assemble_macroText hd hname (isName_of_other_mem hatoms)
          hleft
          (fun ha hc => ht (mem_of_mem_text hatoms ha hc)) hused hn
          (fun hused hn ht j => ih path (Nat.lt_succ_self path) hused hn ht j) j)
          (fun a b hab => hab.congr ?_) s s ⟨rfl, hs⟩
        by_cases hmem : .name n ∈ atoms
        · exact iff_of_false (fun h => not_mem_of_clear h hmem)
            fun h => h.not_mem (hleft hmem) hatoms hmem
        · exact (sparse_iff_of_not_mem hatoms hmem).symm

/-- **With the numeral**, no tree mentions the name: it is expanded wherever it occurs, and the
only text in which it is in use is the numeral itself. -/
theorem ties_build_numeral (hd : Unbound d n) (hw : Numeral w) (hname : Text.isName n = true)
    (path : Nat) (hn : n ∈ used → t = w) (ht : '&' ∉ t) (j : Nat) :
    (alone c (d.insert n w) : Coupling ρ).Ties (Shows n True)
      ((build again path depth used t).run j) ((build again path depth used t).run j) := by
  induction path generalizing depth used t j with
  | zero => exact Coupling.ties_throw fun s s' h => ⟨⟨rfl, h.1⟩, trivial⟩
  | succ path ih =>
    refine ties_build_of_atoms ht j fun {atoms s} hatoms hs _ => ?_
    have honly : n ∈ used → atoms = [.other w] := by
      intro hmem
      rw [hn hmem, atoms?_numeral hw] at hatoms
      exact (Except.ok.inj hatoms).symm
    have hunused : ∀ {a}, a ∈ atoms → a ≠ .other w → n ∉ used := by
      intro a ha hne hmem
      rw [honly hmem] at ha
      exact hne (List.mem_singleton.mp ha)
    unfold proceed
    rw [splice?_numeral hd hw]
    refine Coupling.ties_mono (ties_assemble_shows ?_ ?_ ?_ ?_ j)
      (fun a b hab => hab.congr (iff_of_true (fun _ _ => trivial) trivial)) s s ⟨rfl, hs⟩
    · intro u hu
      refine ⟨?_, trivial⟩
      rintro rfl
      exact Bool.false_ne_true ((isName_of_other_mem hatoms hu).symm.trans hname)
    · intro inner hmem j
      refine ih (fun h => absurd h (hunused hmem nofun)) (fun h => ht ?_) j
      exact mem_of_mem_text hatoms hmem (List.mem_cons_of_mem _ (List.mem_append_left _ h))
    · intro m hmem hleft
      refine iff_of_true trivial ?_
      rintro rfl
      rcases hleft with hleft | hleft
      · exact hunused hmem nofun hleft
      · rw [Defines.get?_insert_self] at hleft
        exact nomatch hleft
    · intro m v hmem hm hv j
      by_cases hne : m = n
      · subst hne
        rw [Defines.get?_insert_self] at hv
        obtain rfl := Option.some.inj hv
        exact ih (fun _ => rfl) (hw.not_mem (by decide)) j
      · have hnew := hunused hmem nofun
        refine ih (fun h => absurd h ?_) (hd.get?_insert hne hv) j
        rw [List.mem_cons, not_or]
        exact ⟨Ne.symm hne, hnew⟩

/-- What is said of every round can be said of the tree. -/
theorem mentions_iff_of_ties {e : Defines} {P : Prop}
    (h : ∀ path, (alone c e : Coupling ρ).Ties (Shows n P) ((build again path 0 [] t).run 0)
      ((build again path 0 [] t).run 0)) {s s' : Session ρ} {p : Pieces} (hs : Bound c e s)
    (hp : tree again t s = .ok p s') : p.Mentions n ↔ ¬ P := by
  have hends := h (pathBound s.config) s s ⟨rfl, hs⟩
  rw [run_tree] at hp
  cases hbuild : (build again (pathBound s.config) 0 [] t).run 0 s with
  | error e u =>
    rw [Turn.bind_of_error _ hbuild] at hp
    exact nomatch hp
  | ok a u =>
    rw [Turn.bind_of_ok _ hbuild] at hp
    cases hp
    rw [hbuild] at hends
    exact hends.1.2

end Bindings

/-! ## When a macro may stand for a number -/

/-- **A macro may stand for a number exactly where it occurs once.**  If it occurs once along
every way down, resolving has the same outcome as with the numeral, unless the macro reaches the
limit of expansions; and the name is left in the tree of the macro if and only if it occurs more
often, while it is never left in the tree of the numeral. -/
theorem macro_stands_for_number {ρ : Type} [Roller ρ] {s : Session ρ} {n t : Text} (c : Nat)
    (hname : Text.isName n = true) (hdepth : s.depth < s.config.maxDepth)
    (hunbound : Unbound s.defines n) (ht : '&' ∉ t) :
    (Once s.defines n [] t →
      (∀ l, (Turn.resolve t).outcome (s.define [(n, macroText (Whole.renderNat c))]) ≠
        .error (.failed (.expansionLimit l))) →
      (Turn.resolve t).outcome (s.define [(n, macroText (Whole.renderNat c))]) =
        (Turn.resolve t).outcome (s.define [(n, Whole.renderNat c)])) ∧
    (∀ {p s'}, tree (reentry (reach s.config)) t (s.define [(n, macroText (Whole.renderNat c))]) =
      .ok p s' → (p.Mentions n ↔ ¬ Once s.defines n [] t)) ∧
    (∀ {p s'}, tree (reentry (reach s.config)) t (s.define [(n, Whole.renderNat c)]) = .ok p s' →
      ¬ p.Mentions n) := by
  have hw := numeral_renderNat c
  have hbound : ∀ v : Text, Bound s.config (s.defines.insert n v) (s.define [(n, v)]) :=
    fun v => ⟨rfl, rfl, hdepth⟩
  refine ⟨fun honce hlimit => outcome_macro_eq_outcome_numeral c hdepth hunbound ht honce hlimit,
    fun {p s'} hp => ?_, fun {p s'} hp => ?_⟩
  · have hmentions := mentions_iff_of_ties (fun path => ties_build_macroText hunbound hw hname
      (evaluate_one_reentry s.config) path (fun _ _ => Iff.rfl) List.not_mem_nil ht 0) (hbound _) hp
    exact hmentions.trans (not_congr ⟨Sparse.once, fun h => Or.inr ⟨List.not_mem_nil, h⟩⟩)
  · have hmentions := mentions_iff_of_ties (fun path => ties_build_numeral hunbound hw hname path
      (fun h => absurd h List.not_mem_nil) ht 0) (hbound _) hp
    exact fun h => hmentions.mp h trivial

/-! ## A name beside itself -/

/-- A session in which nothing but `n` is bound. -/
def loneSession (value : Text) : Session Scripted :=
  (Session.start {} (Scripted.mk [])).define [(['n'], value)]

theorem unbound_empty (n : Text) : Unbound .empty n := ⟨rfl, fun h => nomatch h⟩

/-- The tree of a text in which the macro takes the place of a name. -/
theorem tree_macroText {ρ : Type} [Roller ρ] {d : Defines} {n w t : Text} {again : Reentry ρ}
    (hd : Unbound d n) (hw : Numeral w)
    (hagain : ∀ s : Session ρ, s.depth < s.config.maxDepth →
      again.evaluate "1".toList s = .ok one (recordOne s))
    {pre post : List Atom} (hatoms : atoms? t = .ok (pre ++ .name n :: post)) (hpre : .name n ∉ pre)
    (ht : '&' ∉ t) {s s' : Session ρ} (hdepth : s.depth < s.config.maxDepth)
    (hmax : 1 ≤ s.config.maxExpansions) (hdefines : s.defines = d.insert n (macroText w))
    {p : Pieces}
    {j : Nat}
    (hassemble : (assemble (build again (s.config.maxDepth + s.config.maxExpansions)) 0 [n]
      (pre ++ .other w :: post)).run 1 (recordOne s) = .ok (p, j) s') :
    tree again t s = .ok p s' := by
  have hround := run_prepare_of_plain again 0 s ht
  rw [hatoms] at hround
  have hcount : (countExpansion : Expanding ρ Unit).run 0 s = .ok ((), 1) s := by
    rw [Coupling.run_countExpansion, if_neg (Nat.not_lt.mpr hmax)]
  have hbuild : (build again (pathBound s.config) 0 [] t).run 0 s = .ok (p, j) s' := by
    show (build again (s.config.maxDepth + s.config.maxExpansions + 1 + 1) 0 [] t).run 0 s = _
    rw [run_build_of_prepare again 0 (Nat.zero_le _) hround]
    unfold proceed
    rw [hdefines, splice?_macroText hd post List.not_mem_nil hpre]
    dsimp only
    rw [Expanding.run_bind_of_ok _ hcount, run_build_macroText hd hw hagain hatoms ht _ 1 hdepth
      (Nat.zero_le _) hdefines]
    exact hassemble
  rw [run_tree, Turn.bind_of_ok _ hbuild]
  rfl

/-- The outcome for a text whose tree is known and has no dice. -/
theorem outcome_resolve_of_tree {ρ : Type} [Roller ρ] {t u v : Text} {s s' : Session ρ} {p : Pieces}
    (htree : tree (reentry (reach s.config)) t s = .ok p s')
    (hflatten : (flatten p : Turn ρ Text) = pure u)
    (hfold : NumberRun.foldNumbers u = .ok v) : (Turn.resolve t).outcome s = .ok v := by
  rw [Turn.outcome_resolve]
  unfold Turn.outcome Resolution.resolve
  rw [Turn.bind_of_ok _ htree, hflatten, pure_bind, fold, hfold]
  rfl

/-- The tree of `n + n` with a macro: the name beside the first one is left as it is. -/
theorem tree_sum_loneSession :
    tree (reentry (reach (loneSession (macroText ['3'])).config)) "n + n".toList
      (loneSession (macroText ['3'])) =
      .ok (.text ['3'] (.text " + ".toList (.text ['n'] .nil)))
        (recordOne (loneSession (macroText ['3']))) := by
  have hatoms : atoms? "n + n".toList =
      .ok ([] ++ .name ['n'] :: [.other " + ".toList, .name ['n']]) := by cbv
  exact tree_macroText (unbound_empty ['n']) (numeral_renderNat 3) (evaluate_one_reentry _) hatoms
    List.not_mem_nil (by decide) (by decide) (by decide) rfl (j := 1) rfl

/-- The tree of `n` with a macro. -/
theorem tree_loneSession :
    tree (reentry (reach (loneSession (macroText ['3'])).config)) ['n']
        (loneSession (macroText ['3'])) =
      .ok (.text ['3'] .nil) (recordOne (loneSession (macroText ['3']))) := by
  have hatoms : atoms? ['n'] = .ok ([] ++ .name ['n'] :: []) := by cbv
  exact tree_macroText (unbound_empty ['n']) (numeral_renderNat 3) (evaluate_one_reentry _) hatoms
    List.not_mem_nil (by decide) (by decide) (by decide) rfl (j := 1) rfl

/-- The macro stands for the number in `n`, and does not in `n + n`. -/
theorem macro_stands_for_number_in_name :
    Text.isName ['n'] = true ∧ (0 : Nat) < Config.maxDepth {} ∧ Unbound .empty ['n'] ∧
    '&' ∉ ['n'] ∧ '&' ∉ "n + n".toList ∧ Once .empty ['n'] [] ['n'] ∧
    (Turn.resolve ['n']).outcome (loneSession (macroText (Whole.renderNat 3))) =
      (Turn.resolve ['n']).outcome (loneSession (Whole.renderNat 3)) ∧
    ¬ Once .empty ['n'] [] "n + n".toList := by
  have hatoms : atoms? ['n'] = .ok ([] ++ .name ['n'] :: []) := by cbv
  have hempty : ∀ a : Atom, a ∉ [] ++ [] := fun a => List.not_mem_nil
  have honce : Once .empty ['n'] [] ['n'] :=
    .here hatoms (hempty _) (fun h => absurd h (hempty _)) (fun h => absurd h (hempty _))
  have hlimit : ∀ l, (Turn.resolve ['n']).outcome (loneSession (macroText (Whole.renderNat 3))) ≠
      .error (.failed (.expansionLimit l)) := by
    intro l
    have houtcome := outcome_resolve_of_tree tree_loneSession rfl
      (by cbv : NumberRun.foldNumbers ['3'] = .ok ['3'])
    exact fun h => by cases houtcome.symm.trans h
  have hname := macro_stands_for_number (s := Session.start {} (Scripted.mk [])) (t := ['n']) 3
    (by decide) (by decide) (unbound_empty ['n']) (by decide)
  have hsum := macro_stands_for_number (s := Session.start {} (Scripted.mk []))
    (t := "n + n".toList) 3
    (by decide) (by decide) (unbound_empty ['n']) (by decide)
  have hleft := (hsum.2.1 tree_sum_loneSession).mp (Or.inr (Or.inr (Or.inl rfl)))
  exact ⟨by decide, by decide, unbound_empty ['n'], by decide, by decide, honce,
    hname.1 honce hlimit, hleft⟩

/-- In `n + n` the macro does not stand for the number, although there are no groups and no other
defines: the outcomes are `3 + n` and `6`. -/
theorem not_forall_outcome_eq :
    ¬ ∀ (s : Session Scripted) (n t : Text) (c : Nat), s.config = {} → s.depth = 0 →
      Unbound s.defines n →
      Text.isName n = true → '&' ∉ t → '(' ∉ t →
      (∀ v l, v = macroText (Whole.renderNat c) ∨ v = Whole.renderNat c →
        (Turn.resolve t).outcome (s.define [(n, v)]) ≠ .error (.failed (.expansionLimit l))) →
      (Turn.resolve t).outcome (s.define [(n, macroText (Whole.renderNat c))]) =
        (Turn.resolve t).outcome (s.define [(n, Whole.renderNat c)]) := by
  have hwritten : (Turn.resolve "n + n".toList).outcome (loneSession (macroText ['3'])) =
      .ok "3 + n".toList :=
    outcome_resolve_of_tree tree_sum_loneSession rfl
      (by cbv : NumberRun.foldNumbers "3 + n".toList = .ok "3 + n".toList)
  have hevaluate : ∀ again : Reentry Scripted,
      (Resolution.resolve again "n + n".toList).outcome (loneSession ['3']) = .ok ['6'] := by
    intro again
    cbv
  have hnumeral : (Turn.resolve "n + n".toList).outcome (loneSession ['3']) = .ok ['6'] := by
    rw [Turn.outcome_resolve]
    exact hevaluate _
  intro h
  have heq := h (Session.start {} (Scripted.mk [])) ['n'] "n + n".toList 3 rfl rfl
    (unbound_empty ['n'])
    (by decide) (by decide) (by decide) ?_
  · exact absurd (hwritten.symm.trans (heq.trans hnumeral)) (by decide)
  · rintro v l (rfl | rfl)
    · exact fun hfail => by cases hwritten.symm.trans hfail
    · exact fun hfail => by cases hnumeral.symm.trans hfail

end DiceNotation
