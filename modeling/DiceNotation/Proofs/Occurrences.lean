import DiceNotation.Proofs.Macros

/-!
# Where a macro may stand for a number

A name can be bound to a numeral or to the macro that has it as its output.  The two take
different ways:  the numeral is expanded wherever the name occurs, and the macro is put in the
place of the first occurrence in a text, after which the name counts as used in all of the text,
in its groups and in the values of its defines.  So a second occurrence beside the first is left
as it is written.

## The condition

`Once` says that this makes no difference: in every text that is taken apart, the name occurs
once in plain text and not at all further down, or it does not occur in plain text and the same
can be said of every group and every value further down.  Below an occurrence it has to be
`Absent`.

The two runs have different names in use, because the first one uses the name of its macro.
`Sparse` is the condition for both, and it goes down from a text to its atoms in two ways: past
an occurrence (`sparse_iff_of_mem`) or where there is none (`sparse_iff_of_not_mem`).

* `Absent`, `Once`, `Sparse`, `Atom.Clear`.
* `Unbound`; `splice?_numeral`, `splice?_macro_eq_none`, `splice?_macroText`.
* `run_build_macroText`: the round in which the macro takes the place of its name.
-/

namespace DiceNotation

open Resolution

/-- A name does not occur in a text, nor further down when the text is taken apart. -/
inductive Absent (d : Defines) (n : Text) : List Text → Text → Prop
  | intro {used : List Text} {t : Text}
    (plain : ∀ {atoms}, atoms? t = .ok atoms → .name n ∉ atoms)
    (groups : ∀ {atoms inner}, atoms? t = .ok atoms → .group inner ∈ atoms → Absent d n used inner)
    (values : ∀ {atoms m v}, atoms? t = .ok atoms → .name m ∈ atoms → m ∉ used →
      d.get? m = some v → Absent d n (m :: used) v) : Absent d n used t

/-- A name occurs at most once along every way down when a text is taken apart. -/
inductive Once (d : Defines) (n : Text) : List Text → Text → Prop
  | here {used : List Text} {t : Text} {pre post : List Atom}
    (atoms : atoms? t = .ok (pre ++ .name n :: post)) (plain : .name n ∉ pre ++ post)
    (groups : ∀ {inner}, .group inner ∈ pre ++ post → Absent d n used inner)
    (values : ∀ {m v}, .name m ∈ pre ++ post → m ∉ used → d.get? m = some v →
      Absent d n (m :: used) v) : Once d n used t
  | apart {used : List Text} {t : Text}
    (plain : ∀ {atoms}, atoms? t = .ok atoms → .name n ∉ atoms)
    (groups : ∀ {atoms inner}, atoms? t = .ok atoms → .group inner ∈ atoms → Once d n used inner)
    (values : ∀ {atoms m v}, atoms? t = .ok atoms → .name m ∈ atoms → m ∉ used →
      d.get? m = some v → Once d n (m :: used) v) : Once d n used t

/-- A text that is yet to be taken apart, with the names in use in the run with the macro and in
the run with the numeral: the name is absent, or it is not in use yet and occurs once. -/
def Sparse (d : Defines) (n : Text) (used used' : List Text) (t : Text) : Prop :=
  Absent d n used' t ∨ (n ∉ used ∧ Once d n used' t)

/-- An atom that is not the name, and below which the name is sparse. -/
def Atom.Clear (d : Defines) (n : Text) (used used' : List Text) : Atom → Prop
  | .group inner => Sparse d n used used' inner
  | .name m => m ≠ n ∧ ∀ v, m ∉ used' → d.get? m = some v → Sparse d n (m :: used) (m :: used') v
  | .other _ => True

/-- A table in which a name is not bound, and nothing has triggers. -/
structure Unbound (d : Defines) (n : Text) : Prop where
  get?_eq_none : d.get? n = none
  plain : ∀ {m v}, d.get? m = some v → '&' ∉ v

/-- An atom is either the one that is looked at or around it. -/
theorem mem_append_cons_iff {pre post : List Atom} {a b : Atom} :
    a ∈ pre ++ b :: post ↔ a = b ∨ a ∈ pre ++ post :=
  List.perm_middle.mem_iff.trans List.mem_cons

/-- A name that stands for something is not in use. -/
theorem get?_of_unused {d : Defines} {used : List Text} {m v : Text}
    (h : (if used.contains m then none else d.get? m) = some v) : m ∉ used ∧ d.get? m = some v := by
  by_cases hm : m ∈ used
  · rw [if_pos (List.contains_iff_mem.mpr hm)] at h
    exact nomatch h
  · rw [if_neg fun hc => hm (List.contains_iff_mem.mp hc)] at h
    exact ⟨hm, h⟩

/-! ## From a text to its atoms -/

section Sparse

variable {d : Defines} {n t : Text} {used used' : List Text}

/-- A name that does not occur occurs at most once. -/
theorem Absent.once (h : Absent d n used t) : Once d n used t := by
  induction h with
  | intro plain _ _ ihGroups ihValues => exact .apart plain ihGroups ihValues

theorem Sparse.once (h : Sparse d n used used' t) : Once d n used' t := h.elim Absent.once And.right

/-- Once the name is in use, it has to be absent. -/
theorem sparse_iff_absent (hn : n ∈ used) : Sparse d n used used' t ↔ Absent d n used' t :=
  ⟨fun h => h.resolve_right fun h => h.1 hn, Or.inl⟩

/-- A name that is in use is not among the atoms. -/
theorem Sparse.not_mem {atoms : List Atom} (h : Sparse d n used used' t) (hn : n ∈ used)
    (hatoms : atoms? t = .ok atoms) : .name n ∉ atoms := by
  obtain ⟨plain, _, _⟩ := (sparse_iff_absent hn).mp h
  exact plain hatoms

/-- The name is not among clear atoms. -/
theorem not_mem_of_clear {atoms : List Atom} (h : ∀ a ∈ atoms, a.Clear d n used used') :
    .name n ∉ atoms := fun hmem => (h _ hmem).1 rfl

/-- **Where the name is not among the atoms**, the text is sparse if the atoms are clear. -/
theorem sparse_iff_of_not_mem {atoms : List Atom} (hatoms : atoms? t = .ok atoms)
    (hmem : .name n ∉ atoms) :
    Sparse d n used used' t ↔ ∀ a ∈ atoms, a.Clear d n used used' := by
  constructor
  · intro h a ha
    have hne : ∀ {m}, a = .name m → m ≠ n := by
      rintro m rfl rfl
      exact hmem ha
    rcases h with ⟨_, groups, values⟩ | ⟨hn, honce⟩
    · cases a with
      | group inner => exact Or.inl (groups hatoms ha)
      | name m => exact ⟨hne rfl, fun v hm hv => Or.inl (values hatoms ha hm hv)⟩
      | other t => trivial
    · cases honce with
      | @here _ _ pre post hhere =>
        rw [hatoms] at hhere
        obtain rfl := Except.ok.inj hhere
        exact absurd (List.mem_append_right pre List.mem_cons_self) hmem
      | apart _ groups values =>
        cases a with
        | group inner => exact Or.inr ⟨hn, groups hatoms ha⟩
        | name m =>
          refine ⟨hne rfl, fun v hm hv => Or.inr ⟨?_, values hatoms ha hm hv⟩⟩
          rw [List.mem_cons, not_or]
          exact ⟨(hne rfl).symm, hn⟩
        | other t => trivial
  · intro h
    have hunique : ∀ {atoms'}, atoms? t = .ok atoms' → atoms' = atoms := by
      intro atoms' hatoms'
      rw [hatoms] at hatoms'
      exact (Except.ok.inj hatoms').symm
    by_cases hn : n ∈ used
    · refine Or.inl ⟨?_, ?_, ?_⟩
      · intro atoms' hatoms'
        rw [hunique hatoms']
        exact hmem
      · intro atoms' inner hatoms' ha
        rw [hunique hatoms'] at ha
        exact (sparse_iff_absent hn).mp (h _ ha)
      · intro atoms' m v hatoms' ha hm hv
        rw [hunique hatoms'] at ha
        exact (sparse_iff_absent (List.mem_cons_of_mem m hn)).mp ((h _ ha).2 v hm hv)
    · refine Or.inr ⟨hn, .apart ?_ ?_ ?_⟩
      · intro atoms' hatoms'
        rw [hunique hatoms']
        exact hmem
      · intro atoms' inner hatoms' ha
        rw [hunique hatoms'] at ha
        exact Sparse.once (h _ ha)
      · intro atoms' m v hatoms' ha hm hv
        rw [hunique hatoms'] at ha
        exact Sparse.once ((h _ ha).2 v hm hv)

/-- **At an occurrence** of a name that is not in use yet, the text is sparse if the atoms
around it are clear once the name is in use. -/
theorem sparse_iff_of_mem {pre post : List Atom} (hatoms : atoms? t = .ok (pre ++ .name n :: post))
    (hn : n ∉ used) :
    Sparse d n used used' t ↔ ∀ a ∈ pre ++ post, a.Clear d n (n :: used) used' := by
  have hused : n ∈ n :: used := List.mem_cons_self
  have hoccurs : .name n ∈ pre ++ .name n :: post := List.mem_append_right pre List.mem_cons_self
  constructor
  · intro h a ha
    obtain ⟨_, honce⟩ := h.resolve_left fun ⟨plain, _, _⟩ => plain hatoms hoccurs
    cases honce with
    | @here _ _ pre' post' hhere plain groups values =>
      -- the atoms around the occurrence are the same, whichever way they are cut
      have hcut : pre ++ .name n :: post = pre' ++ .name n :: post' := by
        rw [hatoms] at hhere
        exact Except.ok.inj hhere
      have hperm : (pre ++ post).Perm (pre' ++ post') := by
        refine List.Perm.cons_inv (a := .name n) ?_
        refine List.perm_middle.symm.trans ?_
        rw [hcut]
        exact List.perm_middle
      have ha' := hperm.mem_iff.mp ha
      cases a with
      | group inner => exact (sparse_iff_absent hused).mpr (groups ha')
      | name m =>
        refine ⟨?_, fun v hm hv => (sparse_iff_absent (List.mem_cons_of_mem m hused)).mpr
          (values ha' hm hv)⟩
        rintro rfl
        exact plain ha'
      | other t => trivial
    | apart plain _ _ => exact absurd hoccurs (plain hatoms)
  · intro h
    refine Or.inr ⟨hn, .here hatoms (not_mem_of_clear h) ?_ ?_⟩
    · intro inner ha
      exact (sparse_iff_absent hused).mp (h _ ha)
    · intro m v ha hm hv
      exact (sparse_iff_absent (List.mem_cons_of_mem m hused)).mp ((h _ ha).2 v hm hv)

end Sparse

/-! ## Names that stand for text with triggers -/

section Splicing

variable {d : Defines} {n w : Text}

/-- The value of a name other than the one that is bound. -/
theorem Unbound.get?_insert (h : Unbound d n) {value m v : Text} (hm : m ≠ n)
    (hv : (d.insert n value).get? m = some v) : '&' ∉ v := by
  rw [d.get?_insert_of_ne value hm] at hv
  exact h.plain hv

/-- With a numeral there is nothing to splice. -/
theorem splice?_numeral (h : Unbound d n) (hw : Numeral w) (used : List Text) (atoms : List Atom) :
    Atom.splice? (d.insert n w) used atoms = none := by
  refine splice?_eq_none fun a _ => scripted?_eq_none fun {m v} _ _ hv => ?_
  by_cases hm : m = n
  · subst hm
    rw [Defines.get?_insert_self] at hv
    cases hv
    exact hw.not_mem (by decide)
  · exact h.get?_insert hm hv

/-- With a macro there is nothing to splice where its name does not occur or is used. -/
theorem splice?_macro_eq_none (h : Unbound d n) {used : List Text} {atoms : List Atom}
    (hn : .name n ∈ atoms → n ∈ used) :
    Atom.splice? (d.insert n (macroText w)) used atoms = none := by
  refine splice?_eq_none fun a ha => scripted?_eq_none fun {m v} heq hm hv => ?_
  have hne : m ≠ n := by
    rintro rfl
    rw [heq] at ha
    exact hm (hn ha)
  exact h.get?_insert hne hv

/-- The macro is put in the place of the first occurrence. -/
theorem splice?_macroText (h : Unbound d n) {used : List Text} {pre : List Atom} (post : List Atom)
    (hn : n ∉ used) (hpre : .name n ∉ pre) :
    Atom.splice? (d.insert n (macroText w)) used (pre ++ .name n :: post) =
      some (n, pre.flatMap Atom.text ++ (macroText w ++ post.flatMap Atom.text)) := by
  induction pre with
  | nil =>
    have hscripted : Atom.scripted? (d.insert n (macroText w)) used (.name n) =
        some (n, macroText w) := by
      rw [scripted?_of_not_mem hn, Defines.get?_insert_self]
      rfl
    show Atom.splice? _ used (.name n :: post) = _
    unfold Atom.splice?
    rw [hscripted]
    rfl
  | cons a pre ih =>
    have hne : a ≠ .name n := fun heq => hpre (heq ▸ List.mem_cons_self)
    have hscripted : Atom.scripted? (d.insert n (macroText w)) used a = none := by
      refine scripted?_eq_none fun {m v} heq _ hv => ?_
      have hm : m ≠ n := by
        rintro rfl
        exact hne heq
      exact h.get?_insert hm hv
    rw [List.cons_append]
    unfold Atom.splice?
    rw [hscripted, ih fun hmem => hpre (List.mem_cons_of_mem a hmem), List.flatMap_cons,
      List.append_assoc]
    rfl

end Splicing

/-! ## The round of a macro -/

section Round

variable {d : Defines} {n w : Text}

/-- The names in use are the same, up to the one that is looked at. -/
def SameBut (n : Text) (used used' : List Text) : Prop := ∀ m, m ≠ n → (m ∈ used ↔ m ∈ used')

theorem SameBut.cons {used used' : List Text} (h : SameBut n used used') (m : Text) :
    SameBut n (m :: used) (m :: used') := by
  intro k hk
  rw [List.mem_cons, List.mem_cons, h k hk]

theorem SameBut.add {used used' : List Text} (h : SameBut n used used') :
    SameBut n (n :: used) used' := by
  intro k hk
  rw [List.mem_cons, h k hk]
  exact ⟨fun hm => hm.resolve_left hk, Or.inr⟩

variable {ρ : Type} [Roller ρ] {depth : Nat} {used : List Text}

/-- The round in which the macro takes the place of its name. -/
theorem run_build_macroText (hd : Unbound d n) (hw : Numeral w) {again : Reentry ρ}
    (hagain : ∀ s : Session ρ, s.depth < s.config.maxDepth →
      again.evaluate "1".toList s = .ok one (recordOne s))
    {t : Text} {pre post : List Atom} (hatoms : atoms? t = .ok (pre ++ .name n :: post))
    (ht : '&' ∉ t)
    (path j : Nat) {s : Session ρ} (hdepth : s.depth < s.config.maxDepth)
    (hpath : depth ≤ s.config.maxDepth) (hdefines : s.defines = d.insert n (macroText w)) :
    (build again (path + 1) depth (n :: used)
      (pre.flatMap Atom.text ++ (macroText w ++ post.flatMap Atom.text))).run j s =
      (assemble (build again path) depth (n :: used) (pre ++ .other w :: post)).run j
        (recordOne s) := by
  have hamp : ∀ part : List Atom, (∀ a ∈ part, a ∈ pre ++ .name n :: post) →
      '&' ∉ part.flatMap Atom.text := by
    intro part hpart hmem
    obtain ⟨a, ha, hc⟩ := List.mem_flatMap.mp hmem
    exact ht (mem_of_mem_text hatoms (hpart a ha) hc)
  have hpre := hamp pre fun a ha => List.mem_append_left _ ha
  have hpost := hamp post fun a ha => List.mem_append_right _ (List.mem_cons_of_mem _ ha)
  have hround := run_prepare_of_expand again j (expand_macroText hw hpre hpost (hagain s hdepth))
  rw [atoms?_replace hatoms hw.uniform_word hw.not_isName] at hround
  rw [run_build_of_prepare again j hpath hround]
  unfold proceed
  have hsame : (recordOne s).defines = d.insert n (macroText w) := hdefines
  rw [hsame, splice?_macro_eq_none hd fun _ => List.mem_cons_self]

end Round

end DiceNotation
