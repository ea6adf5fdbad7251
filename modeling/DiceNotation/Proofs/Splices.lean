import DiceNotation.Proofs.Atoms
import DiceNotation.Proofs.Counting
import DiceNotation.Session.Pipeline

/-!
# Texts whose groups become numbers

In a session without defines, a text without ampersands is taken apart at its parentheses only.
If the inside of every group comes out as a number, the groups are replaced by these numbers
from the inside out, and what is left is one flat text.

`Spliced` relates the two texts.  It speaks of whole texts and not of lists of parts, so that
pieces of text can be put one after the other (`Spliced.append`); the parts and the tree come
out of it afterwards.

* `Spliced`, `Spliced.append`, `Spliced.mono`.
* `Spliced.closed`, `Spliced.dropEmptyGroups_eq`: such a text can stand in a group, and has no
  empty one.
* `Spliced.exists_build`: its tree, and what the tree is flattened to.
* `Spliced.evaluate`: the roll of a text that comes out as a number.
-/

namespace DiceNotation

open Resolution

/-- Whether a character is neither a parenthesis nor an ampersand. -/
def isSmooth (c : Char) : Bool := Group.isPlain c && c != '&'

theorem isSmooth_iff {c : Char} : isSmooth c = true ↔ Group.isPlain c = true ∧ c ≠ '&' := by
  unfold isSmooth
  rw [Bool.and_eq_true, bne_iff_ne]

/-- A text, and what is left of it when the groups are replaced by their numbers, where they are
not nested deeper than a bound. -/
inductive Spliced : Nat → Text → Text → Prop
  | plain {depth : Nat} {t : Text} (ht : ∀ c ∈ t, isSmooth c = true) : Spliced depth t t
  | group {depth : Nat} {p inner u x t t' : Text} {n : Int} (hp : ∀ c ∈ p, isSmooth c = true)
    (hinner : Spliced depth inner u) (hne : inner ≠ []) (hx : NumberRun.foldNumbers u = .ok x)
    (hn : Spells x n) (ht : Spliced (depth + 1) t t') :
    Spliced (depth + 1) (p ++ '(' :: (inner ++ ')' :: t)) (p ++ (Whole.render n ++ t'))

namespace Spliced

variable {depth : Nat} {t u : Text}

/-- One text after another. -/
theorem append {a a' b b' : Text} (ha : Spliced depth a a') (hb : Spliced depth b b') :
    Spliced depth (a ++ b) (a' ++ b') := by
  induction ha with
  | plain ha =>
    cases hb with
    | plain hb =>
      refine .plain fun c hc => ?_
      rcases List.mem_append.mp hc with hc | hc
      · exact ha c hc
      · exact hb c hc
    | group hp hinner hne hx hn ht =>
      rw [← List.append_assoc, ← List.append_assoc]
      refine .group (fun c hc => ?_) hinner hne hx hn ht
      rcases List.mem_append.mp hc with hc | hc
      · exact ha c hc
      · exact hp c hc
  | group hp hinner hne hx hn _ _ ih =>
    simp only [List.append_assoc, List.cons_append]
    exact .group hp hinner hne hx hn (ih hb)

/-- The bound can be higher. -/
theorem mono (h : Spliced depth t u) {depth' : Nat} (hdepth : depth ≤ depth') :
    Spliced depth' t u := by
  induction h generalizing depth' with
  | plain ht => exact .plain ht
  | group hp _ hne hx hn _ ihinner iht =>
    obtain ⟨depth', rfl⟩ := Nat.exists_eq_add_one.mpr (Nat.lt_of_lt_of_le (Nat.succ_pos _) hdepth)
    exact .group hp (ihinner (Nat.le_of_succ_le_succ hdepth)) hne hx hn (iht hdepth)

theorem isPlain_of_smooth {p : Text} (hp : ∀ c ∈ p, isSmooth c = true) :
    ∀ c ∈ p, Group.isPlain c = true := fun c hc => (isSmooth_iff.mp (hp c hc)).1

theorem not_mem_of_smooth {p : Text} (hp : ∀ c ∈ p, isSmooth c = true) : '&' ∉ p :=
  fun hc => (isSmooth_iff.mp (hp '&' hc)).2 rfl

theorem not_mem (h : Spliced depth t u) : '&' ∉ t := by
  induction h with
  | plain ht => exact not_mem_of_smooth ht
  | group hp _ _ _ _ _ ihinner iht =>
    have hopen : '&' ≠ '(' := by decide
    have hclose : '&' ≠ ')' := by decide
    simp only [List.mem_append, List.mem_cons, not_or]
    exact ⟨not_mem_of_smooth hp, hopen, ihinner, hclose, iht⟩

/-! ## Its parentheses -/

theorem cutClose_plain {p : Text} (hp : ∀ c ∈ p, Group.isPlain c = true) (level : Nat)
    (rest : Text) :
    Group.cutClose level (p ++ rest) =
      (Group.cutClose level rest).map fun cut => (p ++ cut.1, cut.2) := by
  induction p with
  | nil => simp
  | cons c p ih =>
    have hc : c ≠ '(' ∧ c ≠ ')' := by
      have hplain := hp c List.mem_cons_self
      unfold Group.isPlain at hplain
      rwa [Bool.and_eq_true, bne_iff_ne, bne_iff_ne] at hplain
    rw [List.cons_append, Group.cutClose, ih fun d hd => hp d (List.mem_cons_of_mem c hd),
      Option.map_map]
    · rfl
    · exact hc.1
    · exact hc.2

/-- Such a text leaves the groups around it open. -/
theorem cutClose_append (h : Spliced depth t u) {level : Nat} (hlevel : 0 < level) (rest : Text) :
    Group.cutClose level (t ++ rest) =
      (Group.cutClose level rest).map fun cut => (t ++ cut.1, cut.2) := by
  induction h generalizing level rest with
  | plain ht => exact cutClose_plain (isPlain_of_smooth ht) level rest
  | @group depth p inner u x t t' n hp _ _ _ _ _ ihinner iht =>
    have hopen : ∀ r, Group.cutClose level ('(' :: r) =
        (Group.cutClose (level + 1) r).map fun cut => ('(' :: cut.1, cut.2) := fun r => rfl
    have hclose : ∀ r, Group.cutClose (level + 1) (')' :: r) =
        (Group.cutClose level r).map fun cut => (')' :: cut.1, cut.2) := by
      intro r
      rw [Group.cutClose, if_neg (by omega), Nat.add_sub_cancel]
    simp only [List.append_assoc, List.cons_append]
    rw [cutClose_plain (isPlain_of_smooth hp), hopen, ihinner (Nat.succ_pos level), hclose,
      iht hlevel]
    rw [Option.map_map, Option.map_map, Option.map_map, Option.map_map]
    rfl

/-- Such a text can be the inside of a group. -/
theorem closed (h : Spliced depth t u) : Group.Closed t := by
  intro rest
  rw [h.cutClose_append Nat.one_pos, Group.cutClose, if_pos (Nat.le_refl 1), Option.map_some,
    List.append_nil]

/-- Such a text does not end with an open group. -/
theorem getLast?_ne (h : Spliced depth t u) : ∀ c ∈ t.getLast?, c ≠ '(' := by
  induction h with
  | plain ht =>
    rintro c hc rfl
    exact absurd (isPlain_of_smooth ht '(' (List.mem_of_getLast? hc)) (by decide)
  | @group depth p inner u x t t' n _ _ _ _ _ _ _ iht =>
    intro c hc
    have hlast : (p ++ '(' :: (inner ++ ')' :: t)).getLast? = some (t.getLast?.getD ')') := by
      rw [← List.cons_append, ← List.append_assoc, List.getLast?_append, List.getLast?_cons]
      rfl
    rw [hlast] at hc
    cases hc
    cases ht : t.getLast? with
    | none => decide
    | some d => exact iht d ht

theorem keepGroups_cons {c : Char} {kept rest : Text} (h : c = ')' → ∀ d ∈ kept.head?, d ≠ '(') :
    Group.keepGroups kept (c :: rest) = Group.keepGroups (c :: kept) rest := by
  rw [Group.keepGroups]
  rintro kept rfl rfl
  exact absurd rfl (h rfl '(' rfl)

theorem keepGroups_plain {p : Text} (hp : ∀ c ∈ p, Group.isPlain c = true) (kept rest : Text) :
    Group.keepGroups kept (p ++ rest) = Group.keepGroups (p.reverse ++ kept) rest := by
  induction p generalizing kept with
  | nil => rfl
  | cons c p ih =>
    have hc : c ≠ ')' := by
      rintro rfl
      exact absurd (hp ')' List.mem_cons_self) (by decide)
    rw [List.cons_append, keepGroups_cons fun heq => absurd heq hc,
      ih fun d hd => hp d (List.mem_cons_of_mem c hd), List.reverse_cons, List.append_assoc]
    rfl

/-- Nothing is dropped of such a text. -/
theorem keepGroups_append (h : Spliced depth t u) (kept rest : Text) :
    Group.keepGroups kept (t ++ rest) = Group.keepGroups (t.reverse ++ kept) rest := by
  induction h generalizing kept rest with
  | plain ht => exact keepGroups_plain (isPlain_of_smooth ht) kept rest
  | @group depth p inner u x t t' n hp hinner hne _ _ _ ihinner iht =>
    have hends : ∀ d ∈ (inner.reverse ++ '(' :: (p.reverse ++ kept)).head?, d ≠ '(' := by
      intro d hd
      rw [List.head?_append_of_ne_nil _ fun hnil => hne (List.reverse_eq_nil_iff.mp hnil),
        List.head?_reverse] at hd
      exact hinner.getLast?_ne d hd
    simp only [List.append_assoc, List.cons_append]
    rw [keepGroups_plain (isPlain_of_smooth hp), keepGroups_cons fun heq => absurd heq (by decide),
      ihinner, keepGroups_cons fun _ => hends, iht]
    simp [List.reverse_append]

theorem dropEmptyGroups_eq (h : Spliced depth t u) : Group.dropEmptyGroups t = t := by
  have hkept := h.keepGroups_append [] []
  rw [List.append_nil, List.append_nil] at hkept
  unfold Group.dropEmptyGroups
  rw [hkept, Group.keepGroups, List.reverse_reverse]

/-! ## Its tree -/

variable {ρ : Type} [Roller ρ]

/-- A tree is flattened to a text, whatever the session. -/
def Flat (ρ : Type) [Roller ρ] (pieces : Pieces) (u : Text) : Prop :=
  ∀ s : Session ρ, ∃ s', flatten pieces s = .ok u s'

theorem Flat.text {pieces : Pieces} (h : Flat ρ pieces u) (t : Text) :
    Flat ρ (.text t pieces) (t ++ u) := by
  intro s
  obtain ⟨s', hs⟩ := h s
  refine ⟨s', ?_⟩
  show (flatten pieces >>= fun rest => pure (t ++ rest) : Turn ρ Text) s = _
  rw [Turn.bind_of_ok _ hs]
  rfl

/-- A group is flattened to the number that its inside spells. -/
theorem Flat.group {inner pieces : Pieces} {x u' : Text} {n : Int} (hinner : Flat ρ inner u)
    (hx : NumberRun.foldNumbers u = .ok x) (hn : Spells x n) (h : Flat ρ pieces u') :
    Flat ρ (.group inner pieces) (Whole.render n ++ u') := by
  intro s
  obtain ⟨s₁, hs₁⟩ := hinner s
  have hfold : (fold u : Turn ρ Text) s₁ = .ok x s₁ := by
    unfold fold
    rw [hx]
    rfl
  obtain ⟨s₂, hs₂⟩ := h (s₁.count x n)
  refine ⟨s₂, ?_⟩
  show (flatten inner >>= fun code => fold code >>= fun code => Turn.rollCode code >>= fun roll =>
    flatten pieces >>= fun rest => pure (Whole.render roll.value ++ rest) : Turn ρ Text) s = _
  rw [Turn.bind_of_ok _ hs₁, Turn.bind_of_ok _ hfold, Turn.bind_of_ok _ (hn.rollCode s₁),
    Turn.bind_of_ok _ hs₂, value_counted]
  rfl

/-- What a step of taking texts apart makes in a session without defines: a tree that is
flattened to the text, and nothing else. -/
def Makes (ρ : Type) [Roller ρ] (c : Config) (step : Expanding ρ Pieces) (u : Text) : Prop :=
  ∀ (n : Nat) (s : Session ρ), s.config = c → s.defines = .empty →
    ∃ pieces, step.run n s = .ok (pieces, n) s ∧ Flat ρ pieces u

variable {c : Config} {down : Nat → List Text → Text → Expanding ρ Pieces} {depth : Nat}
  {used : List Text} {atoms : List Atom}

/-- Text before atoms, where no name stands for anything. -/
theorem makes_assemble_plain (h : Makes ρ c (assemble down depth used atoms) u) {a : Atom}
    (ha : ∀ inner, a ≠ .group inner) :
    Makes ρ c (assemble down depth used (a :: atoms)) (a.text ++ u) := by
  intro n s hc hs
  obtain ⟨pieces, hrun, hflat⟩ := h n s hc hs
  refine ⟨.text a.text pieces, ?_, hflat.text a.text⟩
  cases a with
  | group inner => exact absurd rfl (ha inner)
  | other t =>
    show (assemble down depth used atoms >>= fun rest => pure (.text t rest) :
      Expanding ρ Pieces).run n s = _
    rw [Expanding.run_bind_of_ok _ hrun]
    rfl
  | name m =>
    unfold assemble
    rw [Expanding.run_get_bind, hs, Defines.get?_empty, ite_self]
    show (assemble down depth used atoms >>= fun rest => pure (.text m rest) :
      Expanding ρ Pieces).run n s = _
    rw [Expanding.run_bind_of_ok _ hrun]
    rfl

/-- A plain stretch before atoms. -/
theorem makes_assemble_runs (h : Makes ρ c (assemble down depth used atoms) u)
    (rs : List Text.Run) :
    Makes ρ c (assemble down depth used (rs.map Atom.ofRun ++ atoms))
      (rs.flatMap Text.Run.text ++ u) := by
  induction rs with
  | nil => exact h
  | cons r rs ih =>
    have hcons := makes_assemble_plain ih fun inner => Atom.ofRun_ne_group r inner
    rw [Atom.text_ofRun] at hcons
    rw [List.map_cons, List.cons_append, List.flatMap_cons, List.append_assoc]
    exact hcons

/-- A group before atoms. -/
theorem makes_assemble_group {inner x u' : Text} {n : Int}
    (hinner : Makes ρ c (down (depth + 1) used inner) u) (hx : NumberRun.foldNumbers u = .ok x)
    (hn : Spells x n) (h : Makes ρ c (assemble down depth used atoms) u') :
    Makes ρ c (assemble down depth used (.group inner :: atoms)) (Whole.render n ++ u') := by
  intro k s hc hs
  obtain ⟨tree, htree, hflat⟩ := hinner k s hc hs
  obtain ⟨pieces, hrun, hflat'⟩ := h k s hc hs
  refine ⟨.group tree pieces, ?_, hflat.group hx hn hflat'⟩
  unfold assemble
  rw [Expanding.run_bind_of_ok _ htree, Expanding.run_bind_of_ok _ hrun]
  rfl

theorem ofParts_plainPart_append (p : Text) (ps : List Group.Part) :
    Atom.ofParts (Group.plainPart p ++ ps) = (Text.runs p).map Atom.ofRun ++ Atom.ofParts ps := by
  cases p with
  | nil => rfl
  | cons c p => rfl

/-- Where no name stands for anything, nothing is spliced. -/
theorem splice?_empty (used : List Text) (atoms : List Atom) :
    Atom.splice? .empty used atoms = none := by
  refine splice?_eq_none fun a _ => scripted?_eq_none fun {m v} _ _ hv => ?_
  rw [Defines.get?_empty] at hv
  exact nomatch hv

variable {again : Reentry ρ}

/-- Taking such a text apart, when its parts are known. -/
theorem makes_build {d : Nat} {ps : List Group.Part} {path : Nat} (h : Spliced d t u)
    (hparts : ∀ position, Group.partsFrom? position t = .ok ps) (hdepth : depth ≤ c.maxDepth)
    (hassemble : Makes ρ c (assemble (build again path) depth used (Atom.ofParts ps)) u) :
    Makes ρ c (build again (path + 1) depth used t) u := by
  intro n s hc hs
  obtain ⟨pieces, hrun, hflat⟩ := hassemble n s hc hs
  refine ⟨pieces, ?_, hflat⟩
  have hatoms : atoms? t = .ok (Atom.ofParts ps) := by
    unfold atoms?
    rw [h.dropEmptyGroups_eq, Group.parts?, hparts]
    rfl
  have hround := run_prepare_of_plain again n s h.not_mem
  rw [hatoms] at hround
  rw [run_build_of_prepare again n (by rw [hc]; exact hdepth) hround, hs]
  unfold proceed
  rw [splice?_empty]
  exact hrun

/-- **The parts of such a text make a tree that is flattened to what is left of it.** -/
theorem exists_parts (c : Config) (again : Reentry ρ) {d : Nat} (h : Spliced d t u) :
    ∃ ps, (∀ position, Group.partsFrom? position t = .ok ps) ∧
      ∀ (path depth : Nat) (used : List Text), d ≤ path → depth + d ≤ c.maxDepth →
        Makes ρ c (assemble (build again path) depth used (Atom.ofParts ps)) u := by
  induction h with
  | @plain d t ht =>
    refine ⟨Group.plainPart t, Group.partsFrom?_of_plain (isPlain_of_smooth ht), ?_⟩
    intro path depth used _ _
    have hnil : Makes ρ c (assemble (build again path) depth used []) [] :=
      fun n s _ _ => ⟨.nil, rfl, fun s => ⟨s, rfl⟩⟩
    have hruns := makes_assemble_runs hnil (Text.runs t)
    have hatoms := ofParts_plainPart_append t []
    rw [List.append_nil] at hatoms
    rw [Text.flatMap_text_runs, List.append_nil t] at hruns
    rw [hatoms]
    exact hruns
  | @group d p inner u x t t' n hp hinner hne hx hn ht ihinner iht =>
    obtain ⟨qs, hqs, hmake⟩ := ihinner
    obtain ⟨ps, hps, hmakes⟩ := iht
    have hparts := Group.partsFrom?_group (isPlain_of_smooth hp) hinner.closed hps
    refine ⟨Group.plainPart p ++ .group inner :: ps, hparts, ?_⟩
    intro path depth used hpath hdepth
    obtain ⟨path, rfl⟩ := Nat.exists_eq_add_one.mpr (Nat.lt_of_lt_of_le (Nat.succ_pos d) hpath)
    have hbuild : Makes ρ c (build again (path + 1) (depth + 1) used inner) u :=
      makes_build hinner hqs (by omega) (hmake path (depth + 1) used (by omega) (by omega))
    have hruns := makes_assemble_runs
      (makes_assemble_group hbuild hx hn (hmakes (path + 1) depth used hpath hdepth)) (Text.runs p)
    rw [Text.flatMap_text_runs] at hruns
    rw [ofParts_plainPart_append]
    exact hruns

/-! ## Its roll -/

/-- **A text that comes out as a number is rolled to it.** -/
theorem evaluateWith_eq (again : Reentry ρ) {d : Nat} {x : Text} {n : Int} (h : Spliced d t u)
    (hx : NumberRun.foldNumbers u = .ok x) (hn : Spells x n) {s : Session ρ}
    (hdefines : s.defines = .empty) (hlimit : d ≤ s.config.maxDepth)
    (hdepth : s.depth < s.config.maxDepth) :
    ∃ s', Turn.evaluateWith again t s = .ok (counted x n) s' := by
  obtain ⟨ps, hps, hmake⟩ := exists_parts s.config again h
  have hbuild : Makes ρ s.config (build again (pathBound s.config) 0 [] t) u := by
    unfold pathBound
    exact makes_build h hps (Nat.zero_le _) (hmake _ 0 [] (by omega) (by omega))
  obtain ⟨pieces, hrun, hflat⟩ := hbuild 0 (Turn.enter s) rfl hdefines
  have htree : tree again t (Turn.enter s) = .ok pieces (Turn.enter s) := by
    rw [run_tree]
    exact Turn.bind_of_ok (fun p => pure p.1) hrun
  obtain ⟨s', hflatten⟩ := hflat (Turn.enter s)
  have hfold : (fold u : Turn ρ Text) s' = .ok x s' := by
    unfold fold
    rw [hx]
    rfl
  have hresolve : Resolution.resolve again t (Turn.enter s) = .ok x s' := by
    unfold Resolution.resolve
    rw [Turn.bind_of_ok _ htree, Turn.bind_of_ok _ hflatten, hfold]
  have hinner : (Resolution.resolve again t >>= fun code => Turn.rollCode code) (Turn.enter s) =
      .ok (counted x n) (s'.count x n) := by
    rw [Turn.bind_of_ok _ hresolve]
    exact hn.rollCode s'
  refine ⟨Turn.leave (s'.count x n), ?_⟩
  unfold Turn.evaluateWith
  rw [Turn.get_bind, if_neg (Nat.not_le.mpr hdepth)]
  unfold Turn.deeper
  rw [hinner]

end Spliced

end DiceNotation
