import DiceNotation.Proofs.Parts
import DiceNotation.Resolution.Atom
import DiceNotation.Trigger.Fire

/-!
# Where characters come from

Texts are trimmed, cut at words, taken from the end of a stretch and put together in another order,
but very little of the program writes characters of its own.  This module follows the characters:
what is read from a text has no characters that the text does not have.

Of all characters the ampersand matters most, because a text without one starts no trigger.  The
program writes numbers, and numbers hold none.  So texts that are read from texts without
ampersands, with numbers put into them, are texts without ampersands.

A define that stands for text with an ampersand is a *macro*.  Inserting a text without one adds no
macro to a table.

* `trim_subset`, `subset_of_mem_pieces`, `cutAtWord_subset` and others: text that is cut.
* `Trigger.texts`, `Trigger.subset_of_parse`, `Script.no_ampersand_of_scan`.
* `Surroundings.takeWord?_subset`, `Group.wrapped?_subset`, `Atom.subset_of_mem_ofParts`.
* `no_ampersand_render`, `no_ampersand_branch`: what the program writes.
* `Defines.macros`, `macros_insert_subset`, `macros_assign_subset`.
-/

namespace DiceNotation

namespace Text

variable {p : Char → Bool} {t u a b w : Text}

theorem trimStart_subset (t : Text) : trimStart t ⊆ t := (List.dropWhile_suffix _).subset

theorem trimEnd_subset (t : Text) : trimEnd t ⊆ t := by
  intro c hc
  exact List.mem_reverse.mp (trimStart_subset _ (List.mem_reverse.mp hc))

theorem trim_subset (t : Text) : trim t ⊆ t :=
  List.Subset.trans (trimEnd_subset _) (trimStart_subset t)

/-- What is before and after a cut was there. -/
theorem cutFirst_subset (h : cutFirst p t = some (a, b)) : a ⊆ t ∧ b ⊆ t := by
  induction t generalizing a b with
  | nil => exact nomatch h
  | cons c t ih =>
    unfold cutFirst at h
    split at h
    · cases h
      exact ⟨List.nil_subset _, List.subset_cons_self _ _⟩
    · obtain ⟨⟨x, y⟩, hcut, heq⟩ := Option.map_eq_some_iff.mp h
      cases heq
      obtain ⟨hx, hy⟩ := ih hcut
      exact ⟨List.cons_subset_cons c hx, List.subset_cons_of_subset c hy⟩

theorem cutLast_subset (h : cutLast p t = some (a, b)) : a ⊆ t ∧ b ⊆ t := by
  obtain ⟨⟨x, y⟩, hcut, heq⟩ := Option.map_eq_some_iff.mp h
  cases heq
  obtain ⟨hx, hy⟩ := cutFirst_subset hcut
  exact ⟨fun c hc => List.mem_reverse.mp (hy (List.mem_reverse.mp hc)),
    fun c hc => List.mem_reverse.mp (hx (List.mem_reverse.mp hc))⟩

/-- The characters of a piece are characters of the text, and do not divide it. -/
theorem mem_of_mem_pieces (hu : u ∈ pieces p t) {c : Char} (hc : c ∈ u) :
    c ∈ t ∧ p c = false := by
  induction t generalizing u with
  | nil =>
    rw [List.mem_singleton.mp hu] at hc
    exact absurd hc List.not_mem_nil
  | cons d t ih =>
    have hlater : ∀ {u}, u ∈ pieces p t → c ∈ u → c ∈ d :: t ∧ p c = false := by
      intro u hu hc
      obtain ⟨ht, hp⟩ := ih hu hc
      exact ⟨List.mem_cons_of_mem d ht, hp⟩
    unfold pieces at hu
    split at hu
    · rcases List.mem_cons.mp hu with rfl | hu
      · exact absurd hc List.not_mem_nil
      · exact hlater hu hc
    · next hd =>
      have hd : p d = false := Bool.not_eq_true _ ▸ hd
      cases hps : pieces p t with
      | nil =>
        rw [hps] at hu
        rw [List.mem_singleton.mp hu] at hc
        rw [List.mem_singleton.mp hc]
        exact ⟨List.mem_cons_self, hd⟩
      | cons v vs =>
        rw [hps] at hu hlater
        rcases List.mem_cons.mp hu with rfl | hu
        · rcases List.mem_cons.mp hc with rfl | hc
          · exact ⟨List.mem_cons_self, hd⟩
          · exact hlater List.mem_cons_self hc
        · exact hlater (List.mem_cons_of_mem v hu) hc

theorem subset_of_mem_pieces (hu : u ∈ pieces p t) : u ⊆ t :=
  fun _ hc => (mem_of_mem_pieces hu hc).1

theorem subset_of_mem_words (hu : u ∈ words t) : u ⊆ t :=
  subset_of_mem_pieces (List.mem_filter.mp hu).1

/-- The text around a word was there. -/
theorem cutAtWord_subset (h : cutAtWord w t = some (a, b)) : a ⊆ t ∧ b ⊆ t := by
  obtain ⟨⟨x, y⟩, hcut, heq⟩ := Option.map_eq_some_iff.mp h
  cases heq
  have ht := flatMap_text_runs t
  rw [eq_append_of_cutRuns hcut, List.flatMap_append, List.flatMap_cons] at ht
  rw [← ht]
  exact ⟨List.subset_append_left _ _,
    List.Subset.trans (List.subset_append_right _ _) (List.subset_append_right _ _)⟩

theorem cutFinalWord_subset (h : cutFinalWord w t = some a) : a ⊆ t := by
  unfold cutFinalWord at h
  split at h
  · next v rs hruns =>
    split at h
    · cases h
      have ht := flatMap_text_runs t
      rw [← List.reverse_reverse (runs t), hruns, List.reverse_cons, List.flatMap_append] at ht
      rw [← ht]
      exact List.subset_append_left _ _
    · exact nomatch h
  · exact nomatch h

end Text

/-- The inside of a text that is one group is part of the text. -/
theorem Group.wrapped?_subset {t inner : Text} (h : wrapped? t = some inner) : inner ⊆ t := by
  unfold wrapped? at h
  split at h
  · split at h
    · next hcut =>
      cases h
      rw [eq_append_of_cutClose hcut]
      exact List.Subset.trans (List.subset_append_left _ _) (List.subset_cons_self _ _)
    · exact nomatch h
  · exact nomatch h

/-- Nothing is added when empty groups are dropped. -/
theorem Group.mem_of_mem_keepGroups {kept t : Text} {c : Char} (h : c ∈ keepGroups kept t) :
    c ∈ kept ∨ c ∈ t := by
  fun_induction keepGroups kept t with
  | case1 kept => exact Or.inl (List.mem_reverse.mp h)
  | case2 t kept ih =>
    rcases ih h with hkept | ht
    · exact Or.inl (List.mem_cons_of_mem _ hkept)
    · exact Or.inr (List.mem_cons_of_mem _ ht)
  | case3 t d kept hpair ih =>
    rcases ih h with hkept | ht
    · rcases List.mem_cons.mp hkept with rfl | hkept
      · exact Or.inr List.mem_cons_self
      · exact Or.inl hkept
    · exact Or.inr (List.mem_cons_of_mem d ht)

theorem Group.dropEmptyGroups_subset (t : Text) : dropEmptyGroups t ⊆ t := by
  intro c hc
  rcases mem_of_mem_keepGroups hc with hc | hc
  · exact absurd hc List.not_mem_nil
  · exact hc

/-- The characters of an atom are characters of the text. -/
theorem Atom.subset_of_mem_ofParts {t : Text} {parts : List Group.Part} {a : Atom}
    (h : Group.parts? t = .ok parts) (ha : a ∈ ofParts parts) : a.text ⊆ t := by
  intro c hc
  have htext : c ∈ (ofParts parts).flatMap text := List.mem_flatMap.mpr ⟨a, ha, hc⟩
  rwa [flatMap_text_ofParts, (Group.orderly_of_partsFrom? h).2] at htext

/-! ## Words that are taken away -/

theorem lastWord?_subset {t word rest : Text} (h : lastWord? t = some (word, rest)) :
    word ⊆ t ∧ rest ⊆ t := by
  unfold lastWord? at h
  dsimp only at h
  split at h
  · exact nomatch h
  · obtain ⟨rfl, rfl⟩ := Prod.mk.inj (Option.some.inj h)
    have hspan := spanWord_append 0 (Text.trimStart t.reverse)
    have hback : ∀ c, c ∈ Text.trimStart t.reverse → c ∈ t := fun c hc =>
      List.mem_reverse.mp (Text.trimStart_subset _ hc)
    constructor
    · intro c hc
      refine hback c ?_
      rw [← hspan]
      exact List.mem_append_left _ (List.mem_reverse.mp hc)
    · intro c hc
      refine hback c ?_
      rw [← hspan]
      exact List.mem_append_right _ (List.mem_reverse.mp hc)

theorem takeFromFirst?_subset {ts rest : List Text} {word : Text}
    (h : takeFromFirst? ts = some (word, rest)) :
    word ⊆ ts.flatten ∧ rest.flatten ⊆ ts.flatten := by
  induction ts generalizing rest word with
  | nil => exact nomatch h
  | cons t ts ih =>
    unfold takeFromFirst? at h
    rw [List.flatten_cons]
    split at h
    · next hlast =>
      cases h
      obtain ⟨hword, hrest⟩ := lastWord?_subset hlast
      rw [List.flatten_cons]
      exact ⟨List.subset_append_of_subset_left _ hword,
        List.append_subset.mpr ⟨List.subset_append_of_subset_left _ hrest,
          List.subset_append_right _ _⟩⟩
    · obtain ⟨⟨x, y⟩, htaken, heq⟩ := Option.map_eq_some_iff.mp h
      cases heq
      obtain ⟨hword, hrest⟩ := ih htaken
      rw [List.flatten_cons]
      exact ⟨List.subset_append_of_subset_right _ hword,
        List.append_subset.mpr ⟨List.subset_append_left _ _,
          List.subset_append_of_subset_right _ hrest⟩⟩

theorem takeFromLast?_subset {ts rest : List Text} {word : Text}
    (h : takeFromLast? ts = some (word, rest)) :
    word ⊆ ts.flatten ∧ rest.flatten ⊆ ts.flatten := by
  induction ts generalizing rest word with
  | nil => exact nomatch h
  | cons t ts ih =>
    unfold takeFromLast? at h
    rw [List.flatten_cons]
    split at h
    · next htaken =>
      cases h
      obtain ⟨hword, hrest⟩ := ih htaken
      rw [List.flatten_cons]
      exact ⟨List.subset_append_of_subset_right _ hword,
        List.append_subset.mpr ⟨List.subset_append_left _ _,
          List.subset_append_of_subset_right _ hrest⟩⟩
    · obtain ⟨⟨x, y⟩, hlast, heq⟩ := Option.map_eq_some_iff.mp h
      cases heq
      obtain ⟨hword, hrest⟩ := lastWord?_subset hlast
      rw [List.flatten_cons]
      exact ⟨List.subset_append_of_subset_left _ hword,
        List.append_subset.mpr ⟨List.subset_append_of_subset_left _ hrest,
          List.subset_append_right _ _⟩⟩

namespace Surroundings

/-- The stretches, in whatever order, have the characters of the text. -/
theorem mem_text {s : Surroundings} {c : Char} :
    c ∈ s.text ↔ c ∈ s.before.flatten ∨ c ∈ s.after.flatten := by
  unfold text
  simp only [List.mem_append, List.mem_flatten, List.mem_reverse]

/-- **A word that is taken away was there**, and so was what stays. -/
theorem takeWord?_subset {s rest : Surroundings} {word : Text}
    (h : s.takeWord? = some (word, rest)) : word ⊆ s.text ∧ rest.text ⊆ s.text := by
  unfold takeWord? at h
  split at h
  · next htaken =>
    cases h
    obtain ⟨hword, hrest⟩ := takeFromLast?_subset htaken
    refine ⟨fun c hc => mem_text.mpr (Or.inr (hword hc)), fun c hc => mem_text.mpr ?_⟩
    exact (mem_text.mp hc).imp_right fun hc => hrest hc
  · obtain ⟨⟨x, y⟩, htaken, heq⟩ := Option.map_eq_some_iff.mp h
    cases heq
    obtain ⟨hword, hrest⟩ := takeFromFirst?_subset htaken
    refine ⟨fun c hc => mem_text.mpr (Or.inl (hword hc)), fun c hc => mem_text.mpr ?_⟩
    exact (mem_text.mp hc).imp_left fun hc => hrest hc

end Surroundings

/-! ## Triggers -/

namespace Trigger

/-- The texts that a trigger holds. -/
def texts : Trigger → List Text
  | project roll goal => [roll, goal]
  | loop roll times => [roll, times]
  | loopSum roll times => [roll, times]
  | values assignments => [assignments]
  | param keys => keys
  | conditional condition yes no => [condition, yes, no]
  | _ => []

theorem rollBody_subset {name body roll last : Text} (h : rollBody name body = .ok (roll, last)) :
    roll ⊆ body ∧ last ⊆ body := by
  unfold rollBody at h
  split at h
  · next hcut =>
    obtain ⟨hroll, hlast⟩ := Text.cutLast_subset hcut
    split at h
    · exact nomatch h
    · cases h
      exact ⟨List.Subset.trans (Text.trim_subset _) hroll, hlast⟩
  · exact nomatch h

theorem conditionalBody?_subset {body condition yes no : Text}
    (h : conditionalBody? body = some (condition, yes, no)) :
    condition ⊆ body ∧ yes ⊆ body ∧ no ⊆ body := by
  unfold conditionalBody? at h
  obtain ⟨⟨before, afterThen⟩, hthen, h⟩ := Option.bind_eq_some_iff.mp h
  obtain ⟨⟨between, afterElse⟩, helse, h⟩ := Option.bind_eq_some_iff.mp h
  obtain ⟨beforeDone, hdone, h⟩ := Option.bind_eq_some_iff.mp h
  cases h
  obtain ⟨hbefore, hafterThen⟩ := Text.cutAtWord_subset hthen
  obtain ⟨hbetween, hafterElse⟩ := Text.cutAtWord_subset helse
  have hbeforeDone := Text.cutFinalWord_subset hdone
  have hlater : afterElse ⊆ body := List.Subset.trans hafterElse hafterThen
  exact ⟨List.Subset.trans (Text.trim_subset _) hbefore,
    List.Subset.trans (Text.trim_subset _) (List.Subset.trans hbetween hafterThen),
    List.Subset.trans (Text.trim_subset _) (List.Subset.trans hbeforeDone hlater)⟩

/-- A trigger with a roll and a number holds nothing but its body. -/
theorem subset_of_rollBody {name body : Text} {make : Text → Text → Trigger}
    (hmake : ∀ roll last, (make roll last).texts = [roll, last]) {t : Trigger}
    (h : (do let (roll, last) ← rollBody name body
             return make roll last) = .ok t) {u : Text} (hu : u ∈ t.texts) : u ⊆ body := by
  cases hbody : rollBody name body with
  | error e =>
    rw [hbody] at h
    exact nomatch h
  | ok parts =>
    obtain ⟨roll, last⟩ := parts
    rw [hbody] at h
    obtain rfl : make roll last = t := Except.ok.inj h
    obtain ⟨hroll, hlast⟩ := rollBody_subset hbody
    rw [hmake] at hu
    rcases List.mem_cons.mp hu with rfl | hu
    · exact hroll
    · rw [List.mem_singleton.mp hu]
      exact hlast

theorem subset_of_ofNameAndBody {name body : Text} {t : Trigger}
    (h : ofNameAndBody name body = .ok t) {u : Text} (hu : u ∈ t.texts) : u ⊆ body := by
  have hwhole : ∀ make : Int → Trigger, (∀ n, (make n).texts = []) →
      (do return make (← wholeBody name body)) = Except.ok t → u ⊆ body := by
    intro make hmake h
    cases hbody : wholeBody name body with
    | error e =>
      rw [hbody] at h
      exact nomatch h
    | ok n =>
      rw [hbody] at h
      obtain rfl : make n = t := Except.ok.inj h
      rw [hmake] at hu
      exact absurd hu List.not_mem_nil
  unfold ofNameAndBody at h
  split at h
  · cases h
    exact absurd hu List.not_mem_nil
  · exact hwhole shift (fun _ => rfl) h
  · exact hwhole max (fun _ => rfl) h
  · exact subset_of_rollBody (fun _ _ => rfl) h hu
  · cases h
    exact absurd hu List.not_mem_nil
  · cases h
    exact absurd hu List.not_mem_nil
  · exact subset_of_rollBody (fun _ _ => rfl) h hu
  · exact subset_of_rollBody (fun _ _ => rfl) h hu
  · cases h
    rw [List.mem_singleton.mp hu]
    exact List.Subset.refl _
  · cases h
    exact absurd hu List.not_mem_nil
  · cases h
    exact Text.subset_of_mem_words hu
  · split at h
    · next hparts =>
      cases h
      obtain ⟨hcondition, hyes, hno⟩ := conditionalBody?_subset hparts
      rcases List.mem_cons.mp hu with rfl | hu
      · exact hcondition
      · rcases List.mem_cons.mp hu with rfl | hu
        · exact hyes
        · rw [List.mem_singleton.mp hu]
          exact hno
    · exact nomatch h
  · exact nomatch h

/-- **A trigger holds nothing that is not written in it.** -/
theorem subset_of_parse {inside : Text} {t : Trigger} (h : parse inside = .ok t) {u : Text}
    (hu : u ∈ t.texts) : u ⊆ inside := by
  have hbody : u ⊆ (nameAndBody inside).2 := subset_of_ofNameAndBody h hu
  refine List.Subset.trans hbody ?_
  unfold nameAndBody
  split
  · next hcut =>
    exact List.Subset.trans (Text.trim_subset _)
      (List.Subset.trans (Text.cutFirst_subset hcut).2 (Text.trim_subset _))
  · exact List.nil_subset _

/-- A trigger that holds no ampersand. -/
def Plain (t : Trigger) : Prop := ∀ u ∈ t.texts, '&' ∉ u

end Trigger

namespace Script

/-- A script whose triggers and stretches hold no ampersand. -/
structure Plain (s : Script) : Prop where
  lead : '&' ∉ s.lead
  triggers : ∀ step ∈ s.rest, step.1.Plain
  stretches : ∀ step ∈ s.rest, '&' ∉ step.2

theorem plain_of_ofPieces {pieces : List Text} (hpieces : ∀ u ∈ pieces, '&' ∉ u)
    {steps : List (Trigger × Text)} (h : ofPieces pieces = .ok steps) :
    ∀ step ∈ steps, step.1.Plain ∧ '&' ∉ step.2 := by
  induction pieces using ofPieces.induct generalizing steps with
  | case1 inside text pieces ih =>
    unfold ofPieces at h
    cases htrigger : Trigger.parse inside with
    | error e =>
      rw [htrigger] at h
      exact nomatch h
    | ok trigger =>
      cases hrest : ofPieces pieces with
      | error e =>
        rw [htrigger, hrest] at h
        exact nomatch h
      | ok rest =>
        rw [htrigger, hrest] at h
        obtain rfl : (trigger, text) :: rest = steps := Except.ok.inj h
        intro step hstep
        rcases List.mem_cons.mp hstep with rfl | hstep
        · refine ⟨fun u hu hamp => ?_, hpieces text (by simp)⟩
          exact hpieces inside List.mem_cons_self (Trigger.subset_of_parse htrigger hu hamp)
        · exact ih (fun u hu => hpieces u (by simp [hu])) hrest step hstep
  | case2 pieces hshort =>
    have hnil : ofPieces pieces = .ok [] := by
      unfold ofPieces
      split
      · exact absurd rfl (hshort _ _ _)
      · rfl
    rw [hnil] at h
    cases h
    exact fun step hstep => nomatch hstep

/-- **Once a text is scanned no ampersand is left in it.** -/
theorem plain_of_scan {t : Text} {s : Script} (h : scan t = .ok s) : s.Plain := by
  have hpieces : ∀ u ∈ Text.pieces isAmpersand t, '&' ∉ u := by
    intro u hu hamp
    exact absurd (Text.mem_of_mem_pieces hu hamp).2 (by decide)
  unfold scan at h
  split at h
  · cases h
    exact ⟨List.not_mem_nil, nofun, nofun⟩
  · next lead pieces heq =>
    rw [heq] at hpieces
    split at h
    · cases hsteps : ofPieces pieces with
      | error e =>
        rw [hsteps] at h
        exact nomatch h
      | ok steps =>
        rw [hsteps] at h
        obtain rfl : Script.mk lead steps = s := Except.ok.inj h
        have hrest := plain_of_ofPieces (fun u hu => hpieces u (List.mem_cons_of_mem _ hu)) hsteps
        exact ⟨hpieces lead List.mem_cons_self, fun step hstep => (hrest step hstep).1,
          fun step hstep => (hrest step hstep).2⟩
    · exact nomatch h

end Script

/-! ## What is written -/

/-- A number is written without ampersands. -/
theorem Whole.no_ampersand_render (n : Int) : '&' ∉ render n := by
  have hdigits : ∀ k, '&' ∉ renderNat k := fun k hk =>
    absurd (isDigit_of_mem_renderNat hk) (by decide)
  cases n with
  | ofNat n => exact hdigits n
  | negSucc n =>
    intro h
    rcases List.mem_cons.mp h with h | h
    · exact absurd h (by decide)
    · exact hdigits _ h

/-- A branch with a number in it has no ampersand if both branches have none. -/
theorem Trigger.no_ampersand_branch {yes no : Text} (hyes : '&' ∉ yes) (hno : '&' ∉ no)
    (value : Int) : '&' ∉ branch value yes no := by
  intro h
  obtain ⟨c, hc, hamp⟩ := List.mem_flatMap.mp h
  split at hamp
  · exact Whole.no_ampersand_render value hamp
  · rw [← List.mem_singleton.mp hamp] at hc
    split at hc
    · exact hyes hc
    · exact hno hc

/-! ## Macros -/

namespace Defines

/-- The entries that stand for text with an ampersand. -/
def macros (d : Defines) : List (Text × Text) := d.entries.filter fun e => e.2.contains '&'

theorem mem_macros {d : Defines} {e : Text × Text} :
    e ∈ d.macros ↔ e ∈ d.entries ∧ '&' ∈ e.2 := by
  unfold macros
  rw [List.mem_filter, List.contains_iff_mem]

/-- What a name stands for is the value of an entry. -/
theorem mem_entries_of_get? {d : Defines} {name value : Text} (h : d.get? name = some value) :
    (name, value) ∈ d.entries := by
  obtain ⟨e, he, rfl⟩ := Option.map_eq_some_iff.mp h
  have hname : e.1 = name := by simpa using List.find?_some he
  rw [← hname]
  exact List.mem_of_find?_eq_some he

/-- Without macros every name stands for text without an ampersand. -/
theorem no_ampersand_of_get? {d : Defines} (h : d.macros = []) {name value : Text}
    (hvalue : d.get? name = some value) : '&' ∉ value := by
  intro hamp
  have hmem := mem_macros.mpr ⟨mem_entries_of_get? hvalue, hamp⟩
  rw [h] at hmem
  exact nomatch hmem

/-- A text without an ampersand makes no macro. -/
theorem macros_insert_subset (d : Defines) (name : Text) {value : Text} (h : '&' ∉ value) :
    (d.insert name value).macros ⊆ d.macros := by
  intro e he
  obtain ⟨he, hamp⟩ := mem_macros.mp he
  rcases mem_insertEntry he with rfl | he
  · exact absurd hamp h
  · exact mem_macros.mpr ⟨he, hamp⟩

theorem macros_insertAll_subset {pairs : List (Text × Text)} (h : ∀ pair ∈ pairs, '&' ∉ pair.2)
    (d : Defines) : (d.insertAll pairs).macros ⊆ d.macros := by
  induction pairs generalizing d with
  | nil => exact List.Subset.refl _
  | cons pair pairs ih =>
    have hfirst := macros_insert_subset d pair.1 (h pair List.mem_cons_self)
    have hrest := ih (fun x hx => h x (List.mem_cons_of_mem _ hx)) (d.insert pair.1 pair.2)
    exact List.Subset.trans hrest hfirst

/-- The value of an assignment is part of its text. -/
theorem subset_of_assignment? {part name value : Text} (h : assignment? part = some (name, value)) :
    value ⊆ part := by
  have hrest : Text.trimStart ((Text.trimStart part).drop
      ((Text.trimStart part).takeWhile Text.isNameChar).length) ⊆ part :=
    List.Subset.trans (Text.trimStart_subset _)
      (List.Subset.trans (List.drop_subset _ _) (Text.trimStart_subset _))
  have hvalue : ∀ {c : Char} {rest : Text}, Text.trimStart ((Text.trimStart part).drop
      ((Text.trimStart part).takeWhile Text.isNameChar).length) = c :: rest →
      Text.trim rest ⊆ part := by
    intro c rest heq
    rw [heq] at hrest
    exact List.Subset.trans (Text.trim_subset _)
      (List.Subset.trans (List.subset_cons_self _ _) hrest)
  unfold assignment? at h
  dsimp only at h
  split at h
  · split at h
    · next heq =>
      cases h
      exact hvalue heq
    · next heq =>
      cases h
      exact hvalue heq
    · exact nomatch h
  · exact nomatch h

theorem subset_of_assignmentsOf? {parts : List Text} {pairs : List (Text × Text)}
    (h : assignmentsOf? parts = .ok pairs) {pair : Text × Text} (hpair : pair ∈ pairs) :
    ∃ part ∈ parts, pair.2 ⊆ part := by
  induction parts generalizing pairs with
  | nil =>
    cases h
    exact nomatch hpair
  | cons part parts ih =>
    have hlater : ∀ {pairs}, assignmentsOf? parts = .ok pairs → pair ∈ pairs →
        ∃ u ∈ part :: parts, pair.2 ⊆ u := by
      intro pairs h hpair
      obtain ⟨u, hu, hsub⟩ := ih h hpair
      exact ⟨u, List.mem_cons_of_mem part hu, hsub⟩
    unfold assignmentsOf? at h
    split at h
    · exact hlater h hpair
    · split at h
      · exact nomatch h
      · next first hfirst =>
        cases hrest : assignmentsOf? parts with
        | error e =>
          rw [hrest] at h
          exact nomatch h
        | ok rest =>
          rw [hrest] at h
          obtain rfl : first :: rest = pairs := Except.ok.inj h
          rcases List.mem_cons.mp hpair with rfl | hpair
          · exact ⟨part, List.mem_cons_self, subset_of_assignment? hfirst⟩
          · exact hlater hrest hpair

/-- **Assignments without ampersands make no macros.** -/
theorem macros_assign_subset {d d' : Defines} {body : Text} {n : Nat} (hbody : '&' ∉ body)
    (h : d.assign body = .ok (d', n)) : d'.macros ⊆ d.macros := by
  unfold assign at h
  cases hpairs : assignments? body with
  | error e =>
    rw [hpairs] at h
    exact nomatch h
  | ok pairs =>
    rw [hpairs] at h
    obtain ⟨rfl, -⟩ := Prod.mk.inj (Except.ok.inj h)
    refine macros_insertAll_subset (fun pair hpair hamp => ?_) d
    obtain ⟨part, hpart, hsub⟩ := subset_of_assignmentsOf? hpairs hpair
    exact hbody (Text.subset_of_mem_pieces hpart (hsub hamp))

end Defines

end DiceNotation
