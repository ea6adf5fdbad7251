import DiceNotation.Proofs.Parts
import DiceNotation.Proofs.PlainText
import DiceNotation.Proofs.Words

/-!
# Replacing a name among the atoms of a text

When a name in a text is replaced by a word that is no name, the text that results has the same
atoms otherwise (`atoms?_replace`).  Three readers have to agree on this: empty groups are
looked for in characters next to each other, parts are divided at parentheses, and runs at the
ends of words.  None of them sees more of a word than that it is one.

* `Group.HasNoEmpty`, with `hasNoEmpty_dropEmptyGroups` and `dropEmptyGroups_of_hasNoEmpty`.
* `Resolution.exists_of_ofParts_eq`: where a name among atoms comes from.
* `Resolution.atoms?_replace`; `Resolution.atoms?_of_plain`: the atoms of a text without groups.
* `splice?_eq_none`, `scripted?_eq_none`: where no atom stands for text with triggers.
-/

namespace DiceNotation

namespace Group

/-- No `(` is followed by a `)` at once. -/
def HasNoEmpty (t : Text) : Prop := t.IsChain fun a b => ¬ (a = '(' ∧ b = ')')

/-- The characters that are kept, the latest first, hold no empty group. -/
def KeepsNoEmpty (kept : Text) : Prop := kept.IsChain fun a b => ¬ (b = '(' ∧ a = ')')

theorem hasNoEmpty_keepGroups (kept t : Text) (h : KeepsNoEmpty kept) :
    HasNoEmpty (keepGroups kept t) := by
  fun_induction keepGroups kept t with
  | case1 kept => exact List.isChain_reverse.mpr h
  | case2 t kept ih => exact ih (List.isChain_cons.mp h).2
  | case3 t c kept hpair ih =>
    refine ih (List.isChain_cons.mpr ⟨?_, h⟩)
    rintro d hd ⟨rfl, rfl⟩
    obtain ⟨kept', rfl⟩ := List.head?_eq_some_iff.mp hd
    exact hpair kept' rfl rfl

/-- A text has no empty groups after they were dropped. -/
theorem hasNoEmpty_dropEmptyGroups (t : Text) : HasNoEmpty (dropEmptyGroups t) :=
  hasNoEmpty_keepGroups [] t List.isChain_nil

theorem keepGroups_of_hasNoEmpty (kept t : Text) (h : HasNoEmpty t)
    (hkept : ∀ c ∈ kept.head?, ∀ d ∈ t.head?, ¬ (c = '(' ∧ d = ')')) :
    keepGroups kept t = kept.reverse ++ t := by
  fun_induction keepGroups kept t with
  | case1 kept => exact (List.append_nil _).symm
  | case2 t kept ih => exact absurd ⟨rfl, rfl⟩ (hkept _ rfl _ rfl)
  | case3 t c kept hpair ih =>
    obtain ⟨hhead, htail⟩ := List.isChain_cons.mp h
    have hstep : ∀ d ∈ (c :: kept).head?, ∀ e ∈ t.head?, ¬ (d = '(' ∧ e = ')') := by
      rintro d ⟨⟩ e he
      exact hhead e he
    rw [ih htail hstep, List.reverse_cons, List.append_assoc, List.singleton_append]

/-- A text without empty groups stays as it is. -/
theorem dropEmptyGroups_of_hasNoEmpty {t : Text} (h : HasNoEmpty t) : dropEmptyGroups t = t :=
  keepGroups_of_hasNoEmpty [] t h fun _ hc => nomatch hc

/-- Other characters than parentheses can be put in the place of some characters. -/
theorem HasNoEmpty.replace {a b v w : Text} (h : HasNoEmpty (a ++ (v ++ b))) (hw : w ≠ [])
    (hplain : ∀ c ∈ w, isPlain c = true) : HasNoEmpty (a ++ (w ++ b)) := by
  have hends : ∀ c ∈ w, c ≠ '(' ∧ c ≠ ')' := by
    intro c hc
    have hc := hplain c hc
    constructor
    · rintro rfl
      exact absurd hc (by decide)
    · rintro rfl
      exact absurd hc (by decide)
  have ha : HasNoEmpty a := h.left_of_append
  have hb : HasNoEmpty b := h.right_of_append.right_of_append
  have hmiddle : HasNoEmpty w := by
    refine List.isChain_iff_forall_rel_of_append_cons_cons.mpr ?_
    rintro x y u v rfl ⟨rfl, -⟩
    exact (hends '(' (List.mem_append_right u List.mem_cons_self)).1 rfl
  refine ha.append (hmiddle.append hb ?_) ?_
  · rintro x hx y - ⟨rfl, -⟩
    exact (hends '(' (List.mem_of_getLast? hx)).1 rfl
  · rintro x - y hy ⟨-, rfl⟩
    rw [List.head?_append_of_ne_nil _ hw] at hy
    exact (hends ')' (List.mem_of_head? hy)).2 rfl

end Group

namespace Atom

/-- The text of runs is the text of their atoms. -/
theorem flatMap_text_map_ofRun (rs : List Text.Run) :
    (rs.map ofRun).flatMap text = rs.flatMap Text.Run.text := by
  rw [List.flatMap_map]
  simp only [text_ofRun]

theorem ofRun_of_isName {w : Text} (h : Text.isName w = true) : ofRun (.word w) = name w := by
  show (if Text.isName w then name w else other w) = name w
  rw [if_pos h]

theorem ofRun_of_not_isName {w : Text} (h : ¬ Text.isName w = true) :
    ofRun (.word w) = other w := by
  show (if Text.isName w then name w else other w) = other w
  rw [if_neg h]

/-- A run is no group. -/
theorem ofRun_ne_group (r : Text.Run) (inner : Text) : ofRun r ≠ .group inner := by
  intro heq
  cases r with
  | gap g => exact nomatch heq
  | word w =>
    by_cases hw : Text.isName w = true
    · rw [ofRun_of_isName hw] at heq
      exact nomatch heq
    · rw [ofRun_of_not_isName hw] at heq
      exact nomatch heq

/-- A run that is a name is the word of this name. -/
theorem eq_word_of_ofRun_eq {r : Text.Run} {n : Text} (h : ofRun r = name n) :
    r = .word n ∧ Text.isName n = true := by
  cases r with
  | gap g => exact nomatch h
  | word w =>
    by_cases hw : Text.isName w = true
    · rw [ofRun_of_isName hw] at h
      cases h
      exact ⟨rfl, hw⟩
    · rw [ofRun_of_not_isName hw] at h
      exact nomatch h

/-- A run that is no name has a text that is no name. -/
theorem isName_of_ofRun_eq_other {r : Text.Run} {t : Text} (hr : r.Uniform)
    (h : ofRun r = other t) :
    Text.isName t = false := by
  cases r with
  | word w =>
    by_cases hw : Text.isName w = true
    · rw [ofRun_of_isName hw] at h
      exact nomatch h
    · rw [ofRun_of_not_isName hw] at h
      cases h
      exact Bool.eq_false_iff.mpr hw
  | gap g =>
    cases h
    obtain ⟨hne, hgap⟩ := hr
    cases t with
    | nil => rfl
    | cons c t =>
      have hc : Text.isNameStart c = false := by
        rw [Bool.eq_false_iff]
        intro hstart
        have hword := hgap c List.mem_cons_self
        rw [Text.isWordChar_of_isNameStart hstart] at hword
        exact nomatch hword
      rw [Text.isName_cons, hc, Bool.false_and]

/-- A name among the atoms of parts is a word in a plain one of them. -/
theorem exists_of_ofParts_eq {parts : List Group.Part} {pre post : List Atom} {n : Text}
    (h : ofParts parts = pre ++ name n :: post) :
    ∃ ps p qs a b, parts = ps ++ .plain p :: qs ∧ Text.runs p = a ++ .word n :: b ∧
      pre = ofParts ps ++ a.map ofRun ∧ post = b.map ofRun ++ ofParts qs ∧
        Text.isName n = true := by
  induction parts generalizing pre with
  | nil => exact absurd h (by simp [ofParts])
  | cons x xs ih =>
    have hcons : ofPart x ++ ofParts xs = pre ++ name n :: post := h
    -- the name is beyond the first part or in it
    have hlater : ∀ as, pre = ofPart x ++ as → ofParts xs = as ++ name n :: post →
        ∃ ps p qs a b, x :: xs = ps ++ .plain p :: qs ∧ Text.runs p = a ++ .word n :: b ∧
          pre = ofParts ps ++ a.map ofRun ∧ post = b.map ofRun ++ ofParts qs ∧
          Text.isName n = true := by
      rintro as rfl hxs
      obtain ⟨ps, p, qs, a, b, rfl, hruns, rfl, rfl, hn⟩ := ih hxs
      refine ⟨x :: ps, p, qs, a, b, rfl, hruns, ?_, rfl, hn⟩
      rw [← List.append_assoc]
      rfl
    rcases List.append_eq_append_iff.mp hcons with ⟨as, hpre, hxs⟩ | ⟨bs, hx, hpost⟩
    · exact hlater as hpre hxs
    · cases bs with
      | nil =>
        refine hlater [] ?_ hpost.symm
        rw [hx, List.append_nil, List.append_nil]
      | cons y bs =>
        obtain ⟨rfl, rfl⟩ := List.cons.inj hpost
        cases x with
        | group inner =>
          have hmem : name n ∈ ofPart (.group inner) := by
            rw [hx]
            exact List.mem_append_right pre List.mem_cons_self
          exact absurd (List.mem_singleton.mp hmem) (by simp)
        | plain p =>
          obtain ⟨a, rs, hruns, rfl, hrs⟩ := List.map_eq_append_iff.mp hx
          obtain ⟨r, b, rfl, hr, rfl⟩ := List.map_eq_cons_iff.mp hrs
          obtain ⟨rfl, hn⟩ := eq_word_of_ofRun_eq hr
          exact ⟨[], p, xs, a, b, rfl, hruns, rfl, rfl, hn⟩

end Atom

namespace Resolution

theorem atoms?_eq_ok_iff {t : Text} {atoms : List Atom} :
    atoms? t = .ok atoms ↔
      ∃ parts, Group.parts? (Group.dropEmptyGroups t) = .ok parts ∧ Atom.ofParts parts = atoms := by
  unfold atoms?
  cases hparts : Group.parts? (Group.dropEmptyGroups t) with
  | ok parts =>
    constructor
    · intro h
      exact ⟨parts, rfl, Except.ok.inj h⟩
    · rintro ⟨_, ⟨⟩, rfl⟩
      rfl
  | error e =>
    constructor
    · intro h
      exact nomatch h
    · rintro ⟨_, h, -⟩
      exact nomatch h

/-- The characters of an atom are characters of the text. -/
theorem mem_of_mem_text {t : Text} {atoms : List Atom} {a : Atom} {c : Char}
    (h : atoms? t = .ok atoms) (ha : a ∈ atoms) (hc : c ∈ a.text) : c ∈ t := by
  obtain ⟨parts, hparts, rfl⟩ := atoms?_eq_ok_iff.mp h
  exact Group.dropEmptyGroups_subset t (Atom.subset_of_mem_ofParts hparts ha hc)

/-- A word has no parentheses. -/
theorem isPlain_of_isWordChar {c : Char} (h : Text.isWordChar c = true) :
    Group.isPlain c = true := by
  have hopen : Text.isWordChar '(' = false := by decide
  have hclose : Text.isWordChar ')' = false := by decide
  unfold Group.isPlain
  rw [Bool.and_eq_true, bne_iff_ne, bne_iff_ne]
  constructor
  · rintro rfl
    exact absurd (h.symm.trans hopen) Bool.noConfusion
  · rintro rfl
    exact absurd (h.symm.trans hclose) Bool.noConfusion

/-- Plain text is around a word, and stays plain when the word is replaced. -/
theorem plain_replace {p n w : Text} {a b : List Text.Run} (hruns : Text.runs p = a ++ .word n :: b)
    (hplain : ∀ c ∈ p, Group.isPlain c = true) (hw : (Text.Run.word w).Uniform) :
    p = a.flatMap Text.Run.text ++ (n ++ b.flatMap Text.Run.text) ∧
    (Group.Part.plain (a.flatMap Text.Run.text ++ (w ++ b.flatMap Text.Run.text))).Uniform := by
  have hp : p = a.flatMap Text.Run.text ++ (n ++ b.flatMap Text.Run.text) := by
    have hflat := Text.flatMap_text_runs p
    rw [hruns, List.flatMap_append, List.flatMap_cons] at hflat
    exact hflat.symm
  refine ⟨hp, ?_, ?_⟩
  · exact List.append_ne_nil_of_right_ne_nil _ (List.append_ne_nil_of_left_ne_nil hw.1 _)
  · intro c hc
    rw [hp] at hplain
    rcases List.mem_append.mp hc with hc | hc
    · exact hplain c (List.mem_append_left _ hc)
    · rcases List.mem_append.mp hc with hc | hc
      · exact isPlain_of_isWordChar (hw.2 c hc)
      · exact hplain c (List.mem_append_right _ (List.mem_append_right n hc))

/-- **A word that is no name can be put in the place of a name**, and the atoms around it stay
what they are. -/
theorem atoms?_replace {t n w : Text} {pre post : List Atom}
    (h : atoms? t = .ok (pre ++ .name n :: post)) (hw : (Text.Run.word w).Uniform)
    (hname : ¬ Text.isName w = true) :
    atoms? (pre.flatMap Atom.text ++ (w ++ post.flatMap Atom.text)) =
      .ok (pre ++ .other w :: post) := by
  obtain ⟨parts, hparts, hatoms⟩ := atoms?_eq_ok_iff.mp h
  obtain ⟨ps, p, qs, a, b, rfl, hruns, rfl, rfl, -⟩ := Atom.exists_of_ofParts_eq hatoms
  obtain ⟨horderly, htext⟩ := Group.orderly_of_partsFrom? hparts
  have huniform := horderly.uniform _ (List.mem_append_right ps List.mem_cons_self)
  obtain ⟨hp, hq⟩ := plain_replace hruns huniform.2 hw
  have hreplaced := Group.parts?_replace hparts hq
  have htexts : (Atom.ofParts ps ++ a.map Atom.ofRun).flatMap Atom.text ++
      (w ++ (b.map Atom.ofRun ++ Atom.ofParts qs).flatMap Atom.text) =
      ps.flatMap Group.Part.text ++ ((a.flatMap Text.Run.text ++ (w ++ b.flatMap Text.Run.text)) ++
        qs.flatMap Group.Part.text) := by
    rw [List.flatMap_append, List.flatMap_append, Atom.flatMap_text_ofParts,
      Atom.flatMap_text_ofParts, Atom.flatMap_text_map_ofRun, Atom.flatMap_text_map_ofRun]
    simp only [List.append_assoc]
  have hnoempty : Group.HasNoEmpty (ps.flatMap Group.Part.text ++
      ((a.flatMap Text.Run.text ++ (w ++ b.flatMap Text.Run.text)) ++
        qs.flatMap Group.Part.text)) := by
    have h₀ := Group.hasNoEmpty_dropEmptyGroups t
    have hplain : Group.Part.text (.plain p) = p := rfl
    rw [← htext, List.flatMap_append, List.flatMap_cons, hplain, hp] at h₀
    simp only [List.append_assoc] at h₀ ⊢
    rw [← List.append_assoc] at h₀ ⊢
    exact h₀.replace hw.1 fun c hc => isPlain_of_isWordChar (hw.2 c hc)
  refine atoms?_eq_ok_iff.mpr
    ⟨ps ++ .plain (a.flatMap Text.Run.text ++ (w ++ b.flatMap Text.Run.text)) :: qs, ?_, ?_⟩
  · rw [htexts, Group.dropEmptyGroups_of_hasNoEmpty hnoempty]
    exact hreplaced
  · have hrunsq := Text.runs_replace hruns hw
    unfold Atom.ofParts
    rw [List.flatMap_append, List.flatMap_cons]
    show _ ++ ((Text.runs _).map Atom.ofRun ++ _) = _
    rw [hrunsq, List.map_append, List.map_cons, Atom.ofRun_of_not_isName hname]
    simp only [List.append_assoc, List.cons_append]

/-- The atoms of a text without parentheses are its runs. -/
theorem atoms?_of_plain {t : Text} (h : ∀ c ∈ t, Group.isPlain c = true) :
    atoms? t = .ok ((Text.runs t).map Atom.ofRun) := by
  have hdrop : Group.dropEmptyGroups t = t := Group.dropEmptyGroups_of_hasNoEmpty <|
    (List.pairwise_of_forall_mem_list fun c hc _ _ hpair =>
      absurd (h c hc) (by rw [hpair.1]; decide)).isChain
  refine atoms?_eq_ok_iff.mpr ⟨Group.plainPart t, ?_, ?_⟩
  · rw [hdrop, Group.parts?, Group.partsFrom?_of_plain h]
  · cases t with
    | nil => rfl
    | cons c t => exact List.append_nil _

end Resolution

/-! ## Atoms that stand for text with triggers -/

section Splicing

variable {d : Defines}

theorem splice?_eq_none {used : List Text} {atoms : List Atom}
    (h : ∀ a ∈ atoms, Atom.scripted? d used a = none) : Atom.splice? d used atoms = none := by
  induction atoms with
  | nil => rfl
  | cons a atoms ih =>
    unfold Atom.splice?
    rw [h a List.mem_cons_self, ih fun b hb => h b (List.mem_cons_of_mem a hb)]
    rfl

theorem scripted?_of_mem {used : List Text} {m : Text} (h : m ∈ used) :
    Atom.scripted? d used (.name m) = none := by
  show (if used.contains m then none else _) = none
  rw [if_pos (List.contains_iff_mem.mpr h)]

theorem scripted?_of_not_mem {used : List Text} {m : Text} (h : m ∉ used) :
    Atom.scripted? d used (.name m) = match d.get? m with
      | some value => if value.contains '&' then some (m, value) else none
      | none => none := by
  show (if used.contains m then none else _) = _
  exact if_neg fun hc => h (List.contains_iff_mem.mp hc)

/-- An atom stands for no text with triggers if all that it could stand for is without any. -/
theorem scripted?_eq_none {used : List Text} {a : Atom}
    (h : ∀ {m v}, a = .name m → m ∉ used → d.get? m = some v → '&' ∉ v) :
    Atom.scripted? d used a = none := by
  cases a with
  | group inner => rfl
  | other t => rfl
  | name m =>
    by_cases hm : m ∈ used
    · exact scripted?_of_mem hm
    · rw [scripted?_of_not_mem hm]
      cases hv : d.get? m with
      | none => rfl
      | some v =>
        have hplain := h rfl hm hv
        dsimp only
        rw [if_neg fun hc => hplain (List.contains_iff_mem.mp hc)]

end Splicing

end DiceNotation
