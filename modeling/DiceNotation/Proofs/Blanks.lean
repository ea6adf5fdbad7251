import DiceNotation.Text.Blank
import DiceNotation.Text.DecimalDigit
import Mathlib.Data.List.Basic
import Mathlib.Data.List.TakeWhile

/-!
# Trimming and squeezing

What is left of a text when the blanks at its ends are dropped, and when every stretch of blanks in
it becomes one space.

A blank is one of twenty-five characters, and so what holds of blanks can be checked one by one.

* `forall_of_isBlank`, `not_isBlank_of_isDecimalDigit`.
* `trim_of_not_blank`, `mem_trim_or_isBlank`, `exists_eq_append_trim`, `trim_between_blanks`.
* `squeeze_of_not_blank`, `squeezeFrom_append_of_not_blank`, `squeezeFrom_append_cons`.
-/

namespace DiceNotation.Text

/-! ## Single blanks -/

/-- The members of a set of code points that is bounded. -/
def members : List Nat → List Nat
  | first :: beyond :: flips => List.range' first (beyond - first) ++ members flips
  | _ => []

theorem mem_members {flips : List Nat} (heven : flips.length % 2 = 0) {n : Nat}
    (h : memFlips false flips n = true) : n ∈ members flips := by
  induction flips using members.induct with
  | case1 first beyond flips ih =>
    rw [List.length_cons, List.length_cons] at heven
    unfold members
    rcases Nat.lt_or_ge n first with hlt | hge
    · rw [memFlips_lt hlt] at h
      exact absurd h Bool.false_ne_true
    · rw [memFlips_ge hge] at h
      rcases Nat.lt_or_ge n beyond with hlt | hge'
      · refine List.mem_append_left _ (List.mem_range'_1.mpr ⟨hge, ?_⟩)
        omega
      · rw [memFlips_ge hge'] at h
        exact List.mem_append_right _ (ih (by omega) h)
  | case2 flips hshort =>
    cases flips with
    | nil => exact absurd h Bool.false_ne_true
    | cons first flips =>
      cases flips with
      | nil => exact absurd heven (by simp)
      | cons beyond flips => exact absurd rfl (hshort first beyond flips)

/-- A blank is one of twenty-five characters. -/
theorem forall_of_isBlank {p : Char → Prop} (h : ∀ n ∈ members blankFlips, p (Char.ofNat n))
    {c : Char} (hc : isBlank c = true) : p c := by
  rw [← Char.ofNat_toNat c]
  exact h _ (mem_members rfl hc)

/-- No digit of any script is a blank. -/
theorem not_isBlank_of_isDecimalDigit {c : Char} (h : isDecimalDigit c = true) :
    isBlank c = false := by
  rw [Bool.eq_false_iff]
  intro hblank
  have hdigit : isDecimalDigit c = false :=
    forall_of_isBlank (p := fun c => isDecimalDigit c = false) (by decide) hblank
  exact Bool.false_ne_true (hdigit.symm.trans h)

/-! ## Trimming -/

variable {w : Text}

theorem trimStart_of_not_blank {t : Text} (h : ∀ d ∈ t.head?, isBlank d = false) :
    trimStart t = t := by
  cases t with
  | nil => rfl
  | cons d t => exact trimStart_cons_of_not_blank (h d rfl) t

/-- A text without blanks at its ends is left alone. -/
theorem trim_of_not_blank {t : Text} (hhead : ∀ d ∈ t.head?, isBlank d = false)
    (hlast : ∀ d ∈ t.getLast?, isBlank d = false) : trim t = t := by
  unfold trim trimEnd
  rw [trimStart_of_not_blank hhead, trimStart_of_not_blank (by simpa using hlast),
    List.reverse_reverse]

/-- Blanks before a text that begins with none are dropped. -/
theorem trimStart_blanks_append {g : Text} (hg : ∀ c ∈ g, isBlank c = true) {t : Text}
    (ht : ∀ c ∈ t.head?, isBlank c = false) : trimStart (g ++ t) = t := by
  have hdrop : trimStart (g ++ t) = trimStart t := List.dropWhile_append_of_pos hg
  rw [hdrop, trimStart_of_not_blank ht]

theorem trimStart_append_of_not_blank (hw : ∀ c ∈ w, isBlank c = false) (hne : w ≠ []) (t : Text) :
    trimStart (w ++ t) = w ++ t := by
  obtain ⟨c, w, rfl⟩ := List.exists_cons_of_ne_nil hne
  exact trimStart_cons_of_not_blank (hw c List.mem_cons_self) _

theorem trimStart_append (a b : Text) :
    trimStart (a ++ b) = if (trimStart a).isEmpty then trimStart b else trimStart a ++ b :=
  List.dropWhile_append

/-- Blanks at the end are dropped behind what is no blank. -/
theorem trimEnd_append_of_not_blank (hw : ∀ c ∈ w, isBlank c = false) (t : Text) :
    trimEnd (w ++ t) = w ++ trimEnd t := by
  unfold trimEnd
  rw [List.reverse_append, trimStart_append]
  by_cases hempty : (trimStart t.reverse).isEmpty = true
  · have hreverse : trimStart w.reverse = w.reverse := by
      refine trimStart_of_not_blank fun d hd => hw d ?_
      exact List.mem_reverse.mp (List.mem_of_head? hd)
    rw [if_pos hempty, hreverse, List.reverse_reverse, List.isEmpty_iff.mp hempty, List.reverse_nil,
      List.append_nil]
  · rw [if_neg hempty, List.reverse_append, List.reverse_reverse]

/-- A blank is kept at the start, or dropped with the rest. -/
theorem trimEnd_cons (c : Char) (t : Text) :
    trimEnd (c :: t) = c :: trimEnd t ∨ trimEnd (c :: t) = trimEnd t := by
  cases hc : isBlank c with
  | false =>
    refine Or.inl (trimEnd_append_of_not_blank (w := [c]) (fun d hd => ?_) t)
    rw [List.mem_singleton.mp hd]
    exact hc
  | true =>
    unfold trimEnd
    rw [List.reverse_cons, trimStart_append]
    by_cases hempty : (trimStart t.reverse).isEmpty = true
    · refine Or.inr ?_
      rw [if_pos hempty, trimStart_cons_of_blank hc, List.isEmpty_iff.mp hempty]
      rfl
    · refine Or.inl ?_
      rw [if_neg hempty, List.reverse_append]
      rfl

theorem not_blank_of_head?_trimStart {t : Text} {c : Char} (h : c ∈ (trimStart t).head?) :
    isBlank c = false := by
  have hnot := List.head?_dropWhile_not isBlank t
  unfold trimStart at h
  rw [Option.mem_def.mp h] at hnot
  exact hnot

theorem not_blank_of_getLast?_trimEnd {t : Text} {c : Char} (h : c ∈ (trimEnd t).getLast?) :
    isBlank c = false := by
  unfold trimEnd at h
  rw [List.getLast?_reverse] at h
  exact not_blank_of_head?_trimStart h

/-- There is no blank at the start after blanks were trimmed. -/
theorem not_blank_of_head?_trim {t : Text} {c : Char} (h : c ∈ (trim t).head?) :
    isBlank c = false := by
  have hprefix : trim t <+: trimStart t := by
    have hsuffix : trimStart (trimStart t).reverse <:+ (trimStart t).reverse :=
      List.dropWhile_suffix isBlank
    exact List.reverse_suffix.mp (by unfold trim trimEnd; rw [List.reverse_reverse]; exact hsuffix)
  obtain ⟨rest, hrest⟩ := hprefix
  refine not_blank_of_head?_trimStart (t := t) ?_
  rw [← hrest, List.head?_append_of_ne_nil _ fun hnil => ?_]
  · exact h
  · rw [hnil] at h
    exact nomatch h

/-- A text is trimmed to what is left of it between blanks. -/
theorem mem_trim_or_isBlank {t : Text} {c : Char} (h : c ∈ t) :
    isBlank c = true ∨ c ∈ trim t := by
  have hstart : ∀ {u : Text} {c : Char}, c ∈ u → isBlank c = true ∨ c ∈ trimStart u := by
    intro u c hc
    rw [← List.takeWhile_append_dropWhile (p := isBlank) (l := u)] at hc
    rcases List.mem_append.mp hc with hc | hc
    · exact Or.inl (List.mem_takeWhile_imp hc)
    · exact Or.inr hc
  rcases hstart h with hc | hc
  · exact Or.inl hc
  · unfold trim trimEnd
    rw [List.mem_reverse]
    exact hstart (List.mem_reverse.mpr hc)

/-- Blanks around a text that has none at its ends are dropped. -/
theorem trim_between_blanks {g g' : Text} (hg : ∀ c ∈ g, isBlank c = true)
    (hg' : ∀ c ∈ g', isBlank c = true) (hhead : ∀ c ∈ w.head?, isBlank c = false)
    (hlast : ∀ c ∈ w.getLast?, isBlank c = false) : trim (g ++ (w ++ g')) = w := by
  unfold trim
  cases w with
  | nil =>
    have hall : ∀ c ∈ g ++ g', isBlank c = true := fun c hc =>
      (List.mem_append.mp hc).elim (hg c) (hg' c)
    have hstart := trimStart_blanks_append (t := []) hall fun c hc => nomatch hc
    rw [List.append_nil] at hstart
    rw [List.nil_append, hstart]
    rfl
  | cons d w =>
    have hstart := trimStart_blanks_append (t := d :: w ++ g') hg hhead
    have hend := trimStart_blanks_append (g := g'.reverse) (t := (d :: w).reverse)
      (fun c hc => hg' c (List.mem_reverse.mp hc)) (by rwa [List.head?_reverse])
    rw [hstart, trimEnd, List.reverse_append, hend, List.reverse_reverse]

/-- A text has blanks around what it is trimmed to. -/
theorem exists_eq_append_trim (t : Text) :
    ∃ g g', t = g ++ (trim t ++ g') ∧ (∀ c ∈ g, isBlank c = true) ∧ ∀ c ∈ g', isBlank c = true := by
  have hstart : ∀ u : Text, u = u.takeWhile isBlank ++ trimStart u := fun u =>
    List.takeWhile_append_dropWhile.symm
  have hend : trimStart t = trim t ++ ((trimStart t).reverse.takeWhile isBlank).reverse := by
    have hreverse := congrArg List.reverse (hstart (trimStart t).reverse)
    rw [List.reverse_reverse, List.reverse_append] at hreverse
    exact hreverse
  refine ⟨t.takeWhile isBlank, ((trimStart t).reverse.takeWhile isBlank).reverse, ?_,
    fun c hc => List.mem_takeWhile_imp hc,
    fun c hc => List.mem_takeWhile_imp (List.mem_reverse.mp hc)⟩
  rw [← hend]
  exact hstart t

/-! ## Squeezing -/

/-- A text without blanks has nothing to squeeze. -/
theorem squeeze_of_not_blank {t : Text} (h : ∀ c ∈ t, isBlank c = false) : squeeze t = t := by
  unfold squeeze
  induction t with
  | nil => rfl
  | cons c t ih =>
    have hc : isBlank c = false := h c List.mem_cons_self
    rw [squeezeFrom, hc, if_neg Bool.false_ne_true, ih fun d hd => h d (List.mem_cons_of_mem c hd)]

theorem squeezeFrom_append_of_not_blank (hw : ∀ c ∈ w, isBlank c = false) (hne : w ≠ [])
    (written : Bool) (t : Text) : squeezeFrom written (w ++ t) = w ++ squeezeFrom false t := by
  induction w generalizing written with
  | nil => exact absurd rfl hne
  | cons c w ih =>
    rw [List.cons_append, squeezeFrom, hw c List.mem_cons_self, if_neg Bool.false_ne_true]
    cases w with
    | nil => rfl
    | cons d w =>
      rw [ih (fun e he => hw e (List.mem_cons_of_mem c he)) (List.cons_ne_nil d w)]
      rfl

/-- At a character that is no blank, squeezing starts anew. -/
theorem squeezeFrom_append_cons {d : Char} (hd : isBlank d = false) (written : Bool) (t u : Text) :
    squeezeFrom written (t ++ d :: u) = squeezeFrom written t ++ d :: squeezeFrom false u := by
  induction t generalizing written with
  | nil =>
    show squeezeFrom written (d :: u) = d :: squeezeFrom false u
    rw [squeezeFrom, hd, if_neg Bool.false_ne_true]
  | cons c t ih =>
    rw [List.cons_append, squeezeFrom, squeezeFrom, ih, ih]
    cases isBlank c with
    | false => rfl
    | true =>
      cases written with
      | false => rfl
      | true => rfl

/-- The last character stays what it is, unless it is a blank. -/
theorem squeezeFrom_concat {d : Char} (hd : isBlank d = false) (written : Bool) (t : Text) :
    squeezeFrom written (t ++ [d]) = squeezeFrom written t ++ [d] :=
  squeezeFrom_append_cons hd written t []

/-- What begins with no blank is squeezed by itself. -/
theorem squeezeFrom_append_of_head {t : Text} (hne : t ≠ []) (ht : ∀ c ∈ t.head?, isBlank c = false)
    (written : Bool) (u : Text) :
    squeezeFrom written (u ++ t) = squeezeFrom written u ++ squeeze t := by
  obtain ⟨d, t, rfl⟩ := List.exists_cons_of_ne_nil hne
  have hd : isBlank d = false := ht d rfl
  have hsqueeze : squeeze (d :: t) = d :: squeezeFrom false t :=
    squeezeFrom_append_cons hd false [] t
  rw [squeezeFrom_append_cons hd, hsqueeze]

/-- What stands after a text that ends with no blank is squeezed by itself. -/
theorem squeeze_append_of_getLast {t : Text} (ht : ∀ c ∈ t.getLast?, isBlank c = false) (u : Text) :
    squeeze (t ++ u) = squeeze t ++ squeeze u := by
  rcases List.eq_nil_or_concat t with rfl | ⟨t, d, rfl⟩
  · rfl
  · have hd : isBlank d = false := ht d (by simp)
    unfold squeeze
    rw [List.concat_eq_append, List.append_assoc, List.singleton_append,
      squeezeFrom_append_cons hd, squeezeFrom_concat hd, List.append_assoc, List.singleton_append]

/-- Blanks are squeezed to spaces. -/
theorem eq_space_of_mem_squeezeFrom {g : Text} (hg : ∀ c ∈ g, isBlank c = true) (written : Bool) :
    ∀ c ∈ squeezeFrom written g, c = ' ' := by
  induction g generalizing written with
  | nil => exact fun c hc => nomatch hc
  | cons d g ih =>
    have hrest := ih fun e he => hg e (List.mem_cons_of_mem d he)
    rw [squeezeFrom, hg d List.mem_cons_self, if_pos rfl]
    cases written with
    | true => exact hrest true
    | false =>
      intro c hc
      rcases List.mem_cons.mp hc with rfl | hc
      · rfl
      · exact hrest true c hc

theorem isBlank_of_mem_squeezeFrom {g : Text} (hg : ∀ c ∈ g, isBlank c = true) (written : Bool) :
    ∀ c ∈ squeezeFrom written g, isBlank c = true := by
  intro c hc
  rw [eq_space_of_mem_squeezeFrom hg written c hc]
  decide

theorem squeeze_eq_nil_iff {t : Text} : squeeze t = [] ↔ t = [] := by
  cases t with
  | nil => exact iff_of_true rfl rfl
  | cons c t =>
    refine iff_of_false (fun h => ?_) (List.cons_ne_nil c t)
    unfold squeeze squeezeFrom at h
    split at h
    · exact nomatch h
    · exact nomatch h

end DiceNotation.Text
