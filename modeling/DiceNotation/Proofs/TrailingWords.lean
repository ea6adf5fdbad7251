import DiceNotation.Proofs.Blanks
import DiceNotation.Proofs.Parts
import DiceNotation.Proofs.Stretches

/-!
# The words at the end of a text

A word is found by reading backward from the end of a stretch and counting the parentheses that are
closed.  Where the parentheses of the stretch match, this finds the words that reading forward
finds: the longest pieces without blanks, except for blanks inside of parentheses.

## Two readings

The forward reading is written down as a *layout*: the blanks at the start, and every word with the
blanks after it.  A word has the same number of parentheses open at its start and at its end, none
of them, so that the backward count is zero at both; in between it is the forward count
(`spanWord_reverse_append`).  Taking the last word of a stretch takes the last entry of its layout,
and however many words are taken the layout of the original text says what is left (`keepWords`).

* `Text.depthAfter`, `Text.balancedFrom`, `Text.solidFrom`.
* `Text.layoutFrom`, `Text.LaidOut`, `Text.laidOut_layoutFrom`; `Text.outerWords`, `Text.keep`.
* `Text.lastWord?_keep_succ`: the last word of a stretch.
* `Group.wrapped?_eq_some_iff`: a text that is one group.
* `keepWords`, `takeFromLast?_keepWords`, `Surroundings.takeWords?_eq_some`: the words of all
  stretches.
-/

namespace DiceNotation

namespace Text

/-! ## Reading forward -/

/-- How many parentheses are open after a character. -/
def depthAfter (depth : Nat) (c : Char) : Nat :=
  if c = '(' then depth + 1 else if c = ')' then depth - 1 else depth

/-- Whether the parentheses of a text match, where so many are open before it. -/
def balancedFrom : Nat → Text → Bool
  | depth, [] => depth == 0
  | depth, c :: t => (c != ')' || depth != 0) && balancedFrom (depthAfter depth c) t

/-- Whether a character is a blank outside of parentheses. -/
def isOuterBlank (depth : Nat) (c : Char) : Bool := depth == 0 && isBlank c

/-- Whether, in addition, there is no blank outside of parentheses. -/
def solidFrom : Nat → Text → Bool
  | depth, [] => depth == 0
  | depth, c :: t =>
    !isOuterBlank depth c && (c != ')' || depth != 0) && solidFrom (depthAfter depth c) t

/-- The blanks at the start of a text, and every word with the blanks after it. -/
def layoutFrom : Nat → Text → Text × List (Text × Text)
  | _, [] => ([], [])
  | depth, c :: t =>
    let (lead, words) := layoutFrom (depthAfter depth c) t
    if isOuterBlank depth c then (c :: lead, words)
    else
      match lead, words with
      | [], (word, gap) :: words => ([], (c :: word, gap) :: words)
      | lead, words => ([], ([c], lead) :: words)

/-- The words of a text. -/
def outerWords (t : Text) : List Text := (layoutFrom 0 t).2.map Prod.fst

/-- A text up to its first words, with the blanks after these. -/
def keep (n : Nat) (t : Text) : Text :=
  (layoutFrom 0 t).1 ++ ((layoutFrom 0 t).2.take n).flatMap fun word => word.1 ++ word.2

variable {depth : Nat} {c : Char} {t : Text}

/-- A blank is no parenthesis. -/
theorem depthAfter_of_isBlank (h : isBlank c = true) (depth : Nat) :
    depthAfter depth c = depth := by
  have hopen : c ≠ '(' := by
    rintro rfl
    exact absurd h (by decide)
  have hclose : c ≠ ')' := by
    rintro rfl
    exact absurd h (by decide)
  rw [depthAfter, if_neg hopen, if_neg hclose]

theorem isOuterBlank_iff : isOuterBlank depth c = true ↔ depth = 0 ∧ isBlank c = true := by
  rw [isOuterBlank, Bool.and_eq_true, beq_iff_eq]

theorem solidFrom_cons_iff : solidFrom depth (c :: t) = true ↔
    isOuterBlank depth c = false ∧ (c = ')' → depth ≠ 0) ∧
      solidFrom (depthAfter depth c) t = true := by
  rw [solidFrom, Bool.and_eq_true, Bool.and_eq_true, Bool.or_eq_true, bne_iff_ne, bne_iff_ne,
    Bool.not_eq_true', and_assoc, imp_iff_not_or]

/-- A text is laid out as blanks, and words with blanks after them.  Where parentheses are open
before it, it starts with a word, and this is the rest of a word. -/
structure LaidOut (depth : Nat) (t lead : Text) (words : List (Text × Text)) : Prop where
  text_eq : t = lead ++ words.flatMap fun word => word.1 ++ word.2
  lead_blank : ∀ c ∈ lead, isBlank c = true
  gap_blank : ∀ word ∈ words, ∀ c ∈ word.2, isBlank c = true
  word_ne_nil : ∀ word ∈ words, word.1 ≠ []
  first_solid : ∀ word ∈ words.head?, solidFrom depth word.1 = true
  later_solid : ∀ word ∈ words.tail, solidFrom 0 word.1 = true
  /-- Words are as long as they can be: there are blanks between them. -/
  gap_ne_nil : ∀ word ∈ words.dropLast, word.2 ≠ []
  closed_lead : lead ≠ [] → depth = 0
  closed_nil : words = [] → depth = 0

theorem LaidOut.blank {lead : Text} {words : List (Text × Text)} (hc : isOuterBlank depth c = true)
    (h : LaidOut 0 t lead words) : LaidOut depth (c :: t) (c :: lead) words := by
  obtain ⟨rfl, hblank⟩ := isOuterBlank_iff.mp hc
  refine { h with text_eq := ?_, lead_blank := ?_, closed_lead := fun _ => rfl }
  · rw [List.cons_append, ← h.text_eq]
  · intro d hd
    rcases List.mem_cons.mp hd with rfl | hd
    · exact hblank
    · exact h.lead_blank d hd

/-- A character of a word before the rest of the word. -/
theorem LaidOut.extend {word gap : Text} {words : List (Text × Text)}
    (h : LaidOut (depthAfter depth c) t [] ((word, gap) :: words))
    (hsolid : solidFrom (depthAfter depth c) word = true → solidFrom depth (c :: word) = true) :
    LaidOut depth (c :: t) [] ((c :: word, gap) :: words) where
  text_eq := by
    rw [h.text_eq]
    rfl
  lead_blank := nofun
  gap_blank := List.forall_mem_cons.mpr (List.forall_mem_cons.mp h.gap_blank)
  word_ne_nil := List.forall_mem_cons.mpr
    ⟨List.cons_ne_nil c word, (List.forall_mem_cons.mp h.word_ne_nil).2⟩
  first_solid := by
    rintro _ ⟨⟩
    exact hsolid (h.first_solid _ rfl)
  later_solid := h.later_solid
  gap_ne_nil := by
    have hgap := h.gap_ne_nil
    cases words with
    | nil => exact nofun
    | cons next words => exact List.forall_mem_cons.mpr (List.forall_mem_cons.mp hgap)
  closed_lead := fun h => absurd rfl h
  closed_nil := nofun

/-- A character of a word before blanks, or at the end. -/
theorem LaidOut.begin {lead : Text} {words : List (Text × Text)}
    (h : LaidOut (depthAfter depth c) t lead words) (hlead : lead = [] → words = [])
    (hsolid : solidFrom (depthAfter depth c) [] = true → solidFrom depth [c] = true) :
    LaidOut depth (c :: t) [] (([c], lead) :: words) := by
  have hclosed : depthAfter depth c = 0 := by
    by_cases hnil : lead = []
    · exact h.closed_nil (hlead hnil)
    · exact h.closed_lead hnil
  rw [hclosed] at h hsolid
  refine ⟨?_, nofun, ?_, ?_, ?_, ?_, ?_, fun h => absurd rfl h, nofun⟩
  · rw [h.text_eq]
    rfl
  · exact List.forall_mem_cons.mpr ⟨h.lead_blank, h.gap_blank⟩
  · exact List.forall_mem_cons.mpr ⟨List.cons_ne_nil c [], h.word_ne_nil⟩
  · rintro _ ⟨⟩
    exact hsolid rfl
  · cases words with
    | nil => exact nofun
    | cons word words => exact List.forall_mem_cons.mpr ⟨h.first_solid _ rfl, h.later_solid⟩
  · cases words with
    | nil => exact nofun
    | cons word words =>
      refine List.forall_mem_cons.mpr ⟨fun hnil => ?_, h.gap_ne_nil⟩
      exact List.cons_ne_nil _ _ (hlead hnil)

/-- **A text whose parentheses match is laid out.** -/
theorem laidOut_layoutFrom (h : balancedFrom depth t = true) :
    LaidOut depth t (layoutFrom depth t).1 (layoutFrom depth t).2 := by
  induction t generalizing depth with
  | nil =>
    have hdepth : depth = 0 := by simpa [balancedFrom] using h
    subst hdepth
    exact ⟨rfl, nofun, nofun, nofun, nofun, nofun, nofun, fun _ => rfl, fun _ => rfl⟩
  | cons c t ih =>
    rw [balancedFrom, Bool.and_eq_true] at h
    obtain ⟨hclose, hrest⟩ := h
    have ih := ih hrest
    rw [layoutFrom]
    rcases hlayout : layoutFrom (depthAfter depth c) t with ⟨lead, words⟩
    rw [hlayout] at ih
    dsimp only at ih ⊢
    split
    · next hc =>
      obtain ⟨hdepth, hblank⟩ := isOuterBlank_iff.mp hc
      rw [depthAfter_of_isBlank hblank, hdepth] at ih
      exact ih.blank hc
    · next hc =>
      have hsolid : ∀ word, solidFrom (depthAfter depth c) word = true →
          solidFrom depth (c :: word) = true := by
        intro word hword
        rw [solidFrom, hword, hclose, Bool.eq_false_iff.mpr hc]
        rfl
      split
      · exact ih.extend (hsolid _)
      · next hnew =>
        refine ih.begin (fun hlead => ?_) (hsolid [])
        cases words with
        | nil => rfl
        | cons word words => exact absurd rfl (hnew word.1 word.2 words hlead)

/-! ## Reading backward -/

/-- A character that is read backward takes the count to where it was before the character. -/
theorem spanWord_depthAfter (hblank : isOuterBlank depth c = false) (hclose : c = ')' → depth ≠ 0)
    (rest : Text) :
    spanWord (depthAfter depth c) (c :: rest) =
      (c :: (spanWord depth rest).1, (spanWord depth rest).2) := by
  rw [spanWord, depthAfter]
  by_cases hc : c = ')'
  · have hdepth : depth - 1 + 1 = depth := Nat.succ_pred_eq_of_ne_zero (hclose hc)
    rw [if_pos hc, if_neg (by rw [hc]; decide), if_pos hc, hdepth]
  · by_cases hopen : c = '('
    · rw [if_neg hc, if_pos hopen, if_pos hopen, Nat.add_sub_cancel]
    · have hstay : ¬(isBlank c && depth == 0) = true := by
        rw [Bool.and_comm]
        exact Bool.eq_false_iff.mp hblank
      rw [if_neg hc, if_neg hopen, if_neg hopen, if_neg hc, if_neg hstay]

/-- **Read backward, a word goes on to where it starts when it is read forward.** -/
theorem spanWord_reverse_append (h : solidFrom depth t = true) (rest : Text) :
    spanWord 0 (t.reverse ++ rest) =
      (t.reverse ++ (spanWord depth rest).1, (spanWord depth rest).2) := by
  induction t generalizing depth rest with
  | nil =>
    have hdepth : depth = 0 := by simpa [solidFrom] using h
    rw [hdepth]
    rfl
  | cons c t ih =>
    obtain ⟨hblank, hclose, hrest⟩ := solidFrom_cons_iff.mp h
    rw [List.reverse_cons, List.append_assoc, List.singleton_append, ih hrest,
      spanWord_depthAfter hblank hclose, List.append_assoc, List.singleton_append]

/-- A word does not end with a blank. -/
theorem not_isBlank_of_solidFrom (h : solidFrom depth t = true) :
    ∀ c ∈ t.getLast?, isBlank c = false := by
  induction t generalizing depth with
  | nil => exact nofun
  | cons c t ih =>
    obtain ⟨hblank, -, hrest⟩ := solidFrom_cons_iff.mp h
    cases t with
    | nil =>
      intro d hd
      obtain rfl : c = d := Option.some.inj hd
      rw [Bool.eq_false_iff]
      intro hc
      have hdepth : depthAfter depth c = 0 := by simpa [solidFrom] using hrest
      rw [depthAfter_of_isBlank hc] at hdepth
      exact Bool.eq_false_iff.mp hblank (isOuterBlank_iff.mpr ⟨hdepth, hc⟩)
    | cons d t =>
      rw [List.getLast?_cons_cons]
      exact ih hrest

/-- The last word of a stretch is found, with the blanks after it, if blanks are before it. -/
theorem lastWord?_append {front word gap : Text} (hfront : ∀ c ∈ front.getLast?, isBlank c = true)
    (hword : solidFrom 0 word = true) (hne : word ≠ []) (hgap : ∀ c ∈ gap, isBlank c = true) :
    lastWord? (front ++ (word ++ gap)) = some (word, front) := by
  have hbackward : trimStart (front ++ (word ++ gap)).reverse = word.reverse ++ front.reverse := by
    rw [List.reverse_append, List.reverse_append, List.append_assoc]
    refine trimStart_blanks_append (fun c hc => hgap c (List.mem_reverse.mp hc)) fun c hc => ?_
    rw [List.head?_append_of_ne_nil _ (List.reverse_ne_nil_iff.mpr hne), List.head?_reverse] at hc
    exact not_isBlank_of_solidFrom hword c hc
  have hstop : spanWord 0 front.reverse = ([], front.reverse) := by
    rw [← List.head?_reverse] at hfront
    cases hback : front.reverse with
    | nil => rfl
    | cons c rest =>
      have hc : isBlank c = true := hfront c (by rw [hback]; rfl)
      unfold spanWord
      rw [if_neg (by rintro rfl; exact absurd hc (by decide)),
        if_neg (by rintro rfl; exact absurd hc (by decide)), hc]
      rfl
  have hsome : ¬(word.reverse ++ front.reverse).isEmpty = true := by
    rw [List.isEmpty_iff, List.append_eq_nil_iff, List.reverse_eq_nil_iff]
    exact fun h => hne h.1
  unfold lastWord?
  rw [hbackward]
  dsimp only
  rw [if_neg hsome, spanWord_reverse_append hword, hstop, List.append_nil, List.reverse_reverse,
    List.reverse_reverse]

/-- Blanks have no word. -/
theorem lastWord?_of_blank (h : ∀ c ∈ t, isBlank c = true) : lastWord? t = none := by
  have hbackward : trimStart t.reverse = [] := by
    have h := trimStart_blanks_append (t := []) (fun c hc => h c (List.mem_reverse.mp hc)) nofun
    rwa [List.append_nil] at h
  unfold lastWord?
  rw [hbackward]
  rfl

/-! ## What stays -/

/-- A word has as many parentheses open after it as before it, and no blank outside of them. -/
theorem balancedFrom_of_solidFrom (h : solidFrom depth t = true) : balancedFrom depth t = true := by
  induction t generalizing depth with
  | nil => exact h
  | cons c t ih =>
    rw [solidFrom, Bool.and_eq_true, Bool.and_eq_true] at h
    rw [balancedFrom, h.1.2, ih h.2]
    rfl

theorem pos_of_solidFrom (h : solidFrom depth t = true) {a b : Text} (ht : t = a ++ c :: b)
    (hc : isBlank c = true) : 0 < a.foldl depthAfter depth := by
  induction a generalizing depth t with
  | nil =>
    subst ht
    obtain ⟨hblank, -, -⟩ := solidFrom_cons_iff.mp h
    rw [List.foldl_nil, Nat.pos_iff_ne_zero]
    exact fun hdepth => Bool.eq_false_iff.mp hblank (isOuterBlank_iff.mpr ⟨hdepth, hc⟩)
  | cons d a ih =>
    subst ht
    exact ih (solidFrom_cons_iff.mp h).2.2 rfl

section Balanced

variable {n : Nat} (h : balancedFrom 0 t = true)
include h

theorem solidFrom_of_mem_layout {word : Text × Text} (hword : word ∈ (layoutFrom 0 t).2) :
    solidFrom 0 word.1 = true := by
  have hlaid := laidOut_layoutFrom h
  cases hwords : (layoutFrom 0 t).2 with
  | nil =>
    rw [hwords] at hword
    exact nomatch hword
  | cons first later =>
    rw [hwords] at hlaid hword
    rcases List.mem_cons.mp hword with rfl | hlater
    · exact hlaid.first_solid _ rfl
    · exact hlaid.later_solid _ hlater

theorem solidFrom_of_mem_outerWords {word : Text} (hword : word ∈ outerWords t) :
    word ≠ [] ∧ solidFrom 0 word = true := by
  obtain ⟨entry, hentry, rfl⟩ := List.mem_map.mp hword
  exact ⟨(laidOut_layoutFrom h).word_ne_nil entry hentry, solidFrom_of_mem_layout h hentry⟩

omit h in
theorem keep_succ (hn : n < (layoutFrom 0 t).2.length) :
    keep (n + 1) t = keep n t ++ ((layoutFrom 0 t).2[n].1 ++ (layoutFrom 0 t).2[n].2) := by
  unfold keep
  rw [List.take_add_one, List.getElem?_eq_getElem hn, Option.toList_some, List.flatMap_append,
    List.flatMap_singleton, List.append_assoc]

/-- There are blanks before a word. -/
theorem isBlank_of_getLast?_keep (hn : n < (layoutFrom 0 t).2.length) :
    ∀ c ∈ (keep n t).getLast?, isBlank c = true := by
  have hlaid := laidOut_layoutFrom h
  intro c hc
  cases n with
  | zero =>
    rw [keep, List.take_zero, List.flatMap_nil, List.append_nil] at hc
    exact hlaid.lead_blank c (List.mem_of_getLast? hc)
  | succ n =>
    have hlt : n < (layoutFrom 0 t).2.dropLast.length := by
      rw [List.length_dropLast]
      omega
    have hmem : (layoutFrom 0 t).2[n] ∈ (layoutFrom 0 t).2.dropLast := by
      rw [← List.getElem_dropLast hlt]
      exact List.getElem_mem hlt
    rw [keep_succ (Nat.lt_of_succ_lt hn), ← List.append_assoc,
      List.getLast?_append_of_ne_nil _ (hlaid.gap_ne_nil _ hmem)] at hc
    exact hlaid.gap_blank _ (List.getElem_mem _) c (List.mem_of_getLast? hc)

/-- **The last word of what was kept is the last of the words that were kept.** -/
theorem lastWord?_keep_succ (hn : n < (outerWords t).length) :
    lastWord? (keep (n + 1) t) = some ((outerWords t)[n], keep n t) := by
  have hlaid := laidOut_layoutFrom h
  have hn' : n < (layoutFrom 0 t).2.length := by rwa [outerWords, List.length_map] at hn
  have hmem := List.getElem_mem hn'
  rw [keep_succ hn', lastWord?_append (isBlank_of_getLast?_keep h hn')
    (solidFrom_of_mem_layout h hmem) (hlaid.word_ne_nil _ hmem) (hlaid.gap_blank _ hmem)]
  simp only [outerWords, List.getElem_map]

theorem lastWord?_keep_zero : lastWord? (keep 0 t) = none := by
  rw [keep, List.take_zero, List.flatMap_nil, List.append_nil]
  exact lastWord?_of_blank (laidOut_layoutFrom h).lead_blank

theorem keep_of_length_le (hn : (outerWords t).length ≤ n) : keep n t = t := by
  rw [outerWords, List.length_map] at hn
  rw [keep, List.take_of_length_le hn]
  exact (laidOut_layoutFrom h).text_eq.symm

end Balanced

end Text

/-! ## Texts that are one group -/

namespace Group

open Text (balancedFrom depthAfter)

/-- A text whose parentheses match is closed by what follows. -/
theorem cutClose_of_balancedFrom {depth : Nat} {t : Text} (h : balancedFrom depth t = true)
    (rest : Text) : cutClose (depth + 1) (t ++ ')' :: rest) = some (t, rest) := by
  induction t generalizing depth with
  | nil =>
    obtain rfl : depth = 0 := by simpa [balancedFrom] using h
    rfl
  | cons c t ih =>
    rw [balancedFrom, Bool.and_eq_true, Bool.or_eq_true, bne_iff_ne, bne_iff_ne] at h
    have ih := ih h.2
    rw [List.cons_append]
    by_cases hopen : c = '('
    · subst hopen
      rw [depthAfter, if_pos rfl] at ih
      rw [cutClose, ih, Option.map_some]
    · by_cases hclose : c = ')'
      · subst hclose
        have hdepth : depth ≠ 0 := h.1.resolve_left fun hne => hne rfl
        rw [depthAfter, if_neg hopen, if_pos rfl, Nat.sub_add_cancel (Nat.pos_of_ne_zero hdepth)]
          at ih
        rw [cutClose, if_neg (by omega), Nat.add_sub_cancel, ih, Option.map_some]
      · rw [depthAfter, if_neg hopen, if_neg hclose] at ih
        rw [cutClose, ih, Option.map_some]
        · exact hopen
        · exact hclose

/-- The parentheses of what is cut off match. -/
theorem balancedFrom_of_cutClose {depth : Nat} {t a b : Text}
    (h : cutClose (depth + 1) t = some (a, b)) : balancedFrom depth a = true := by
  induction t generalizing depth a with
  | nil => exact nomatch h
  | cons c t ih =>
    have hcons : ∀ {level : Nat}, depthAfter depth c = level → (c = ')' → depth ≠ 0) →
        (cutClose (level + 1) t).map (fun cut => (c :: cut.1, cut.2)) = some (a, b) →
        balancedFrom depth a = true := by
      rintro _ rfl hclose h
      obtain ⟨⟨x, y⟩, hcut, heq⟩ := Option.map_eq_some_iff.mp h
      obtain ⟨rfl, rfl⟩ := Prod.mk.inj heq
      rw [balancedFrom, ih hcut, Bool.and_true, Bool.or_eq_true, bne_iff_ne, bne_iff_ne]
      exact imp_iff_not_or.mp hclose
    by_cases hopen : c = '('
    · subst hopen
      rw [cutClose] at h
      exact hcons rfl (fun h => absurd h (by decide)) h
    · by_cases hclose : c = ')'
      · subst hclose
        rw [cutClose] at h
        cases depth with
        | zero =>
          obtain ⟨rfl, -⟩ := Prod.mk.inj (Option.some.inj h)
          rfl
        | succ depth =>
          rw [if_neg (by omega)] at h
          exact hcons rfl (fun _ => Nat.succ_ne_zero depth) h
      · rw [cutClose] at h
        · refine hcons ?_ (fun h => absurd h hclose) h
          rw [depthAfter, if_neg hopen, if_neg hclose]
        · exact hopen
        · exact hclose

/-- **A text is one group if parentheses that match are between one that opens and one that
closes.** -/
theorem wrapped?_eq_some_iff {t inner : Text} :
    wrapped? t = some inner ↔ t = '(' :: (inner ++ [')']) ∧ balancedFrom 0 inner = true := by
  constructor
  · intro h
    unfold wrapped? at h
    split at h
    · split at h
      · next hcut =>
        obtain rfl := Option.some.inj h
        exact ⟨congrArg _ (eq_append_of_cutClose hcut), balancedFrom_of_cutClose hcut⟩
      · exact nomatch h
    · exact nomatch h
  · rintro ⟨rfl, hinner⟩
    rw [wrapped?, cutClose_of_balancedFrom hinner]

end Group

/-! ## Stretches -/

open Text (balancedFrom outerWords keep)

/-- Stretches up to the first words of all of them. -/
def keepWords : Nat → List Text → List Text
  | _, [] => []
  | n, t :: ts => keep n t :: keepWords (n - (outerWords t).length) ts

theorem length_keepWords (n : Nat) (ts : List Text) : (keepWords n ts).length = ts.length := by
  induction ts generalizing n with
  | nil => rfl
  | cons t ts ih => rw [keepWords, List.length_cons, List.length_cons, ih]

variable {ts : List Text} {n : Nat}

theorem keepWords_of_length_le (h : ∀ t ∈ ts, balancedFrom 0 t = true)
    (hn : (ts.flatMap outerWords).length ≤ n) : keepWords n ts = ts := by
  induction ts generalizing n with
  | nil => rfl
  | cons t ts ih =>
    rw [List.flatMap_cons, List.length_append] at hn
    obtain ⟨ht, hts⟩ := List.forall_mem_cons.mp h
    rw [keepWords, Text.keep_of_length_le ht (by omega), ih hts (by omega)]

theorem takeFromLast?_keepWords_zero (h : ∀ t ∈ ts, balancedFrom 0 t = true) :
    takeFromLast? (keepWords 0 ts) = none := by
  induction ts with
  | nil => rfl
  | cons t ts ih =>
    obtain ⟨ht, hts⟩ := List.forall_mem_cons.mp h
    rw [keepWords, Nat.zero_sub, takeFromLast?, ih hts, Text.lastWord?_keep_zero ht]
    rfl

/-- **The word that is taken from what was kept is the last of the words that were kept.** -/
theorem takeFromLast?_keepWords (h : ∀ t ∈ ts, balancedFrom 0 t = true)
    (hn : n < (ts.flatMap outerWords).length) :
    takeFromLast? (keepWords (n + 1) ts) =
      some ((ts.flatMap outerWords)[n], keepWords n ts) := by
  induction ts generalizing n with
  | nil => exact absurd hn (Nat.not_lt_zero n)
  | cons t ts ih =>
    obtain ⟨ht, hts⟩ := List.forall_mem_cons.mp h
    rw [keepWords, takeFromLast?]
    by_cases hfirst : n < (outerWords t).length
    · -- all words of the later stretches have been taken
      have hlater : n + 1 - (outerWords t).length = 0 := by omega
      have hlater' : n - (outerWords t).length = 0 := by omega
      rw [hlater, takeFromLast?_keepWords_zero hts, Text.lastWord?_keep_succ ht hfirst, keepWords,
        hlater']
      simp only [Option.map_some, List.flatMap_cons, List.getElem_append_left hfirst]
    · have hfirst := Nat.le_of_not_lt hfirst
      have hlt : n - (outerWords t).length < (ts.flatMap outerWords).length := by
        rw [List.flatMap_cons, List.length_append] at hn
        omega
      have hnext : n + 1 - (outerWords t).length = n - (outerWords t).length + 1 := by omega
      rw [hnext, ih hts hlt, keepWords, Text.keep_of_length_le ht hfirst,
        Text.keep_of_length_le ht (Nat.le_succ_of_le hfirst)]
      simp only [List.flatMap_cons, List.getElem_append_right hfirst]

namespace Surroundings

section Balanced

variable (s : Surroundings) (hlength : s.before.length ≤ ts.length)
  (h : ∀ t ∈ ts, balancedFrom 0 t = true)
include hlength h

theorem takeWord?_refill_keepWords (hn : n < (ts.flatMap outerWords).length) :
    (s.refill (keepWords (n + 1) ts)).takeWord? =
      some ((ts.flatMap outerWords)[n], s.refill (keepWords n ts)) := by
  rw [takeWord?_eq, stretches_refill, takeFromLast?_keepWords h hn, Option.map_some, refill_refill]
  rwa [length_keepWords]

omit hlength in
/-- When all words have been taken there is none. -/
theorem takeWord?_refill_keepWords_zero : (s.refill (keepWords 0 ts)).takeWord? = none := by
  rw [takeWord?_eq, stretches_refill, takeFromLast?_keepWords_zero h, Option.map_none]

/-- **Words are taken from the end, one after another.** -/
theorem takeWords?_refill_keepWords {k : Nat} (hk : k ≤ n)
    (hn : n ≤ (ts.flatMap outerWords).length) :
    takeWords? k (s.refill (keepWords n ts)) =
      some (((ts.flatMap outerWords).take n).reverse.take k,
        s.refill (keepWords (n - k) ts)) := by
  induction k generalizing n with
  | zero => rfl
  | succ k ih =>
    cases n with
    | zero => exact absurd hk (Nat.not_succ_le_zero k)
    | succ n =>
      have hlast : ((ts.flatMap outerWords).take (n + 1)).reverse =
          (ts.flatMap outerWords)[n] :: ((ts.flatMap outerWords).take n).reverse := by
        rw [List.take_add_one, List.getElem?_eq_getElem hn, Option.toList_some,
          List.reverse_concat]
      rw [Nat.succ_sub_succ, hlast, List.take_succ_cons]
      exact takeWords?_succ_eq_some_iff.mpr ⟨_, _, _, s.takeWord?_refill_keepWords hlength h hn,
        ih (Nat.le_of_succ_le_succ hk) (Nat.le_of_succ_le hn), rfl⟩

/-- No more words can be taken than there are. -/
theorem le_of_takeWords?_refill_keepWords {k : Nat} (hn : n ≤ (ts.flatMap outerWords).length)
    {ws : List Text} {left : Surroundings}
    (htaken : takeWords? k (s.refill (keepWords n ts)) = some (ws, left)) : k ≤ n := by
  induction k generalizing n ws with
  | zero => exact Nat.zero_le n
  | succ k ih =>
    obtain ⟨word, rest, words, hword, hwords, -⟩ := takeWords?_succ_eq_some_iff.mp htaken
    cases n with
    | zero =>
      rw [s.takeWord?_refill_keepWords_zero h] at hword
      exact nomatch hword
    | succ n =>
      rw [s.takeWord?_refill_keepWords hlength h hn] at hword
      obtain ⟨-, rfl⟩ := Prod.mk.inj (Option.some.inj hword)
      exact Nat.succ_le_succ (ih (Nat.le_of_succ_le hn) hwords)

end Balanced

variable (s : Surroundings) (h : ∀ t ∈ s.stretches, balancedFrom 0 t = true) {k : Nat}

theorem length_before_le (s : Surroundings) : s.before.length ≤ s.stretches.length := by
  unfold stretches
  rw [List.length_append, List.length_reverse]
  exact Nat.le_add_right _ _

include h

theorem refill_keepWords_length :
    s.refill (keepWords (s.stretches.flatMap outerWords).length s.stretches) = s := by
  rw [keepWords_of_length_le h le_rfl, refill_stretches]

/-- **The words that are taken are the last of the text, the last one first.** -/
theorem takeWords?_eq_some (hk : k ≤ (s.stretches.flatMap outerWords).length) :
    s.takeWords? k = some ((s.stretches.flatMap outerWords).reverse.take k,
      s.refill (keepWords ((s.stretches.flatMap outerWords).length - k) s.stretches)) := by
  have htaken := s.takeWords?_refill_keepWords s.length_before_le h hk le_rfl
  rwa [s.refill_keepWords_length h, List.take_length] at htaken

theorem le_of_takeWords? {ws : List Text} {left : Surroundings}
    (htaken : s.takeWords? k = some (ws, left)) :
    k ≤ (s.stretches.flatMap outerWords).length := by
  rw [← s.refill_keepWords_length h] at htaken
  exact s.le_of_takeWords?_refill_keepWords s.length_before_le h le_rfl htaken

end Surroundings

end DiceNotation
