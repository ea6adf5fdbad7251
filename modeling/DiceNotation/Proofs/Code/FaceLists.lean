import Mathlib
import DiceNotation.Proofs.Code.Collapse
import DiceNotation.Proofs.Code.Encoding
import DiceNotation.Proofs.Failure

/-!
# Codes of given faces

An amount can be a list of faces between brackets.  What comes behind it is then less than what can
come behind a count: sides, dropped faces and the wish to sort are looked for behind a digit or a
dash only (sides also behind a blank), and no bracket is among these.  Whichever of the three comes
first stands behind the bracket and is not found, so that it is left over; ranks, a suffix and bangs
are found as ever (`face_lists_are_read`).

That it is not found is seen from the layout of a code that is read: the first mark of a rule is
where the part of the rule begins, and what is before it has to be such that the part fits there
(`fits_of_mark`).

* `fits_of_mark`, `Layout.rule_eq_of_key`.
* `Recipe.Lists`, `Recipe.IsBare`; `Recipe.Lists.read_text`, `Recipe.Lists.nothing_before_suffix`.
* `face_lists_are_read`.
-/

namespace DiceNotation.DiceCode

open Text

/-! ## Codes that are read -/

/-- **The first mark of a rule is the beginning of its part**, and what is before it lets the part
fit there. -/
theorem fits_of_mark {t front rest : Text} {p : Parameters} {c : Char} {r : Rule}
    (h : read t = .ok p) (ht : trim t = front ++ c :: rest) (hc : mark? c = some r)
    (hr : r.isLate = true) (hfront : ∀ d ∈ front, mark? d ≠ some r) :
    ∃ x b, Fits r front x b := by
  obtain ⟨ps, hlayout, hrender, -⟩ := read_eq_ok_iff_exists_layout.mp h
  rw [ht] at hrender
  have hmem : c ∈ render ps := hrender ▸ List.mem_append_right front List.mem_cons_self
  obtain ⟨q, hq, rfl, -⟩ := exists_of_mark hmem hc
  obtain ⟨before, after, hps⟩ := List.append_of_mem hq
  obtain ⟨hfits, hbefore, -⟩ := hlayout.fits hps
  obtain ⟨d, u, htext, hd⟩ := q.writes.exists_mark hr
  have hsplit : front ++ c :: rest =
      render before ++ q.gap ++ d :: (u ++ render after) := by
    rw [hrender, Layout.render_split hps, htext, List.cons_append]
  -- both are cuts at the first mark
  have hcut : ∀ {a : Text} {e : Char}, (∀ d ∈ a, mark? d ≠ some q.rule) →
      mark? e = some q.rule → ∀ b, cutFirst (fun d => mark? d == some q.rule) (a ++ e :: b) =
        some (a, b) := fun ha he b =>
    cutFirst_append (fun d hd => beq_eq_false_iff_ne.mpr (ha d hd)) (beq_iff_eq.mpr he) b
  have hfirst := hcut hfront hc rest
  rw [hsplit, hcut hbefore hd] at hfirst
  obtain ⟨rfl, -⟩ := Prod.mk.inj (Option.some.inj hfirst)
  exact ⟨_, _, hfits⟩

/-- Two parts of a code that set the same key are parts of one rule. -/
theorem Layout.rule_eq_of_key {ps : List Piece} (h : Layout ps) {p q : Piece} (hp : p ∈ ps)
    (hq : q ∈ ps) {k : Key} (hkp : k ∈ p.rule.keys) (hkq : k ∈ q.rule.keys) : p.rule = q.rule := by
  by_contra hne
  have hdistinct := h.distinct
  unfold Setting.Distinct at hdistinct
  rw [List.map_flatMap] at hdistinct
  have hsymm :
      Std.Symm (Function.onFun List.Disjoint fun q : Piece => q.settings.map Setting.key) :=
    ⟨fun _ _ hdisjoint _ hk hk' => hdisjoint hk' hk⟩
  have hdisjoint := (List.nodup_flatMap.mp hdistinct).2.forall hp hq
    fun heq => hne (congrArg Piece.rule heq)
  rw [← p.writes.keys_eq] at hkp
  rw [← q.writes.keys_eq] at hkq
  exact hdisjoint hkp hkq

/-! ## Recipes for given faces -/

theorem writes_faces_render {faces : List Int} (h : ∀ n ∈ faces, Whole.fits n = true) :
    Writes .literal (Amount.faces faces).text [.amount (.faces faces)] := by
  cases faces with
  | nil =>
    have hnone : List.Forall₂ Face [[]] [none] :=
      .cons (.blank fun _ hc => absurd hc List.not_mem_nil) .nil
    exact writes_faces (List.cons_ne_nil _ _) hnone
  | cons n faces =>
    have hfaces : List.Forall₂ Face ((n :: faces).map Whole.render) ((n :: faces).map some) := by
      rw [List.forall₂_map_left_iff, List.forall₂_map_right_iff, List.forall₂_same]
      exact fun m hm => face_of_usable (spells_render (h m hm)).usable_eq
    have hwrites := writes_faces (List.cons_ne_nil _ _) hfaces
    rwa [List.reduceOption, List.filterMap_map, Function.id_comp, List.filterMap_some] at hwrites

/-- A suffix begins with a mark of a rule that sets the reduction. -/
theorem Suffix.exists_mark (s : Suffix) :
    ∃ c t r, s.text = c :: t ∧ mark? c = some r ∧ r.isLate = true ∧ Key.reduction ∈ r.keys := by
  cases s with
  | threshold ones n =>
    cases ones with
    | true => exact ⟨'f', _, .threshold, rfl, rfl, rfl, by decide⟩
    | false => exact ⟨'e', _, .threshold, rfl, rfl, rfl, by decide⟩
  | _ => exact ⟨_, _, .suffix, rfl, rfl, rfl, by decide⟩

namespace Recipe

/-- A recipe for given faces: its numbers are in the range, and those that have no sign are not
negative. -/
structure Lists (r : Recipe) (faces : List Int) : Prop where
  amount : r.amount = .faces faces
  faces : ∀ n ∈ faces, Whole.fits n = true
  ranks : ∀ l ∈ r.ranks, ∀ n ∈ l.1 :: l.2, Whole.fits n = true
  sides : ∀ n ∈ r.sides, 0 ≤ n ∧ Whole.fits n = true
  rerolls : ∀ n ∈ r.rerolls, Whole.fits n = true
  suffix : ∀ s ∈ r.suffix, ∀ n ∈ s.difficulty?, 0 ≤ n ∧ Whole.fits n = true

/-- Nothing comes between the amount and the suffix, and there are not both ranks and a suffix. -/
structure IsBare (r : Recipe) : Prop where
  sides : r.sides = none
  rerolls : r.rerolls = none
  sort : r.sort = false
  exclusive : r.ranks = none ∨ r.suffix = none

/-- What comes before the amount, as a recipe of its own. -/
def front (r : Recipe) : Recipe where
  ranks := r.ranks
  amount := .count 0

/-- What comes behind the amount, as a recipe of its own. -/
def tail (r : Recipe) : Recipe := { r with ranks := none, amount := .count 0 }

variable {r : Recipe} {faces : List Int}

/-- What comes between the amount and the suffix begins with the mark of a part for which there is
no place behind a bracket. -/
theorem exists_late_mark (h : ¬(r.sides = none ∧ r.rerolls = none ∧ r.sort = false)) :
    ∃ c rest ρ, r.sidesText ++ (r.rerollsText ++ (r.sortText ++ (r.suffixText ++ r.bangsText))) =
      c :: rest ∧ mark? c = some ρ ∧ ρ.isLate = true ∧
      ∀ a x b, Fits ρ a x b → EndsWith isLoose a := by
  unfold sidesText rerollsText sortText
  cases hsides : r.sides with
  | some n => exact ⟨'d', _, .sides, rfl, rfl, rfl, fun _ _ _ hfits => hfits.1⟩
  | none =>
    cases hrerolls : r.rerolls with
    | some n => exact ⟨'r', _, .rerolls, rfl, rfl, rfl, fun _ _ _ hfits => hfits.1.isLoose⟩
    | none =>
      cases hsort : r.sort with
      | true =>
        exact ⟨'s', _, .sort, rfl, rfl, rfl, fun _ _ _ hfits => EndsWith.isLoose hfits⟩
      | false => exact absurd ⟨hsides, hrerolls, hsort⟩ h

namespace Lists

theorem sound_front (h : r.Lists faces) : r.front.Sound where
  ranks := h.ranks
  amount := Or.inl ⟨0, rfl, rfl⟩
  sides _ hn := nomatch hn
  rerolls _ hn := nomatch hn
  suffix _ hs := nomatch hs
  exclusive := Or.inr rfl

theorem sound_tail (h : r.Lists faces) : r.tail.Sound where
  ranks _ hl := nomatch hl
  amount := Or.inl ⟨0, rfl, rfl⟩
  sides := h.sides
  rerolls := h.rerolls
  suffix := h.suffix
  exclusive := Or.inl rfl

theorem writes_amount (h : r.Lists faces) :
    Writes .literal r.amount.text [.amount r.amount] := by
  rw [h.amount]
  exact writes_faces_render h.faces

theorem not_isBlank_amount (h : r.Lists faces) : ∀ c ∈ r.amount.text, isBlank c = false := by
  rw [h.amount, Amount.text]
  intro c hc
  rcases List.mem_append.mp hc with hc | hc
  · rcases List.mem_cons.mp hc with rfl | hc
    · decide
    · exact forall_mem_join (forall₂_render h.faces) (p := fun c => isBlank c = false) (by decide) c
        hc
  · rw [List.mem_singleton.mp hc]
    decide

theorem not_isBlank_text (h : r.Lists faces) : ∀ c ∈ r.text, isBlank c = false := by
  intro c hc
  rcases List.mem_append.mp hc with hc | hc
  · exact Recipe.not_isBlank_text h.sound_front c (List.mem_append_left _ hc)
  rcases List.mem_append.mp hc with hc | hc
  · exact h.not_isBlank_amount c hc
  · exact Recipe.not_isBlank_text h.sound_tail c
      (List.mem_append_right (tail r).ranksText (List.mem_append_right (tail r).amount.text hc))

theorem trim_text (h : r.Lists faces) : trim r.text = r.text :=
  trim_of_not_blank (fun c hc => h.not_isBlank_text c (List.mem_of_head? hc))
    fun c hc => h.not_isBlank_text c (List.mem_of_getLast? hc)

/-! ### Bare recipes -/

/-- The parts of a bare recipe go together. -/
theorem lays_text (h : r.Lists faces) (hbare : r.IsBare) :
    Lays r.text r.settings fun a b => a = [] ∧ b = [] := by
  have hranks : Lays r.ranksText r.ranksSettings fun a _ => a = [] :=
    lays_ranks (r := r.front) h.sound_front
  have hamount : Lays r.amount.text [.amount r.amount]
      fun a b => Placed a (r.amount.text ++ b) ∧ endsLiteral b = true :=
    Lays.part h.writes_amount fun _ _ hab => hab
  have hsuffix : MayWrite r.suffixText r.suffixSettings fun _ b => ∀ c ∈ b, c = '!' :=
    mayWrite_suffix (r := r.tail) h.sound_tail
  have hbangs := mayWrite_bangs r
  have hat : '@' ∉ r.amount.text ++ (r.suffixText ++ r.bangsText) := by
    simp only [List.mem_append, not_or]
    exact ⟨fun hmem => (nomatch h.writes_amount.eq_of_mark hmem rfl), hsuffix.at_notMem,
      hbangs.at_notMem⟩
  have hplaced : Placed r.ranksText (r.amount.text ++ (r.suffixText ++ r.bangsText)) :=
    placed_ranksText (r := r.front) h.sound_front hat
  have hends := endsLiteral_append hsuffix.endsLiteral hbangs.endsLiteral
  have htext : r.text = r.ranksText ++ (r.amount.text ++ (r.suffixText ++ r.bangsText)) := by
    unfold text sidesText rerollsText sortText
    rw [hbare.sides, hbare.rerolls, hbare.sort]
    rfl
  have hsettings : r.settings =
      r.ranksSettings ++ ([.amount r.amount] ++ (r.suffixSettings ++ r.bangsSettings)) := by
    unfold settings sidesSettings rerollsSettings sortSettings
    rw [hbare.sides, hbare.rerolls, hbare.sort]
    rfl
  rw [htext, hsettings]
  refine (hranks.append (hamount.append (hsuffix.lays.append hbangs.lays))).mono ?_
  rintro _ _ ⟨rfl, rfl⟩
  simp only [List.append_nil, List.nil_append]
  exact ⟨trivial, ⟨hplaced, hends⟩, fun c hc => (List.mem_replicate.mp hc).2, trivial⟩

theorem read_text (h : r.Lists faces) (hbare : r.IsBare) : read r.text = .ok r.parameters :=
  (h.lays_text hbare).read ⟨rfl, rfl⟩ h.not_isBlank_text (distinct_of_exclusive hbare.exclusive)
    (ofSettings?_of_exclusive hbare.exclusive)

/-! ### Recipes that are not bare -/

/-- No mark of what comes behind the amount is in front of it. -/
theorem mark?_ne (h : r.Lists faces) {ρ : Rule} (hρ : ρ.isLate = true) :
    ∀ c ∈ r.ranksText ++ r.amount.text, mark? c ≠ some ρ := by
  intro c hc hmark
  rcases List.mem_append.mp hc with hc | hc
  · unfold ranksText at hc
    cases hranks : r.ranks with
    | none =>
      rw [hranks] at hc
      exact nomatch hc
    | some l =>
      rw [hranks] at hc
      obtain rfl :=
        (Writes.selectors (forall₂_render (h.ranks l hranks))).eq_of_mark hc hmark
      exact nomatch hρ
  · exact Rule.ne_literal hρ (h.writes_amount.eq_of_mark hc hmark)

/-- Behind the bracket nothing is found but a suffix and bangs. -/
theorem nothing_before_suffix (h : r.Lists faces) {p : Parameters} (hread : read r.text = .ok p) :
    r.sides = none ∧ r.rerolls = none ∧ r.sort = false := by
  by_contra hnot
  obtain ⟨c, rest, ρ, heq, hc, hρ, hfits⟩ := exists_late_mark hnot
  have htext : trim r.text = r.ranksText ++ r.amount.text ++ c :: rest := by
    rw [h.trim_text, text, heq, List.append_assoc]
  obtain ⟨x, b, hfit⟩ := fits_of_mark hread htext hc hρ (h.mark?_ne hρ)
  have hends := hfits _ _ _ hfit
  rw [h.amount, Amount.text, ← List.append_assoc, endsWith_concat_iff] at hends
  exact absurd hends (by decide)

/-- Ranks and a suffix set the same key. -/
theorem exclusive_of_read (h : r.Lists faces) {p : Parameters} (hread : read r.text = .ok p) :
    r.ranks = none ∨ r.suffix = none := by
  rcases Option.eq_none_or_eq_some r.ranks with hranks | ⟨l, hranks⟩
  · exact Or.inl hranks
  rcases Option.eq_none_or_eq_some r.suffix with hsuffix | ⟨s, hsuffix⟩
  · exact Or.inr hsuffix
  obtain ⟨ps, hlayout, hrender, -⟩ := read_eq_ok_iff_exists_layout.mp hread
  rw [h.trim_text] at hrender
  obtain ⟨c, t, ρ, hs, hc, hρ, hkey⟩ := s.exists_mark
  have hat : '@' ∈ render ps := by
    have hlast : '@' ∈ r.ranksText := by
      rw [ranksText, hranks]
      exact List.mem_append_right _ List.mem_cons_self
    rw [← hrender]
    exact List.mem_append_left _ hlast
  have hmem : c ∈ render ps := by
    have hfirst : c ∈ r.suffixText := by
      rw [suffixText, hsuffix, Option.elim_some, hs]
      exact List.mem_cons_self
    rw [← hrender, text]
    simp only [List.mem_append, hfirst, true_or, or_true]
  obtain ⟨q, hq, hrule, -⟩ := exists_of_mark hat rfl
  obtain ⟨q', hq', hrule', -⟩ := exists_of_mark hmem hc
  have heq := hlayout.rule_eq_of_key (k := .reduction) hq hq' (hrule ▸ by decide) (hrule' ▸ hkey)
  rw [hrule, hrule'] at heq
  rw [← heq] at hρ
  exact nomatch hρ

end Lists

end Recipe

/-- **Given faces take ranks or a suffix, and bangs, and nothing else.**  Without sides, dropped
faces and the wish to sort, and without both ranks and a suffix, the code of a recipe for given faces
is read as what the recipe says; with any of these it is not read. -/
theorem face_lists_are_read {r : Recipe} {faces : List Int} (h : r.Lists faces) :
    (read r.text = .ok r.parameters ↔ r.IsBare) ∧
    (¬r.IsBare → ∃ e, read r.text = .error e ∧ e.category = .usage) := by
  have hbare : ∀ {p}, read r.text = .ok p → r.IsBare := fun hread =>
    have ⟨hsides, hrerolls, hsort⟩ := h.nothing_before_suffix hread
    ⟨hsides, hrerolls, hsort, h.exclusive_of_read hread⟩
  refine ⟨⟨hbare, h.read_text⟩, fun hnot => ?_⟩
  cases hread : read r.text with
  | ok p => exact absurd (hbare hread) hnot
  | error e => exact ⟨e, rfl, failsOnly_usage_readWith Rule.all _ e hread⟩

/-- Two faces are read with ranks and bangs. -/
theorem face_lists_are_read_with_ranks :
    Recipe.Lists { ranks := some (2, [-1]), amount := .faces [3, -4], bangs := 2 } [3, -4] ∧
    read "2,-1@[3,-4]!!".toList = .ok
      { amount := .faces [3, -4], explosion := 2, reduction := some (.ranks 2 [-1]) } := by
  have hlists :
      Recipe.Lists { ranks := some (2, [-1]), amount := .faces [3, -4], bangs := 2 } [3, -4] :=
    { amount := rfl
      faces := by decide
      ranks := by rintro _ ⟨⟩; decide
      sides := fun _ hn => nomatch hn
      rerolls := fun _ hn => nomatch hn
      suffix := fun _ hs => nomatch hs }
  have htext : "2,-1@[3,-4]!!".toList =
      Recipe.text { ranks := some (2, [-1]), amount := .faces [3, -4], bangs := 2 } := by decide
  rw [htext]
  exact ⟨hlists, (face_lists_are_read hlists).1.mpr ⟨rfl, rfl, rfl, Or.inr rfl⟩⟩

/-- **What is read behind a count is not read behind given faces.**  The sides in `[1,2]d6` are left
over. -/
theorem not_forall_face_lists_are_read :
    read "[1,2]d6".toList = .error (.leftOver "[1,2]d6".toList "d6".toList) ∧
    read "2d6".toList = .ok { amount := .count 2, sides := some 6 } ∧
    ¬ ∀ (r : Recipe) (faces : List Int), r.Lists faces → r.ranks = none ∨ r.suffix = none →
      read r.text = .ok r.parameters := by
  have hread : read "[1,2]d6".toList = .error (.leftOver "[1,2]d6".toList "d6".toList) := by cbv
  refine ⟨hread, by cbv, fun hall => ?_⟩
  have hlists : Recipe.Lists { amount := .faces [1, 2], sides := some 6 } [1, 2] :=
    { amount := rfl
      faces := by decide
      ranks := fun _ hl => absurd hl (Option.not_mem_none _)
      sides := by rintro _ ⟨⟩; decide
      rerolls := fun _ hn => absurd hn (Option.not_mem_none _)
      suffix := fun _ hs => absurd hs (Option.not_mem_none _) }
  have htext : Recipe.text { amount := .faces [1, 2], sides := some 6 } = "[1,2]d6".toList := by
    decide
  have hok := hall _ _ hlists (Or.inl rfl)
  rw [htext, hread] at hok
  cases hok

end DiceNotation.DiceCode
