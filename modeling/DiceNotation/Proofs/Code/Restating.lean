import DiceNotation.Proofs.Code.Layout

/-!
# What a layout depends on

Whether pieces make a layout depends on their rules, on what they set and on where there are blanks,
and on nothing else (`Layout.restate`): the numbers may be written in other ways, and there may be
more blanks or fewer where there are any.

The reason is that a part is where it fits because of single characters at its ends, and all parts
of a rule that set the same have characters of one kind there (`Writes.replaces`).  Behind the ranks
comes the amount, and what comes behind the amount begins with a mark if not with a blank
(`Laid.isLate`), so it goes on no number and no list of dashes.

* `Leads.of_append`, `Leads.rule_eq`, `Laid.isLate`: the order of the parts.
* `Replaces`, `Writes.replaces`: texts at whose places the same fits.
* `Piece.Restates`, `Layout.restate`.
* `trim_render`: the blanks at the ends.
-/

namespace DiceNotation.DiceCode

open Text

variable {a a' b b' g g' x x' y : Text} {r : Rule} {l : List Setting} {p q : Piece}
variable {ps qs : List Piece}

/-! ## The order of the parts -/

/-- Blanks before an amount can be left out. -/
theorem Leads.of_append (h : Leads (a ++ g)) (hg : ∀ c ∈ g, isBlank c = true) : Leads a := by
  rcases h with hblank | ⟨x, g₀, l, heq, hx, hg₀⟩
  · exact Or.inl fun c hc => hblank c (List.mem_append_left g hc)
  · rcases List.append_eq_append_iff.mp heq with ⟨m, rfl, rfl⟩ | ⟨m, rfl, rfl⟩
    · -- the ranks end with no blank, so nothing of them is among those that are left out
      rcases List.eq_nil_or_concat m with rfl | ⟨m, d, rfl⟩
      · rw [List.append_nil] at hx
        exact Or.inr ⟨a, [], l, (List.append_nil a).symm, hx, fun c hc => nomatch hc⟩
      · have hd : isBlank d = false := by
          refine hx.not_blank_ends.2 d ?_
          rw [List.concat_eq_append, ← List.append_assoc, List.getLast?_concat]
          rfl
        exact nomatch hd.symm.trans (hg d (by simp))
    · exact Or.inr ⟨x, m, l, rfl, hx, fun c hc => hg₀ c (List.mem_append_left g hc)⟩

/-- There may be blanks before an amount. -/
theorem Leads.append (h : Leads a) (hg : ∀ c ∈ g, isBlank c = true) : Leads (a ++ g) := by
  rcases h with hblank | ⟨x, g₀, l, rfl, hx, hg₀⟩
  · refine Or.inl fun c hc => ?_
    rcases List.mem_append.mp hc with hc | hc
    · exact hblank c hc
    · exact hg c hc
  · refine Or.inr ⟨x, g₀ ++ g, l, List.append_assoc x g₀ g, hx, fun c hc => ?_⟩
    rcases List.mem_append.mp hc with hc | hc
    · exact hg₀ c hc
    · exact hg c hc

/-- The only part that comes before an amount is that of the ranks. -/
theorem Leads.rule_eq (h : Leads (a ++ x)) (hx : Writes r x l) : r = .selectors := by
  rcases List.eq_nil_or_concat x with rfl | ⟨w, c, rfl⟩
  · exact absurd rfl hx.ne_nil
  · rw [List.concat_eq_append] at h hx
    have hlast : c ∈ (a ++ (w ++ [c])).getLast? := by
      rw [← List.append_assoc, List.getLast?_concat]
      rfl
    have hc : isBlank c = false := hx.not_blank_ends.2 c (by simp)
    rcases h.last hlast with hblank | rfl
    · exact nomatch hc.symm.trans hblank
    · exact (hx.eq_of_mark (List.mem_append_right w List.mem_cons_self) rfl).symm

/-- **Behind every part but the ranks, all parts are about what comes after the amount.** -/
theorem Laid.isLate (h : Laid a (p :: ps) b) (hp : p.rule ≠ .selectors) :
    ∀ q ∈ ps, q.rule.isLate = true := by
  induction ps generalizing a p with
  | nil => exact fun q hq => nomatch hq
  | cons q ps ih =>
    have hfits := h.2.1
    have hq : q.rule.isLate = true := by
      rcases q.rule.cases_of_place with hrule | hlate | hsets
      · rw [hrule] at hfits
        have hnil : a ++ p.full ++ q.gap = [] := hfits
        have hfull : p.full = [] := (List.append_eq_nil_iff.mp (List.append_eq_nil_iff.mp hnil).1).2
        exact absurd (List.append_eq_nil_iff.mp hfull).2 p.writes.ne_nil
      · exact hlate
      · have hleads : Leads (a ++ p.gap ++ p.text) := by
          rw [List.append_assoc]
          exact (hfits.placed hsets).2.of_append q.blank
        exact absurd (hleads.rule_eq p.writes) hp
    intro q' hq'
    rcases List.mem_cons.mp hq' with rfl | hq'
    · exact hq
    · refine ih h.2 (fun hrule => ?_) q' hq'
      rw [hrule] at hq
      exact absurd hq (by decide)

/-- What a text of such parts begins with. -/
theorem exists_of_isLate (h : ∀ q ∈ ps, q.rule.isLate = true) :
    render ps = [] ∨ ∃ g c t r, render ps = g ++ c :: t ∧ (∀ d ∈ g, isBlank d = true) ∧
      mark? c = some r := by
  cases ps with
  | nil => exact Or.inl rfl
  | cons p ps =>
    obtain ⟨c, t, htext, hc⟩ := p.writes.exists_mark (h p List.mem_cons_self)
    refine Or.inr ⟨p.gap, c, t ++ render ps, p.rule, ?_, p.blank, hc⟩
    rw [render_cons, Piece.full, htext, List.append_assoc, List.cons_append]

theorem endsLiteral_render (h : ∀ q ∈ ps, q.rule.isLate = true) :
    endsLiteral (render ps) = true := by
  rcases exists_of_isLate h with hnil | ⟨g, c, t, r, heq, hg, hc⟩
  · rw [hnil]
    rfl
  · rw [heq]
    cases g with
    | nil =>
      exact forall_of_mark (p := fun c _ => (!isDecimalDigit c && c != '-') = true) (by decide) hc
    | cons d g =>
      exact forall_of_isBlank (p := fun c => (!isDecimalDigit c && c != '-') = true) (by decide)
        (hg d List.mem_cons_self)

theorem at_notMem_render (h : ∀ q ∈ ps, q.rule.isLate = true) : '@' ∉ render ps := by
  intro hat
  obtain ⟨q, hq, hrule, -⟩ := exists_of_mark hat rfl
  have hlate := h q hq
  rw [hrule] at hlate
  exact nomatch hlate

/-! ## Texts in place of one another -/

/-- What fits behind a text or before it fits there if another one takes its place. -/
structure Replaces (t t' : Text) : Prop where
  nil : t = [] → t' = []
  tight : EndsWith isTight t → EndsWith isTight t'
  loose : EndsWith isLoose t → EndsWith isLoose t'
  bangs : (∀ c ∈ t, c = '!') → ∀ c ∈ t', c = '!'

theorem replaces_refl (t : Text) : Replaces t t := ⟨id, id, id, id⟩

theorem Replaces.append (ha : Replaces a a') (hb : Replaces b b') :
    Replaces (a ++ b) (a' ++ b') where
  nil h := by
    obtain ⟨ha₀, hb₀⟩ := List.append_eq_nil_iff.mp h
    rw [ha.nil ha₀, hb.nil hb₀, List.append_nil]
  tight h := by
    rcases h.of_append with ⟨hb₀, h⟩ | h
    · rw [hb.nil hb₀, List.append_nil]
      exact ha.tight h
    · exact (hb.tight h).append a'
  loose h := by
    rcases h.of_append with ⟨hb₀, h⟩ | h
    · rw [hb.nil hb₀, List.append_nil]
      exact ha.loose h
    · exact (hb.loose h).append a'
  bangs h c hc := by
    rcases List.mem_append.mp hc with hc | hc
    · exact ha.bangs (fun d hd => h d (List.mem_append_left b hd)) c hc
    · exact hb.bangs (fun d hd => h d (List.mem_append_right a hd)) c hc

/-- Blanks are in place of blanks. -/
theorem replaces_of_isBlank (hg : ∀ c ∈ g, isBlank c = true) (hg' : ∀ c ∈ g', isBlank c = true)
    (hnil : g' = [] ↔ g = []) : Replaces g g' where
  nil := hnil.mpr
  tight := by
    rintro ⟨c, hc, htight⟩
    have hnot : isTight c = false := forall_of_isBlank (p := fun c => isTight c = false) (by decide)
      (hg c (List.mem_of_getLast? hc))
    exact nomatch hnot.symm.trans htight
  loose := by
    rintro ⟨c, hc, -⟩
    have hne : g' ≠ [] := by
      intro hg₀
      rw [hnil.mp hg₀] at hc
      exact nomatch hc
    exact endsWith_of_forall hne fun d hd =>
      forall_of_isBlank (p := fun c => isLoose c = true) (by decide) (hg' d hd)
  bangs h := by
    have hg₀ : g = [] := by
      refine List.eq_nil_iff_forall_not_mem.mpr fun c hc => ?_
      have hblank := hg c hc
      rw [h c hc] at hblank
      exact absurd hblank (by decide)
    rw [hnil.mpr hg₀]
    exact fun c hc => nomatch hc

namespace Writes

/-- Parts of a rule that set the same end with characters of one kind. -/
theorem endsWith (h : Writes r x l) (h' : Writes r x' l) :
    EndsWith isTight x' ∨ ¬ EndsWith isLoose x := by
  have hnumber : ∀ {w : Text}, Numeral w → ∀ u, EndsWith isTight (u ++ w) := by
    intro w hw u
    exact (endsWith_of_forall hw.ne_nil (hw.forall_mem (by decide))).append u
  cases h with
  | selectors _ =>
    rw [endsWith_concat_iff]
    exact Or.inr (by decide)
  | sides _ _ =>
    cases h' with
    | sides hw _ => exact Or.inl (hnumber hw ['d'])
  | rerolls _ _ _ _ =>
    cases h' with
    | @rerolls c sign w _ _ _ hw _ => exact Or.inl (hnumber hw (c :: sign))
  | sort =>
    rw [← List.nil_append ['s'], endsWith_concat_iff]
    exact Or.inr (by decide)
  | count _ =>
    cases h' with
    | count hx => exact Or.inl (endsWith_of_spells hx)
  | faces _ _ =>
    rw [endsWith_concat_iff]
    exact Or.inr (by decide)
  | back n =>
    cases h' with
    | back _ => exact Or.inl (endsWith_of_forall (List.cons_ne_nil _ _) (by simp [isTight]))
  | suffix hc =>
    rw [← List.nil_append [_], endsWith_concat_iff, Bool.not_eq_true]
    exact Or.inr (forall_of_mark (p := fun c _ => isLoose c = false) (by decide)
      (mark?_eq_suffix_iff.mpr ⟨_, hc⟩))
  | threshold _ _ _ =>
    have hthreshold : ∀ {l : List Setting}, Writes .threshold x' l → EndsWith isTight x' := by
      intro l h'
      cases h' with
      | @threshold c w _ _ hw _ => exact hnumber hw [c]
    exact Or.inl (hthreshold h')
  | bangs n =>
    rw [List.replicate_succ', endsWith_concat_iff]
    exact Or.inr (by decide)

/-- **Parts of a rule that set the same can take each other's place.** -/
theorem replaces (h : Writes r x l) (h' : Writes r x' l) : Replaces x x' where
  nil hx := absurd hx h.ne_nil
  tight hx := (h.endsWith h').resolve_right fun hnot => hnot hx.isLoose
  loose hx := ((h.endsWith h').resolve_right fun hnot => hnot hx).isLoose
  bangs hx := by
    obtain ⟨c, t, rfl⟩ := List.exists_cons_of_ne_nil h.ne_nil
    obtain rfl := hx c List.mem_cons_self
    obtain rfl := h.eq_of_mark List.mem_cons_self rfl
    cases h' with
    | bangs n => exact fun c hc => (List.mem_replicate.mp hc).2

end Writes

/-! ## Pieces in place of one another -/

/-- Pieces of one rule that set the same, both with blanks before them or both without. -/
structure Piece.Restates (p q : Piece) : Prop where
  rule : q.rule = p.rule
  settings : q.settings = p.settings
  gap : q.gap = [] ↔ p.gap = []

theorem Piece.Restates.gap_replaces (h : p.Restates q) : Replaces p.gap q.gap :=
  replaces_of_isBlank p.blank q.blank h.gap

theorem Piece.Restates.text_replaces (h : p.Restates q) : Replaces p.text q.text := by
  have hq := q.writes
  rw [h.rule, h.settings] at hq
  exact p.writes.replaces hq

theorem Piece.Restates.full_replaces (h : p.Restates q) : Replaces p.full q.full :=
  h.gap_replaces.append h.text_replaces

/-- Pieces one by one in place of others. -/
def Restate (ps qs : List Piece) : Prop := List.Forall₂ Piece.Restates ps qs

namespace Restate

theorem replaces (h : Restate ps qs) : Replaces (render ps) (render qs) := by
  induction h with
  | nil => exact replaces_refl []
  | cons hp _ ih => exact hp.full_replaces.append ih

theorem settings_eq (h : Restate ps qs) :
    qs.flatMap Piece.settings = ps.flatMap Piece.settings := by
  induction h with
  | nil => rfl
  | cons hp _ ih => rw [List.flatMap_cons, List.flatMap_cons, hp.settings, ih]

theorem map_rule_eq (h : Restate ps qs) : qs.map Piece.rule = ps.map Piece.rule := by
  induction h with
  | nil => rfl
  | cons hp _ ih => rw [List.map_cons, List.map_cons, hp.rule, ih]

end Restate

/-- A part fits where another one of its rule has fitted, if what is around it was replaced. -/
theorem Fits.replace (h : Fits r a x b) (hx' : Writes r x' l) (ha : Replaces a a')
    (hb : Replaces b b') (hleads : Leads a → Leads a')
    (hrest : r ≠ .selectors → endsLiteral b' = true ∧ '@' ∉ b') : Fits r a' x' b' := by
  have hplaced : r.setsAmount = true → Leads a → Placed a' (x' ++ b') := by
    intro hr h
    refine ⟨fun hat => ?_, hleads h⟩
    rcases List.mem_append.mp hat with hat | hat
    · obtain rfl := hx'.eq_of_mark hat rfl
      exact nomatch hr
    · refine (hrest fun hrule => ?_).2 hat
      rw [hrule] at hr
      exact nomatch hr
  cases r with
  | selectors => exact ha.nil h
  | sides => exact ⟨ha.loose h.1, stops_of_endsLiteral (hrest nofun).1⟩
  | rerolls => exact ⟨ha.tight h.1, stops_of_endsLiteral (hrest nofun).1⟩
  | sort => exact ha.tight h
  | amount => exact ⟨hplaced rfl h.1.2, stops_of_endsLiteral (hrest nofun).1⟩
  | literal => exact ⟨hplaced rfl h.1.2, (hrest nofun).1⟩
  | suffix => exact hb.bangs h
  | threshold => exact hb.bangs h
  | explosion => exact hb.nil h

/-- The induction goes along the pieces, and keeps what is before them replaceable. -/
theorem Laid.restate (h : Laid a ps []) (hps : Restate ps qs) (ha : Replaces a a')
    (hleads : Leads a → Leads a') : Laid a' qs [] := by
  induction hps generalizing a a' with
  | nil => trivial
  | @cons p q ps qs hp hps ih =>
    obtain ⟨hfits, hlaid⟩ := h
    rw [List.append_nil] at hfits
    have hlate : q.rule ≠ .selectors → ∀ q' ∈ qs, q'.rule.isLate = true := by
      intro hq q' hq'
      rw [hp.rule] at hq
      have hmem := List.mem_map_of_mem (f := Piece.rule) hq'
      rw [Restate.map_rule_eq hps] at hmem
      obtain ⟨p', hp', hrule⟩ := List.mem_map.mp hmem
      rw [← hrule]
      exact Laid.isLate (p := p) ⟨by rwa [List.append_nil], hlaid⟩ hq p' hp'
    have hgap := ha.append hp.gap_replaces
    refine ⟨?_, ih hlaid (ha.append hp.full_replaces) fun hfull => ?_⟩
    · rw [List.append_nil]
      rw [← hp.rule] at hfits
      exact hfits.replace q.writes hgap (Restate.replaces hps)
        (fun h => (hleads (h.of_append p.blank)).append q.blank)
        fun hq => ⟨endsLiteral_render (hlate hq), at_notMem_render (hlate hq)⟩
    · -- an amount comes next only if this piece is the ranks, and then there is nothing before it
      have hselectors : p.rule = .selectors := by
        rw [Piece.full, ← List.append_assoc] at hfull
        exact hfull.rule_eq p.writes
      rw [hselectors] at hfits
      have hq := q.writes
      rw [hp.rule, hselectors] at hq
      rw [Piece.full, ← List.append_assoc, hgap.nil hfits]
      exact Or.inr ⟨q.text, [], _, (List.append_nil _).symm, hq,
        fun c hc => absurd hc List.not_mem_nil⟩

/-- **Pieces in place of those of a layout make a layout.** -/
theorem Layout.restate (h : Layout ps) (hps : Restate ps qs) : Layout qs where
  laid := h.laid.restate hps (replaces_refl []) id
  distinct := by
    rw [hps.settings_eq]
    exact h.distinct
  amount := by
    obtain ⟨p, hp, hsets⟩ := h.amount
    have hmem := List.mem_map_of_mem (f := Piece.rule) hp
    rw [← hps.map_rule_eq] at hmem
    obtain ⟨q, hq, hrule⟩ := List.mem_map.mp hmem
    exact ⟨q, hq, by rw [hrule]; exact hsets⟩

/-! ## The ends of a code -/

/-- There is nothing to trim if there are no blanks before the first piece. -/
theorem trim_render (hgap : ∀ p ∈ ps.head?, p.gap = []) : trim (render ps) = render ps := by
  refine trim_of_not_blank (fun c hc => ?_) fun c hc => ?_
  · cases ps with
    | nil => cases hc
    | cons p ps =>
      rw [render_cons, Piece.full, hgap p rfl] at hc
      exact p.writes.not_blank_head (render ps) c hc
  · rcases List.eq_nil_or_concat ps with rfl | ⟨ps, p, rfl⟩
    · cases hc
    · have hlast : render (ps.concat p) = render ps ++ p.gap ++ p.text := by
        rw [List.concat_eq_append, render_append, render_cons, render_nil, List.append_nil,
          Piece.full, List.append_assoc]
      rw [hlast, List.getLast?_append_of_ne_nil _ p.writes.ne_nil] at hc
      exact p.writes.not_blank_ends.2 c hc

theorem gap_eq_nil_of_trim {t : Text} (ht : trim t = render ps) : ∀ p ∈ ps.head?, p.gap = [] := by
  intro p hp
  obtain ⟨rest, rfl⟩ := List.head?_eq_some_iff.mp hp
  cases hgap : p.gap with
  | nil => rfl
  | cons d gap =>
    have hd : d ∈ (trim t).head? := by
      rw [ht, render_cons, Piece.full, hgap]
      rfl
    have hblank : isBlank d = true := p.blank d (by rw [hgap]; exact List.mem_cons_self)
    exact absurd hblank (Bool.eq_false_iff.mp (not_blank_of_head?_trim hd))

theorem Restate.gap_eq_nil (h : Restate ps qs) (hgap : ∀ p ∈ ps.head?, p.gap = []) :
    ∀ q ∈ qs.head?, q.gap = [] := by
  cases h with
  | nil => exact fun q hq => nomatch hq
  | cons hp _ =>
    rintro q ⟨⟩
    exact hp.gap.mpr (hgap _ rfl)

end DiceNotation.DiceCode
