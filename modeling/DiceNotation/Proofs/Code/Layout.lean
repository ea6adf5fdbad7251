import DiceNotation.Proofs.Code.Found
import DiceNotation.Proofs.Code.Gathering

/-!
# Layouts

A layout is a code cut into its parts, each with the blanks before it.  Every part has to fit between
what is before it and what is after it; no key may be set twice, and one of the parts has to be the
amount.  Then each rule finds the part of its own and nothing else, whatever the order of the rules,
and the code has the parameters that the parts set (`Layout.read`).

* `Piece`, `render`, `Laid`, `Layout`.
* `entries`: what a layout says that the rules find, with `mem_entries` and `exists_covers`.
* `Layout.find_eq`, `Layout.sources_perm`, `Layout.read`.
-/

namespace DiceNotation.DiceCode

open Text

/-- A part of a code, and the blanks before it. -/
structure Piece where
  gap : Text
  rule : Rule
  text : Text
  settings : List Setting
  blank : ∀ c ∈ gap, isBlank c = true
  writes : Writes rule text settings

/-- A part and the blanks before it. -/
def Piece.full (p : Piece) : Text := p.gap ++ p.text

/-- The text of the pieces in order. -/
def render (ps : List Piece) : Text := ps.flatMap Piece.full

/-- The pieces fit where they are, between a text before them and a text after them. -/
def Laid (a : Text) : List Piece → Text → Prop
  | [], _ => True
  | p :: ps, b => Fits p.rule (a ++ p.gap) p.text (render ps ++ b) ∧ Laid (a ++ p.full) ps b

/-- A code cut into pieces that fit. -/
structure Layout (ps : List Piece) : Prop where
  laid : Laid [] ps []
  distinct : Setting.Distinct (ps.flatMap Piece.settings)
  amount : ∃ p ∈ ps, p.rule.setsAmount = true

variable {ps : List Piece}

@[simp] theorem render_nil : render [] = [] := rfl

@[simp] theorem render_cons (p : Piece) (ps : List Piece) :
    render (p :: ps) = p.full ++ render ps := List.flatMap_cons

@[simp] theorem render_append (ps qs : List Piece) : render (ps ++ qs) = render ps ++ render qs :=
  List.flatMap_append

theorem laid_append {a b : Text} {ps qs : List Piece} :
    Laid a (ps ++ qs) b ↔ Laid a ps (render qs ++ b) ∧ Laid (a ++ render ps) qs b := by
  induction ps generalizing a with
  | nil =>
    rw [render_nil, List.append_nil]
    exact (and_iff_right trivial).symm
  | cons p ps ih =>
    rw [List.cons_append, Laid, Laid, ih, render_append, render_cons, List.append_assoc,
      List.append_assoc, and_assoc]

/-! ## What is found -/

/-- What the rules find in the pieces, if the first of them starts at an index. -/
def entries (n : Nat) : List Piece → List (Rule × Finding)
  | [] => []
  | p :: ps =>
    (p.rule, ⟨n + p.gap.length, p.text.length, p.settings⟩) :: entries (n + p.full.length) ps

theorem map_fst_entries (n : Nat) (ps : List Piece) :
    (entries n ps).map Prod.fst = ps.map Piece.rule := by
  induction ps generalizing n with
  | nil => rfl
  | cons p ps ih => exact congrArg (p.rule :: ·) (ih _)

theorem settings_entries (n : Nat) (ps : List Piece) :
    ((entries n ps).flatMap fun e => e.2.settings) = ps.flatMap Piece.settings := by
  induction ps generalizing n with
  | nil => rfl
  | cons p ps ih => exact congrArg (p.settings ++ ·) (ih _)

theorem mem_entries (n : Nat) (before after : List Piece) (p : Piece) :
    (p.rule, ⟨n + (render before ++ p.gap).length, p.text.length, p.settings⟩) ∈
      entries n (before ++ p :: after) := by
  induction before generalizing n with
  | nil => exact List.mem_cons_self
  | cons q before ih =>
    refine List.mem_cons_of_mem _ ?_
    have hmem := ih (n + q.full.length)
    rw [Nat.add_assoc, ← List.length_append, ← List.append_assoc, ← render_cons] at hmem
    exact hmem

/-- Every character that is not blank lies in a part. -/
theorem exists_covers {n i : Nat} {c : Char} (hi : (render ps)[i]? = some c)
    (hc : isBlank c = false) : ∃ e ∈ entries n ps, e.2.Covers (n + i) := by
  induction ps generalizing n i with
  | nil => exact nomatch hi
  | cons p ps ih =>
    rw [render_cons, Piece.full, List.append_assoc] at hi
    rcases Nat.lt_or_ge i p.gap.length with hlt | hge
    · rw [List.getElem?_append_left hlt] at hi
      have hblank := p.blank c (List.mem_of_getElem? hi)
      exact nomatch hc.symm.trans hblank
    · rw [List.getElem?_append_right hge] at hi
      rcases Nat.lt_or_ge (i - p.gap.length) p.text.length with hlt' | hge'
      · refine ⟨_, List.mem_cons_self, ?_, ?_⟩
        · dsimp only
          omega
        · dsimp only
          omega
      · rw [List.getElem?_append_right hge'] at hi
        obtain ⟨e, he, hcovers⟩ := ih (n := n + p.full.length) hi
        refine ⟨e, List.mem_cons_of_mem _ he, ?_⟩
        have hlength : n + p.full.length + (i - p.gap.length - p.text.length) = n + i := by
          unfold Piece.full
          rw [List.length_append]
          omega
        rwa [hlength] at hcovers

/-- No rule has two parts. -/
theorem nodup_rules (h : Setting.Distinct (ps.flatMap Piece.settings)) :
    (ps.map Piece.rule).Nodup := by
  unfold Setting.Distinct at h
  rw [List.map_flatMap] at h
  refine List.pairwise_map.mpr ((List.nodup_flatMap.mp h).2.imp fun {p q} hdisjoint heq => ?_)
  obtain ⟨k, hk⟩ := List.exists_mem_of_ne_nil _ p.rule.keys_ne_nil
  have hkeys : ∀ r : Piece, k ∈ r.rule.keys → k ∈ r.settings.map Setting.key := by
    intro r hr
    rw [r.writes.keys_eq]
    exact hr
  exact hdisjoint (hkeys p hk) (hkeys q (heq ▸ hk))

/-- Where there is an amount, there is a part that sets it. -/
theorem exists_setsAmount {p : Parameters}
    (hp : Parameters.ofSettings? (ps.flatMap Piece.settings) = some p) :
    ∃ q ∈ ps, q.rule.setsAmount = true := by
  obtain ⟨am, ham⟩ := exists_amount_of_ofSettings? hp
  obtain ⟨q, hq, ham⟩ := List.mem_flatMap.mp ham
  refine ⟨q, hq, Rule.setsAmount_iff.mpr ?_⟩
  rw [← q.writes.keys_eq]
  exact List.mem_map_of_mem (f := Setting.key) ham

/-- A mark occurs in the pieces of its own rule only. -/
theorem exists_of_mark {c : Char} {r : Rule} (hc : c ∈ render ps) (hr : mark? c = some r) :
    ∃ p ∈ ps, p.rule = r ∧ c ∈ p.text := by
  obtain ⟨p, hp, hc⟩ := List.mem_flatMap.mp hc
  rcases List.mem_append.mp hc with hc | hc
  · exact nomatch hr.symm.trans (mark?_of_isBlank (p.blank c hc))
  · exact ⟨p, hp, (p.writes.eq_of_mark hc hr).symm, hc⟩

namespace Layout

/-- The rest of a layout, seen from one of its pieces. -/
theorem fits (h : Layout ps) {before after : List Piece} {p : Piece}
    (hps : ps = before ++ p :: after) :
    Fits p.rule (render before ++ p.gap) p.text (render after) ∧
      (∀ c ∈ render before ++ p.gap, mark? c ≠ some p.rule) ∧
      ∀ c ∈ render after, mark? c ≠ some p.rule := by
  have hlaid := h.laid
  rw [hps, laid_append] at hlaid
  have hfits := hlaid.2.1
  rw [List.append_nil, List.nil_append] at hfits
  have hnodup := nodup_rules h.distinct
  rw [hps, List.map_append, List.map_cons, List.nodup_append] at hnodup
  obtain ⟨-, hafter, hbefore⟩ := hnodup
  refine ⟨hfits, fun c hc hr => ?_, fun c hc hr => ?_⟩
  · rcases List.mem_append.mp hc with hc | hc
    · obtain ⟨q, hq, hrule, -⟩ := exists_of_mark hc hr
      exact hbefore _ (List.mem_map_of_mem hq) _ List.mem_cons_self hrule
    · exact nomatch hr.symm.trans (mark?_of_isBlank (p.blank c hc))
  · obtain ⟨q, hq, hrule, -⟩ := exists_of_mark hc hr
    exact (List.nodup_cons.mp hafter).1 (hrule ▸ List.mem_map_of_mem hq)

theorem render_split {before after : List Piece} {p : Piece} (hps : ps = before ++ p :: after) :
    render ps = render before ++ p.gap ++ (p.text ++ render after) := by
  rw [hps, render_append, render_cons, Piece.full, List.append_assoc, List.append_assoc]

/-- A rule with a part finds it. -/
theorem find_of_mem (h : Layout ps) {before after : List Piece} {p : Piece}
    (hps : ps = before ++ p :: after) :
    p.rule.find (render ps) =
      .ok [⟨(render before ++ p.gap).length, p.text.length, p.settings⟩] := by
  obtain ⟨hfits, hbefore, hafter⟩ := h.fits hps
  rw [render_split hps]
  exact find_of_fits p.writes hfits hbefore hafter

/-- A rule without a part finds nothing. -/
theorem find_of_notMem (h : Layout ps) {r : Rule} (hr : ∀ p ∈ ps, p.rule ≠ r) :
    r.find (render ps) = .ok [] := by
  cases hamount : r.setsAmount with
  | false =>
    refine find_eq_nil hamount fun c hc hmark => ?_
    obtain ⟨p, hp, hrule, -⟩ := exists_of_mark hc hmark
    exact hr p hp hrule
  | true =>
    -- the place for an amount is taken by that of the other rule
    obtain ⟨p, hp, hsets⟩ := h.amount
    obtain ⟨before, after, hps⟩ := List.append_of_mem hp
    obtain ⟨hfits, -, -⟩ := h.fits hps
    rw [render_split hps]
    obtain ⟨gap, rule, text, settings, blank, writes⟩ := p
    have hother := hr _ hp
    dsimp only at hsets hfits hother writes ⊢
    cases rule with
    | amount =>
      cases r with
      | amount => exact absurd rfl hother
      | literal =>
        cases writes with
        | count hx => exact findLiteral_of_count hx hfits.1
      | _ => exact nomatch hamount
    | literal =>
      cases r with
      | literal => exact absurd rfl hother
      | amount => exact findAmount_of_literal writes hfits.1 hfits.2
      | _ => exact nomatch hamount
    | _ => exact nomatch hsets

theorem find_eq (h : Layout ps) (r : Rule) :
    r.find (render ps) = .ok (r.found (render ps)) ∧ (r.found (render ps)).Nodup ∧
      ∀ f, f ∈ r.found (render ps) ↔ (r, f) ∈ entries 0 ps := by
  have hnodup : ((entries 0 ps).map Prod.fst).Nodup := by
    rw [map_fst_entries]
    exact nodup_rules h.distinct
  by_cases hr : ∃ p ∈ ps, p.rule = r
  · obtain ⟨p, hp, rfl⟩ := hr
    obtain ⟨before, after, hps⟩ := List.append_of_mem hp
    have hfind := h.find_of_mem hps
    have hmem := mem_entries 0 before after p
    rw [← hps, Nat.zero_add] at hmem
    rw [Rule.found_of_find hfind]
    refine ⟨hfind, List.nodup_singleton _, fun f => ?_⟩
    rw [List.mem_singleton]
    constructor
    · rintro rfl
      exact hmem
    · intro hf
      exact congrArg Prod.snd (List.inj_on_of_nodup_map hnodup hf hmem rfl)
  · have hfind := h.find_of_notMem fun p hp hrule => hr ⟨p, hp, hrule⟩
    rw [Rule.found_of_find hfind]
    refine ⟨hfind, List.nodup_nil, fun f => ⟨fun hf => (nomatch hf), fun hf => ?_⟩⟩
    have hrule := List.mem_map_of_mem (f := Prod.fst) hf
    rw [map_fst_entries] at hrule
    obtain ⟨p, hp, hrule⟩ := List.mem_map.mp hrule
    exact absurd ⟨p, hp, hrule⟩ hr

end Layout

/-- What all rules find, each finding with its rule. -/
def sources (code : Text) : List (Rule × Finding) :=
  Rule.all.flatMap fun r => (r.found code).map (Prod.mk r)

theorem mem_sources {code : Text} {e : Rule × Finding} :
    e ∈ sources code ↔ e.2 ∈ e.1.found code := by
  unfold sources
  rw [List.mem_flatMap]
  constructor
  · rintro ⟨r, -, he⟩
    obtain ⟨f, hf, rfl⟩ := List.mem_map.mp he
    exact hf
  · exact fun he => ⟨e.1, e.1.mem_all, List.mem_map.mpr ⟨e.2, he, rfl⟩⟩

theorem map_snd_sources (code : Text) : (sources code).map Prod.snd = findings code := by
  unfold sources findings
  rw [List.map_flatMap]
  congr 1
  funext r
  rw [List.map_map]
  exact List.map_id _

theorem settings_sources (code : Text) :
    ((sources code).flatMap fun e => e.2.settings) = (findings code).flatMap Finding.settings := by
  rw [← map_snd_sources, List.flatMap_map]

namespace Layout

/-- **The rules find the pieces.** -/
theorem sources_perm (h : Layout ps) : (sources (render ps)).Perm (entries 0 ps) := by
  refine (List.perm_ext_iff_of_nodup ?_ ?_).mpr fun e => ?_
  · refine List.nodup_flatMap.mpr ⟨fun r _ => ?_, ?_⟩
    · exact (h.find_eq r).2.1.map fun f g hfg => congrArg Prod.snd hfg
    · have hall : Rule.all.Nodup := by decide
      refine hall.imp fun {r r'} hne e he he' => ?_
      obtain ⟨f, -, rfl⟩ := List.mem_map.mp he
      obtain ⟨f', -, heq⟩ := List.mem_map.mp he'
      exact hne (congrArg Prod.fst heq).symm
  · refine List.Nodup.of_map Prod.fst ?_
    rw [map_fst_entries]
    exact nodup_rules h.distinct
  · rw [mem_sources, (h.find_eq e.1).2.2]

theorem settings_perm (h : Layout ps) :
    ((findings (render ps)).flatMap Finding.settings).Perm (ps.flatMap Piece.settings) := by
  rw [← settings_sources, ← settings_entries 0]
  exact h.sources_perm.flatMap_right _

/-- A setting is looked up by its key. -/
theorem findSome?_reduction? {l : List Setting} (hl : Setting.Distinct l) {r : Reduction}
    (hr : Setting.reduction r ∈ l) : l.findSome? Setting.reduction? = some r := by
  have hsome : (l.findSome? Setting.reduction?).isSome :=
    List.findSome?_isSome_iff.mpr ⟨_, hr, rfl⟩
  obtain ⟨r', hr'⟩ := Option.isSome_iff_exists.mp hsome
  obtain ⟨s, hs, hsr⟩ := List.exists_of_findSome?_eq_some hr'
  cases s with
  | reduction q =>
    cases hsr
    cases List.inj_on_of_nodup_map hl hs hr rfl
    exact hr'
  | _ => exact nomatch hsr

theorem selects (h : Layout ps) {p : Parameters}
    (hp : Parameters.ofSettings? (ps.flatMap Piece.settings) = some p) (hat : '@' ∈ render ps) :
    p.reduction.any Reduction.isSelector = true := by
  obtain ⟨q, hq, hrule, -⟩ := exists_of_mark hat rfl
  have hreduction : p.reduction = (ps.flatMap Piece.settings).findSome? Setting.reduction? := by
    obtain ⟨a, -, rfl⟩ := Option.map_eq_some_iff.mp hp
    rfl
  have hsettings : ∃ first others, q.settings = [.reduction (.ranks first others)] := by
    have hwrites := q.writes
    rw [hrule] at hwrites
    generalize q.text = x, q.settings = l at hwrites
    cases hwrites with
    | selectors _ => exact ⟨_, _, rfl⟩
  obtain ⟨first, others, hsettings⟩ := hsettings
  have hmem : Setting.reduction (.ranks first others) ∈ ps.flatMap Piece.settings :=
    List.mem_flatMap.mpr ⟨q, hq, by rw [hsettings]; exact List.mem_cons_self⟩
  rw [hreduction, findSome?_reduction? h.distinct hmem]
  rfl

/-- **The parts of a code that is laid out make its parameters.** -/
theorem wellFormed (h : Layout ps) {p : Parameters}
    (hp : Parameters.ofSettings? (ps.flatMap Piece.settings) = some p) :
    WellFormed (render ps) p where
  find_eq r := (h.find_eq r).1
  distinct := h.distinct.perm h.settings_perm.symm
  covered i c hi hc := by
    obtain ⟨e, he, hcovers⟩ := exists_covers (n := 0) hi hc
    rw [Nat.zero_add] at hcovers
    refine ⟨e.2, ?_, hcovers⟩
    rw [← map_snd_sources]
    exact List.mem_map_of_mem (h.sources_perm.mem_iff.mpr he)
  selects := h.selects hp
  parameters := (ofSettings?_perm h.settings_perm.symm h.distinct).trans hp

theorem read (h : Layout ps) {t : Text} (ht : trim t = render ps) {p : Parameters}
    (hp : Parameters.ofSettings? (ps.flatMap Piece.settings) = some p) :
    DiceCode.read t = .ok p := by
  rw [read_eq_ok_iff, ht]
  exact h.wellFormed hp

end Layout

end DiceNotation.DiceCode
