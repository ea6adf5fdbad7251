import DiceNotation.Proofs.Code.Layout
import DiceNotation.Proofs.Code.Sites

/-!
# Every code that is read is laid out

What the rules find in a well-formed code does not overlap: where a part begins there is its mark,
which no other part has, and the amount begins behind the ranks (`Sits.end_le`).  Since nothing but
blanks is left over, the findings in the order of their places cut the code into a layout
(`exists_layout`).

So the codes that are read are the texts of layouts and no others (`read_eq_ok_iff_exists_layout`).
What a change of the text does to the parameters can be seen part by part.

* `at_notMem_amountPlace`: every `@` belongs to the ranks.
* `Sits.end_le`, `exists_pieces`, `exists_layout`.
* `read_eq_ok_iff_exists_layout`.
-/

namespace DiceNotation.DiceCode

open Text

/-! ## Every `@` belongs to the ranks -/

/-- A character in a stretch of a text. -/
theorem mem_of_getElem?_append {a x b : Text} {i : Nat} {c : Char}
    (h : (a ++ (x ++ b))[i]? = some c) (hle : a.length ≤ i) (hlt : i < a.length + x.length) :
    c ∈ x := by
  rw [List.getElem?_append_right hle, List.getElem?_append_left (by omega)] at h
  exact List.mem_of_getElem? h

theorem exists_amountPlace (code : Text) : ∃ a, code = a ++ amountPlace code := by
  unfold amountPlace
  cases hranks : rankList? code with
  | none => exact ⟨code.takeWhile isBlank, List.takeWhile_append_dropWhile.symm⟩
  | some cut =>
    unfold rankList? at hranks
    split at hranks
    · exact nomatch hranks
    · next head rest hcut =>
      obtain ⟨c, rfl, -, -⟩ := exists_of_cutFirst hcut
      dsimp only at hranks
      split at hranks
      · cases hranks
        refine ⟨head ++ c :: rest.takeWhile isBlank, ?_⟩
        rw [List.append_assoc, List.cons_append]
        exact congrArg (fun u => head ++ c :: u) List.takeWhile_append_dropWhile.symm
      · exact nomatch hranks

/-- Of all parts, only the ranks have an `@`. -/
theorem eq_selectors_of_covers {r : Rule} {code a x b : Text} {f : Finding} {i : Nat}
    (hcode : code = a ++ (x ++ b)) (hstart : f.start = a.length) (hlength : f.length = x.length)
    (hx : Writes r x f.settings) (hi : f.Covers i) (hat : code[i]? = some '@') :
    r = .selectors := by
  obtain ⟨hle, hlt⟩ := hi
  rw [hcode] at hat
  have hmem : '@' ∈ x := mem_of_getElem?_append hat (by omega) (by omega)
  exact (hx.eq_of_mark hmem rfl).symm

/-- The ranks end before the place of the amount. -/
theorem end_le_of_findSelectors {code a : Text} {fs : List Finding}
    (h : findSelectors code = .ok fs) {f : Finding} (hf : f ∈ fs)
    (hcode : code = a ++ amountPlace code) : f.start + f.length ≤ a.length := by
  cases hranks : rankList? code with
  | none =>
    unfold findSelectors at h
    rw [hranks] at h
    obtain rfl := Except.ok.inj h
    exact absurd hf List.not_mem_nil
  | some cut =>
    obtain ⟨first, others, -, hfront, rfl⟩ := exists_of_rankList? h hranks
    obtain rfl := List.mem_singleton.mp hf
    have hplace : amountPlace code = trimStart cut.2 := by
      unfold amountPlace
      rw [hranks]
    have hle := length_trimStart_le cut.2
    have hlength := congrArg List.length hcode
    have hlength' := congrArg List.length hfront
    rw [List.length_append, hplace] at hlength
    rw [List.length_append] at hlength'
    dsimp only
    omega

/-- No count is looked for where an `@` follows. -/
theorem findAmount_of_at {code : Text} (hat : '@' ∈ amountPlace code) :
    findAmount code = .ok [] := by
  unfold findAmount
  dsimp only
  rw [List.contains_iff_mem.mpr hat, Bool.or_true, if_pos rfl]

/-- **If everything but blanks is accounted for, no `@` comes after the ranks.** -/
theorem at_notMem_amountPlace {code : Text} (hfind : ∀ r : Rule, r.find code = .ok (r.found code))
    (hcovered : ∀ i c, code[i]? = some c → isBlank c = false → ∃ f ∈ findings code, f.Covers i) :
    '@' ∉ amountPlace code := by
  intro hat
  obtain ⟨a, hcode⟩ := exists_amountPlace code
  obtain ⟨i, hi, hget⟩ := List.getElem_of_mem hat
  have hcharacter : code[a.length + i]? = some '@' := by
    rw [hcode, List.getElem?_append_right (Nat.le_add_right _ _), Nat.add_sub_cancel_left,
      List.getElem?_eq_getElem hi, hget]
  obtain ⟨f, hf, hcovers⟩ := hcovered _ _ hcharacter (by decide)
  obtain ⟨r, -, hf⟩ := List.mem_flatMap.mp hf
  rcases r.cases_of_place with rfl | hlate | hsets
  · have hle := end_le_of_findSelectors (hfind .selectors) hf hcode
    obtain ⟨-, hlt⟩ := hcovers
    omega
  · obtain ⟨a', x, b, hcode', hstart, hlength, hx, -⟩ := sits_of_isLate hlate (hfind r) hf
    obtain rfl := eq_selectors_of_covers hcode' hstart hlength hx hcovers hcharacter
    exact nomatch hlate
  · cases r with
    | amount =>
      rw [Rule.found_of_find (r := .amount) (findAmount_of_at hat)] at hf
      exact nomatch hf
    | literal =>
      obtain ⟨x, b, hplace, hstart, hlength, hx, -⟩ := exists_of_findLiteral (hfind .literal) hf
      rw [amountStart_eq hcode] at hstart
      rw [hplace] at hcode
      exact nomatch eq_selectors_of_covers hcode hstart hlength hx hcovers hcharacter
    | _ => exact nomatch hsets

/-! ## Parts do not overlap -/

/-- Of two ways to cut a text, the earlier cut leaves the shorter front. -/
theorem prefix_of_append_eq {a b s t : Text} (h : a ++ s = b ++ t) (hle : a.length ≤ b.length) :
    a <+: b := by
  have ha : a <+: b ++ t := h ▸ List.prefix_append a s
  exact List.prefix_of_prefix_length_le ha (List.prefix_append b t) hle

/-- No part begins inside a part of another rule, the amount counting as one. -/
theorem not_overlap {r r' : Rule} {a m t t' b b' : Text} {c : Char} {l l' : List Setting}
    (hx : Writes r (m ++ c :: t) l) (hfits : Fits r a (m ++ c :: t) b)
    (hx' : Writes r' (c :: t') l') (hfits' : Fits r' (a ++ m) (c :: t') b')
    (hrest : c :: t ++ b = c :: t' ++ b') (hne : r ≠ r')
    (hamount : r.setsAmount = true → r'.setsAmount = false) : False := by
  have hstart : m = [] → r.isLate = true → False := by
    rintro rfl hr
    obtain ⟨d, u, heq, hmark⟩ := hx.exists_mark hr
    obtain rfl : c = d := (List.cons.inj heq).1
    exact hne (hx'.eq_of_mark List.mem_cons_self hmark)
  rcases r'.cases_of_place with rfl | hr' | hr'
  · have hnil : a ++ m = [] := hfits'
    obtain ⟨rfl, rfl⟩ := List.append_eq_nil_iff.mp hnil
    rcases r.cases_of_place with rfl | hr | hr
    · exact hne rfl
    · exact hstart rfl hr
    · refine (hfits.placed hr).1 ?_
      obtain ⟨w, hw⟩ := hx'.exists_append_at
      rw [List.nil_append, hrest, hw]
      simp
  · obtain ⟨d, u, heq, hmark⟩ := hx'.exists_mark hr'
    obtain rfl : c = d := (List.cons.inj heq).1
    exact hne (hx.eq_of_mark (List.mem_append_right m List.mem_cons_self) hmark).symm
  · have hplaced := hfits'.placed hr'
    rcases r.cases_of_place with rfl | hr | hr
    · -- the ranks end with an `@`, and there is none where an amount is placed
      obtain ⟨w, hw⟩ := hx.exists_append_at
      have hlast : '@' ∈ c :: t := by
        have hlast := congrArg List.getLast? hw
        rw [List.getLast?_append_of_ne_nil _ (List.cons_ne_nil c t), List.getLast?_concat] at hlast
        exact List.mem_of_getLast? hlast
      exact hplaced.1 (hrest ▸ List.mem_append_left b hlast)
    · rcases List.eq_nil_or_concat m with hm | ⟨m', e, rfl⟩
      · exact hstart hm hr
      · have he : e ∈ m'.concat e ++ c :: t := by simp
        have hlast : e ∈ (a ++ m'.concat e).getLast? := by
          rw [List.concat_eq_append, ← List.append_assoc, List.getLast?_concat]
          rfl
        rcases hplaced.2.last hlast with hblank | rfl
        · exact nomatch (hx.not_isBlank (Rule.ne_literal hr) e he).symm.trans hblank
        · obtain rfl := hx.eq_of_mark he rfl
          exact nomatch hr
    · exact nomatch hr'.symm.trans (hamount hr)

/-- **Of two findings, the first ends before the other begins.** -/
theorem Sits.end_le {r r' : Rule} {code : Text} {f f' : Finding} (h : Sits r code f)
    (h' : Sits r' code f') (hne : r ≠ r')
    (hamount : r.setsAmount = true → r'.setsAmount = false) (hle : f.start ≤ f'.start) :
    f.start + f.length ≤ f'.start := by
  obtain ⟨a, x, b, hcode, hstart, hlength, hx, hfits⟩ := h
  obtain ⟨a', x', b', hcode', hstart', hlength', hx', hfits'⟩ := h'
  rw [hstart, hlength, hstart']
  rw [hstart, hstart'] at hle
  by_contra hlt
  -- then the second part begins inside the first, at a character that both have
  obtain ⟨m, rfl⟩ : a <+: a' := prefix_of_append_eq (hcode.symm.trans hcode') hle
  have hrest : x ++ b = m ++ (x' ++ b') := by
    rw [hcode, List.append_assoc] at hcode'
    exact List.append_cancel_left hcode'
  obtain ⟨y, rfl⟩ : m <+: x := by
    refine prefix_of_append_eq hrest.symm ?_
    rw [List.length_append] at hlt
    omega
  have hy : y ≠ [] := by
    rintro rfl
    rw [List.append_nil, List.length_append] at hlt
    exact hlt (Nat.le_refl _)
  rw [List.append_assoc] at hrest
  have hrest' : y ++ b = x' ++ b' := List.append_cancel_left hrest
  obtain ⟨c, t, rfl⟩ := List.exists_cons_of_ne_nil hy
  obtain ⟨c', t', rfl⟩ := List.exists_cons_of_ne_nil hx'.ne_nil
  obtain rfl : c = c' := (List.cons.inj hrest').1
  exact not_overlap hx hfits hx' hfits' hrest' hne hamount

/-! ## Cutting a code at its findings -/

/-- All characters of a text that starts at an index, blanks apart, lie in findings. -/
def CoveredFrom (n : Nat) (es : List (Rule × Finding)) (t : Text) : Prop :=
  ∀ i c, t[i]? = some c → isBlank c = false → ∃ e ∈ es, e.2.Covers (n + i)

/-- Before all findings there is nothing but blanks. -/
theorem CoveredFrom.isBlank {n : Nat} {es : List (Rule × Finding)} {g t : Text}
    (h : CoveredFrom n es (g ++ t)) (hlater : ∀ e ∈ es, n + g.length ≤ e.2.start) :
    ∀ c ∈ g, Text.isBlank c = true := by
  intro c hc
  obtain ⟨i, hi⟩ := List.mem_iff_getElem?.mp hc
  have hlt := (List.getElem?_eq_some_iff.mp hi).1
  cases hblank : Text.isBlank c with
  | true => rfl
  | false =>
    obtain ⟨e, he, hge, -⟩ := h i c ((List.getElem?_append_left hlt).trans hi) hblank
    have hstart := hlater e he
    omega

/-- A finding accounts for nothing behind it. -/
theorem CoveredFrom.tail {n : Nat} {e : Rule × Finding} {es : List (Rule × Finding)} {x t : Text}
    (h : CoveredFrom n (e :: es) (x ++ t)) (hend : e.2.start + e.2.length ≤ n + x.length) :
    CoveredFrom (n + x.length) es t := by
  intro i c hi hc
  have hget : (x ++ t)[x.length + i]? = some c := by
    rw [List.getElem?_append_right (Nat.le_add_right _ _), Nat.add_sub_cancel_left]
    exact hi
  obtain ⟨e', he', hcovers⟩ := h _ c hget hc
  rw [← Nat.add_assoc] at hcovers
  rcases List.mem_cons.mp he' with rfl | he'
  · obtain ⟨-, hlt⟩ := hcovers
    omega
  · exact ⟨e', he', hcovers⟩

/-- Findings one after another, with nothing but blanks between them, are pieces. -/
theorem exists_pieces {code : Text} {es : List (Rule × Finding)} {a t : Text}
    (hcode : code = a ++ t) (hsits : ∀ e ∈ es, Sits e.1 code e.2)
    (hordered : es.Pairwise fun e e' => e.2.start + e.2.length ≤ e'.2.start)
    (hstart : ∀ e ∈ es, a.length ≤ e.2.start) (hcovered : CoveredFrom a.length es t) :
    ∃ ps g, t = render ps ++ g ∧ (∀ c ∈ g, isBlank c = true) ∧ Laid a ps g ∧
      ps.flatMap Piece.settings = es.flatMap fun e => e.2.settings := by
  induction es generalizing a t with
  | nil =>
    rw [← List.append_nil t] at hcovered
    exact ⟨[], t, rfl, hcovered.isBlank fun e he => absurd he List.not_mem_nil, trivial, rfl⟩
  | cons e es ih =>
    obtain ⟨hfirst, hordered⟩ := List.pairwise_cons.mp hordered
    obtain ⟨a', x, b, hcode', hstart', hlength', hx, hfits⟩ := hsits e List.mem_cons_self
    have hle := hstart e List.mem_cons_self
    obtain ⟨gap, rfl⟩ : a <+: a' := prefix_of_append_eq (hcode.symm.trans hcode') (by omega)
    obtain rfl : t = gap ++ (x ++ b) := by
      rw [hcode, List.append_assoc] at hcode'
      exact List.append_cancel_left hcode'
    rw [List.length_append] at hstart'
    have hgap : ∀ c ∈ gap, isBlank c = true := by
      refine hcovered.isBlank fun e' he' => ?_
      rcases List.mem_cons.mp he' with rfl | he'
      · omega
      · have hlater := hfirst e' he'
        omega
    have hnext : (a ++ gap ++ x).length = a.length + (gap ++ x).length := by
      rw [List.append_assoc, List.length_append]
    have hend : e.2.start + e.2.length = (a ++ gap ++ x).length := by
      rw [hnext, List.length_append]
      omega
    rw [← List.append_assoc gap] at hcovered
    obtain ⟨ps, g, rfl, hg, hlaid, hsettings⟩ := ih (a := a ++ gap ++ x) (t := b)
      (by rw [hcode, List.append_assoc, List.append_assoc])
      (fun e' he' => hsits e' (List.mem_cons_of_mem e he')) hordered
      (fun e' he' => hend ▸ hfirst e' he')
      (hnext ▸ hcovered.tail (by omega))
    refine ⟨⟨gap, e.1, x, e.2.settings, hgap, hx⟩ :: ps, g, ?_, hg, ⟨hfits, ?_⟩,
      congrArg (e.2.settings ++ ·) hsettings⟩
    · rw [render_cons, Piece.full, List.append_assoc, List.append_assoc]
    · rw [Piece.full, ← List.append_assoc]
      exact hlaid

namespace WellFormed

variable {code : Text} {p : Parameters}

theorem sits (h : WellFormed code p) {e : Rule × Finding} (he : e ∈ sources code) :
    Sits e.1 code e.2 :=
  sits_of_find (h.find_eq .selectors) (at_notMem_amountPlace h.find_eq h.covered) (h.find_eq e.1)
    (mem_sources.mp he)

/-- No two findings are of rules that set the same. -/
theorem pairwise_disjoint (h : WellFormed code p) :
    (sources code).Pairwise fun e e' => List.Disjoint e.1.keys e'.1.keys := by
  have hdistinct := h.distinct
  unfold Setting.Distinct at hdistinct
  rw [← settings_sources, List.map_flatMap] at hdistinct
  refine (List.nodup_flatMap.mp hdistinct).2.imp_of_mem fun {e e'} he he' hdisjoint => ?_
  obtain ⟨_, _, _, -, -, -, hx, -⟩ := h.sits he
  obtain ⟨_, _, _, -, -, -, hx', -⟩ := h.sits he'
  have hkeys : List.Disjoint (e.2.settings.map Setting.key) (e'.2.settings.map Setting.key) :=
    hdisjoint
  rwa [hx.keys_eq, hx'.keys_eq] at hkeys

/-- The findings in the order of their places. -/
def sorted (code : Text) : List (Rule × Finding) :=
  (sources code).mergeSort fun e e' => decide (e.2.start ≤ e'.2.start)

theorem sorted_perm (code : Text) : (sorted code).Perm (sources code) := List.mergeSort_perm _ _

theorem pairwise_sorted (h : WellFormed code p) :
    (sorted code).Pairwise fun e e' => e.2.start + e.2.length ≤ e'.2.start := by
  have hstarts : (sorted code).Pairwise fun e e' => decide (e.2.start ≤ e'.2.start) = true :=
    List.pairwise_mergeSort (fun e e' e'' hle hle' => by simp at *; omega)
      (fun e e' => by simp; omega) _
  have hdisjoint : (sorted code).Pairwise fun e e' => List.Disjoint e.1.keys e'.1.keys :=
    (sorted_perm code).symm.pairwise h.pairwise_disjoint fun hkeys _ hk hk' => hkeys hk' hk
  refine (hstarts.and hdisjoint).imp_of_mem fun {e e'} he he' ⟨hle, hkeys⟩ => ?_
  obtain ⟨k, hk⟩ := List.exists_mem_of_ne_nil _ e.1.keys_ne_nil
  refine (h.sits ((sorted_perm code).mem_iff.mp he)).end_le
    (h.sits ((sorted_perm code).mem_iff.mp he')) (fun heq => hkeys hk (heq ▸ hk)) (fun hsets => ?_)
    (decide_eq_true_eq.mp hle)
  rw [Bool.eq_false_iff]
  intro hsets'
  exact hkeys (Rule.setsAmount_iff.mp hsets) (Rule.setsAmount_iff.mp hsets')

/-- **A well-formed code is laid out.** -/
theorem exists_layout (h : WellFormed code p) (hlast : ∀ c ∈ code.getLast?, isBlank c = false) :
    ∃ ps, Layout ps ∧ code = render ps ∧
      Parameters.ofSettings? (ps.flatMap Piece.settings) = some p := by
  have hperm := sorted_perm code
  obtain ⟨ps, g, hcode, hg, hlaid, hsettings⟩ := exists_pieces (a := []) (t := code) rfl
    (fun e he => h.sits (hperm.mem_iff.mp he)) h.pairwise_sorted (fun e _ => Nat.zero_le _)
    (fun i c hi hc => by
      obtain ⟨f, hf, hcovers⟩ := h.covered i c hi hc
      rw [← map_snd_sources] at hf
      obtain ⟨e, he, rfl⟩ := List.mem_map.mp hf
      refine ⟨e, hperm.mem_iff.mpr he, ?_⟩
      rwa [List.length_nil, Nat.zero_add])
  have hnone : g = [] := by
    rcases List.eq_nil_or_concat g with hnil | ⟨g', c, rfl⟩
    · exact hnil
    · have hc : c ∈ code.getLast? := by
        rw [hcode, List.concat_eq_append, ← List.append_assoc, List.getLast?_concat]
        rfl
      exact nomatch (hlast c hc).symm.trans (hg c (by simp))
  rw [hnone, List.append_nil] at hcode
  rw [hnone] at hlaid
  have hall : (ps.flatMap Piece.settings).Perm ((findings code).flatMap Finding.settings) := by
    rw [hsettings, ← settings_sources]
    exact hperm.flatMap_right _
  have hparameters : Parameters.ofSettings? (ps.flatMap Piece.settings) = some p :=
    (ofSettings?_perm hall.symm h.distinct).trans h.parameters
  exact ⟨ps, ⟨hlaid, h.distinct.perm hall.symm, exists_setsAmount hparameters⟩, hcode, hparameters⟩

end WellFormed

/-- **The codes that are read are the texts of layouts**, and their parameters are those that the
parts set. -/
theorem read_eq_ok_iff_exists_layout {t : Text} {p : Parameters} :
    read t = .ok p ↔ ∃ ps, Layout ps ∧ trim t = render ps ∧
      Parameters.ofSettings? (ps.flatMap Piece.settings) = some p := by
  constructor
  · intro h
    exact (read_eq_ok_iff.mp h).exists_layout fun c hc => not_blank_of_getLast?_trimEnd hc
  · rintro ⟨ps, hps, htrim, hp⟩
    exact hps.read htrim hp

end DiceNotation.DiceCode
