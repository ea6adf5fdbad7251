import DiceNotation.Proofs.Code.Recognition
import DiceNotation.Proofs.Code.Restating
import DiceNotation.Proofs.Refolding
import Mathlib.Data.List.ReduceOption

/-!
# Folding the numbers of a code

Before a code is read, its blanks are squeezed and its runs of numbers are folded.  Neither changes
what it is read as (`read_foldNumbers`).

In a layout no two numbers stand next to one another: a number is followed by the mark of another
part, by a comma, or by the end of a list.  So every part is folded by itself.  The numbers that are
glued to a letter are copied with it, and the others, which are the count, the ranks and the faces,
are folded to numbers that spell the same.  Squeezing changes blanks only between the parts and in
the brackets.  Both make pieces that are in place of those of the layout, and so they make a layout
again with the same settings.

* `Face`, `exists_of_faces`, `writes_faces`: the faces between brackets.
* `Writes.squeeze`, `squeeze_render`; `Writes.refolds`, `Laid.refolds`.
* `read_foldNumbers`.
-/

namespace DiceNotation.DiceCode

open Text NumberRun

variable {a s u x : Text} {o : Option Int} {us : List Text} {os : List (Option Int)} {ns : List Int}
variable {r : Rule} {l : List Setting} {ps qs : List Piece}

/-! ## Faces -/

/-- A member of a list of faces: blanks, which are no face, or a number behind plus signs. -/
inductive Face : Text → Option Int → Prop
  | blank {g : Text} (hg : ∀ c ∈ g, isBlank c = true) : Face g none
  | number {g x g' : Text} {n : Int} (k : Nat) (hg : ∀ c ∈ g, isBlank c = true)
    (hg' : ∀ c ∈ g', isBlank c = true) (hx : Spells x n) :
    Face (g ++ (List.replicate k '+' ++ x ++ g')) (some n)

/-- A number behind plus signs has no blanks. -/
theorem not_isBlank_of_pluses {n : Int} (hx : Spells x n) (k : Nat) :
    ∀ c ∈ List.replicate k '+' ++ x, isBlank c = false := by
  intro c hc
  rcases List.mem_append.mp hc with hc | hc
  · rw [(List.mem_replicate.mp hc).2]
    decide
  · exact hx.not_isBlank c hc

theorem face_of_usable {n : Int} (h : usable u = .ok n) : Face u (some n) := by
  obtain ⟨k, x, htrim, hx⟩ := usable_eq_ok_iff.mp h
  obtain ⟨g, g', hu, hg, hg'⟩ := exists_eq_append_trim u
  rw [hu, htrim]
  exact Face.number k hg hg' hx

namespace Face

theorem isAllBlank_eq (h : Face u o) : isAllBlank u = o.isNone := by
  cases h with
  | blank hg => exact List.all_eq_true.mpr hg
  | @number g x g' n k hg hg' hx =>
    obtain ⟨c, t, rfl⟩ := List.exists_cons_of_ne_nil hx.ne_nil
    have hc : isBlank c = false := hx.not_isBlank c List.mem_cons_self
    refine List.all_eq_false.mpr ⟨c, by simp, ?_⟩
    rw [hc]
    exact Bool.false_ne_true

theorem usable_eq {n : Int} (h : Face u (some n)) : usable u = .ok n := by
  cases h with
  | @number g x g' _ k hg hg' hx =>
    have hblank := not_isBlank_of_pluses hx k
    exact usable_eq_ok_iff.mpr ⟨k, x, trim_between_blanks hg hg'
      (fun c hc => hblank c (List.mem_of_head? hc))
      fun c hc => hblank c (List.mem_of_getLast? hc), hx⟩

/-- Neither a comma nor a bracket is part of a face. -/
theorem forall_mem (h : Face u o) {p : Char → Prop} (hblank : ∀ c, isBlank c = true → p c)
    (hp : ∀ c ∈ "+-0123456789".toList, p c) : ∀ c ∈ u, p c := by
  cases h with
  | blank hg => exact fun c hc => hblank c (hg c hc)
  | @number g x g' _ k hg hg' hx =>
    intro c hc
    simp only [List.mem_append] at hc
    rcases hc with hc | (hc | hc) | hc
    · exact hblank c (hg c hc)
    · exact hp c ((List.mem_replicate.mp hc).2 ▸ List.mem_cons_self)
    · exact hx.forall_mem (fun d hd => hp d (List.mem_cons_of_mem '+' hd)) c hc
    · exact hblank c (hg' c hc)

theorem notMem (h : Face u o) {d : Char} (hd : isBlank d = false)
    (hp : d ∉ "+-0123456789".toList) : d ∉ u := by
  intro hmem
  refine h.forall_mem (p := fun c => c ≠ d) (fun c hc => ?_) (fun c hc => ?_) d hmem rfl
  · rintro rfl
    exact nomatch hd.symm.trans hc
  · rintro rfl
    exact hp hc

end Face

/-- The usable members of a list are its faces. -/
theorem exists_of_faces (h : (us.filter fun u => !isAllBlank u).mapM usable = .ok ns) :
    ∃ os, List.Forall₂ Face us os ∧ os.reduceOption = ns := by
  induction us generalizing ns with
  | nil =>
    cases h
    exact ⟨[], List.Forall₂.nil, rfl⟩
  | cons u us ih =>
    cases hu : isAllBlank u with
    | true =>
      rw [List.filter_cons_of_neg (by rw [hu]; exact Bool.false_ne_true)] at h
      obtain ⟨os, hos, rfl⟩ := ih h
      exact ⟨none :: os, .cons (.blank (List.all_eq_true.mp hu)) hos,
        List.reduceOption_cons_of_none os⟩
    | false =>
      rw [List.filter_cons_of_pos (by rw [hu]; rfl), List.mapM_cons] at h
      obtain ⟨n, hn, h⟩ := exists_of_bind_eq_ok h
      obtain ⟨ns, hns, h⟩ := exists_of_bind_eq_ok h
      obtain rfl := Except.ok.inj h
      obtain ⟨os, hos, rfl⟩ := ih hns
      exact ⟨some n :: os, .cons (face_of_usable hn) hos, List.reduceOption_cons_of_some n os⟩

theorem mapM_usable_of_faces (h : List.Forall₂ Face us os) :
    (us.filter fun u => !isAllBlank u).mapM usable = .ok os.reduceOption := by
  induction h with
  | nil => rfl
  | @cons u o us os hu _ ih =>
    cases o with
    | none =>
      rw [List.filter_cons_of_neg (by rw [hu.isAllBlank_eq]; exact Bool.false_ne_true), ih,
        List.reduceOption_cons_of_none]
    | some n =>
      rw [List.filter_cons_of_pos (by rw [hu.isAllBlank_eq]; rfl), List.mapM_cons, hu.usable_eq, ih,
        List.reduceOption_cons_of_some]
      rfl

/-- Faces with commas between them, in brackets, are a literal. -/
theorem writes_faces (hne : us ≠ []) (h : List.Forall₂ Face us os) :
    Writes .literal ('[' :: join ',' us ++ [']']) [.amount (.faces os.reduceOption)] := by
  have hcomma : ∀ w ∈ us, ',' ∉ w := by
    intro w hw
    obtain ⟨o, -, ho⟩ := exists_of_forall₂ h hw
    exact ho.notMem (by decide) (by decide)
  refine Writes.faces (fun hbracket => ?_) ?_
  · rcases mem_join hbracket with heq | ⟨w, hw, hbracket⟩
    · exact absurd heq (by decide)
    · obtain ⟨o, -, ho⟩ := exists_of_forall₂ h hw
      exact ho.notMem (by decide) (by decide) hbracket
  · rw [pieces_join hne hcomma]
    exact mapM_usable_of_faces h

/-- A literal is faces in brackets, or dashes. -/
theorem exists_of_literal (h : Writes .literal x l) :
    (∃ us os, us ≠ [] ∧ List.Forall₂ Face us os ∧ x = '[' :: join ',' us ++ [']'] ∧
      l = [.amount (.faces os.reduceOption)]) ∨
    ∃ n, x = List.replicate (n + 1) '-' ∧ l = [.amount (.back (n + 1))] := by
  cases h with
  | @faces inner ns _ hns =>
    obtain ⟨os, hos, rfl⟩ := exists_of_faces hns
    exact Or.inl ⟨_, os, List.length_pos_iff.mp (length_pieces_pos _ inner), hos,
      by rw [join_pieces], rfl⟩
  | back n => exact Or.inr ⟨n, rfl, rfl⟩

/-! ## Squeezing -/

/-- A face is squeezed to one. -/
theorem Face.squeezeFrom (h : Face u o) (written : Bool) : Face (squeezeFrom written u) o := by
  cases h with
  | blank hg => exact .blank (isBlank_of_mem_squeezeFrom hg written)
  | @number g x g' n k hg hg' hx =>
    have hw := not_isBlank_of_pluses hx k
    have hne : List.replicate k '+' ++ x ≠ [] := by simp [hx.ne_nil]
    have hhead : ∀ c ∈ (List.replicate k '+' ++ x ++ g').head?, isBlank c = false := by
      intro c hc
      rw [List.head?_append_of_ne_nil _ hne] at hc
      exact hw c (List.mem_of_head? hc)
    have hsqueeze : squeeze (List.replicate k '+' ++ x ++ g') =
        List.replicate k '+' ++ x ++ squeeze g' := squeezeFrom_append_of_not_blank hw hne false g'
    rw [squeezeFrom_append_of_head (List.append_ne_nil_of_left_ne_nil hne g') hhead, hsqueeze]
    exact .number k (isBlank_of_mem_squeezeFrom hg written)
      (isBlank_of_mem_squeezeFrom hg' false) hx

theorem exists_squeezeFrom_join (h : List.Forall₂ Face us os) (written : Bool) :
    ∃ vs, List.Forall₂ Face vs os ∧ squeezeFrom written (join ',' us) = join ',' vs := by
  induction h generalizing written with
  | nil => exact ⟨[], .nil, rfl⟩
  | @cons u o us os hu hus ih =>
    cases hus with
    | nil => exact ⟨[_], .cons (hu.squeezeFrom written) .nil, rfl⟩
    | @cons u' o' us os hu' hus =>
      obtain ⟨vs, hvs, heq⟩ := ih false
      refine ⟨Text.squeezeFrom written u :: vs, .cons (hu.squeezeFrom written) hvs, ?_⟩
      have hjoin : join ',' (u :: u' :: us) = u ++ ',' :: join ',' (u' :: us) := rfl
      cases hvs with
      | cons _ _ => rw [hjoin, squeezeFrom_append_cons (by decide), heq]; rfl

/-- **A part is squeezed to one that sets the same.** -/
theorem Writes.squeeze (h : Writes r x l) : Writes r (squeeze x) l := by
  by_cases hr : r = .literal
  · subst hr
    rcases exists_of_literal h with ⟨us, os, hne, hus, rfl, rfl⟩ | ⟨n, rfl, rfl⟩
    · obtain ⟨vs, hvs, heq⟩ := exists_squeezeFrom_join hus false
      have hsqueeze : Text.squeeze ('[' :: join ',' us ++ [']']) = '[' :: join ',' vs ++ [']'] := by
        unfold Text.squeeze
        rw [squeezeFrom_concat (by decide), ← heq]
        exact congrArg (· ++ [']']) (squeezeFrom_append_cons (d := '[') (by decide) false [] _)
      have hvne : vs ≠ [] := by
        rintro rfl
        cases hvs
        cases hus
        exact hne rfl
      rw [hsqueeze]
      exact writes_faces hvne hvs
    · rw [squeeze_of_not_blank fun c hc => by rw [(List.mem_replicate.mp hc).2]; decide]
      exact h
  · rw [squeeze_of_not_blank (h.not_isBlank hr)]
    exact h

/-- A piece with its blanks squeezed. -/
def Piece.squeezed (p : Piece) : Piece where
  gap := squeeze p.gap
  rule := p.rule
  text := squeeze p.text
  settings := p.settings
  blank := isBlank_of_mem_squeezeFrom p.blank false
  writes := p.writes.squeeze

theorem restate_squeezed (ps : List Piece) : Restate ps (ps.map Piece.squeezed) := by
  induction ps with
  | nil => exact .nil
  | cons p ps ih => exact .cons ⟨rfl, rfl, squeeze_eq_nil_iff⟩ ih

/-- **Squeezing a code squeezes its pieces.** -/
theorem squeeze_render (ps : List Piece) :
    squeeze (render ps) = render (ps.map Piece.squeezed) := by
  induction ps with
  | nil => rfl
  | cons p ps ih =>
    obtain ⟨hhead, hlast⟩ := p.writes.not_blank_ends
    have hfull : squeeze p.full = p.squeezed.full :=
      squeezeFrom_append_of_head p.writes.ne_nil hhead false p.gap
    have hend : ∀ c ∈ p.full.getLast?, isBlank c = false := by
      intro c hc
      rw [Piece.full, List.getLast?_append_of_ne_nil _ p.writes.ne_nil] at hc
      exact hlast c hc
    rw [render_cons, squeeze_append_of_getLast hend, hfull, ih]
    rfl

/-! ## Folding -/

/-- A face is folded to one. -/
theorem refolds_face (h : Face u o) (hs : Delimited s) : Refolds u s (Face · o) := by
  cases h with
  | blank hg =>
    refine (refolds_blanks hg s).imp ?_
    rintro _ rfl
    exact .blank hg
  | @number g x g' n k hg hg' hx =>
    have hnumber := refolds_pluses hx (hs.breaks hg') k
    have hend := hnumber.append_right (refolds_blanks hg' s)
    refine ((refolds_blanks hg _).append_left hend).imp ?_
    rintro _ ⟨_, ⟨_, ⟨j, y, hy, rfl⟩, rfl⟩, rfl⟩
    exact .number j hg hg' hy

theorem refolds_literal (h : Writes .literal x l) (hs : Breaks s) :
    Refolds x s (Writes .literal · l) := by
  rcases exists_of_literal h with ⟨us, os, hne, hus, rfl, rfl⟩ | ⟨n, rfl, rfl⟩
  · have hfaces := refolds_join (s := ']' :: s) (fun u o s hu hs => refolds_face hu hs)
      ⟨']', by decide, s, rfl⟩ hus
    have hend := hfaces.append_right (refolds_plain (x := [']']) (by decide) s)
    refine ((refolds_plain (x := ['[']) (by decide) _).append_left hend).imp ?_
    rintro _ ⟨_, ⟨_, ⟨vs, hvs, rfl⟩, rfl⟩, rfl⟩
    refine writes_faces ?_ hvs
    rintro rfl
    cases hvs
    cases hus
    exact hne rfl
  · refine (refolds_dashes (fun c hc => (hs.1 c hc).1) (n + 1)).imp ?_
    rintro _ rfl
    exact h

/-- **A part is folded to one that sets the same.** -/
theorem Writes.refolds (h : Writes r x l) (hs : r ≠ .selectors → Breaks s) :
    Refolds x s (Writes r · l) := by
  have hmark : ∀ {c : Char} {r : Rule}, mark? c = some r →
      isSign c = false ∧ isDecimalDigit c = false := fun hc =>
    forall_of_mark (p := fun c _ => isSign c = false ∧ isDecimalDigit c = false) (by decide) hc
  have hcopied : Refolds x s (· = x) → Refolds x s (Writes r · l) := by
    intro hx
    refine hx.imp ?_
    rintro _ rfl
    exact h
  cases h with
  | selectors hws =>
    have hranks := refolds_join (s := '@' :: s)
      (fun u n s hu hs => refolds_spells hu (hs.breaks (b := []) (by simp)))
      ⟨'@', by decide, s, rfl⟩ hws
    refine (hranks.append_right (refolds_plain (x := ['@']) (by decide) s)).imp ?_
    rintro _ ⟨_, ⟨vs, hvs, rfl⟩, rfl⟩
    exact .selectors hvs
  | sides hw hn =>
    have hoperand := hw.operand? (hs (by decide)).1
    exact hcopied (refolds_glued rfl (by decide) (by decide) hoperand List.flatten_singleton)
  | @rerolls c sign w n hc hsign hw hn =>
    obtain ⟨hfirst, hdigit⟩ : isSign c = false ∧ isDecimalDigit c = false := by
      rcases hc with rfl | rfl
      · exact hmark rfl
      · exact hmark rfl
    have hglues : glues c = true := by
      rcases hc with rfl | rfl
      · decide
      · decide
    have hnumber : ∃ tokens, operand? (sign ++ w ++ s) = some (tokens, s) ∧
        tokens.flatten = sign ++ w := by
      rcases hsign with rfl | rfl | rfl
      · exact ⟨_, hw.operand? (hs (by decide)).1, List.flatten_singleton⟩
      · exact ⟨_, operand?_sign_append rfl hw (hs (by decide)).1, by simp⟩
      · exact ⟨_, operand?_sign_append rfl hw (hs (by decide)).1, by simp⟩
    obtain ⟨tokens, hoperand, hflatten⟩ := hnumber
    exact hcopied (refolds_glued hfirst hdigit hglues hoperand hflatten)
  | sort => exact hcopied (refolds_plain (by decide) s)
  | count hx => exact (refolds_spells hx (hs (by decide))).imp fun y hy => .count hy
  | faces hinner hns => exact refolds_literal (.faces hinner hns) (hs (by decide))
  | back n => exact refolds_literal (.back n) (hs (by decide))
  | suffix hc =>
    refine hcopied (refolds_plain (fun d hd => ?_) s)
    rw [List.mem_singleton.mp hd]
    exact hmark (mark?_eq_suffix_iff.mpr ⟨_, hc⟩)
  | @threshold c w n hc hw hn =>
    have hoperand := hw.operand? (hs (by decide)).1
    refine hcopied ?_
    rcases hc with rfl | rfl
    · exact refolds_glued rfl (by decide) (by decide) hoperand List.flatten_singleton
    · exact refolds_glued rfl (by decide) (by decide) hoperand List.flatten_singleton
  | bangs n =>
    refine hcopied (refolds_plain (fun d hd => ?_) s)
    rw [(List.mem_replicate.mp hd).2]
    exact hmark rfl

/-- A number is not gone on with by the parts that come after the amount. -/
theorem breaks_render (h : ∀ q ∈ ps, q.rule.isLate = true) : Breaks (render ps) := by
  rcases exists_of_isLate h with hnil | ⟨g, c, t, r, heq, hg, hc⟩
  · rw [hnil]
    exact ⟨by rintro c ⟨⟩, rfl⟩
  · rw [heq]
    exact breaks_append hg (forall_of_mark (p := fun c _ =>
      isBlank c = false ∧ isDecimalDigit c = false ∧ c ≠ '.' ∧ c ∉ "+-*/".toList) (by decide) hc) t

/-- **A code is folded piece by piece.** -/
theorem Laid.refolds (h : Laid a ps []) :
    Refolds (render ps) [] fun t => ∃ qs, Restate ps qs ∧ t = render qs := by
  induction ps generalizing a with
  | nil => exact (refolds_nil []).imp fun t ht => ⟨[], .nil, ht⟩
  | cons p ps ih =>
    have hpart : Refolds p.text (render ps ++ []) (Writes p.rule · p.settings) := by
      refine p.writes.refolds fun hp => ?_
      rw [List.append_nil]
      exact breaks_render (h.isLate hp)
    have hfull := (refolds_blanks p.blank _).append_left hpart
    refine hfull.append (ih h.2) ?_
    rintro _ _ ⟨v, hv, rfl⟩ ⟨qs, hqs, rfl⟩
    exact ⟨⟨p.gap, p.rule, v, p.settings, p.blank, hv⟩ :: qs, .cons ⟨rfl, rfl, Iff.rfl⟩ hqs, rfl⟩

/-- **Folding the numbers of a code does not change what it is read as.** -/
theorem read_foldNumbers {t t' : Text} {p : Parameters} (h : read t = .ok p)
    (hfold : foldNumbers t = .ok t') : read t' = .ok p := by
  obtain ⟨ps, hps, htrim, hp⟩ := read_eq_ok_iff_exists_layout.mp h
  have hsqueezed := restate_squeezed ps
  have hlayout := hps.restate hsqueezed
  unfold foldNumbers at hfold
  rw [htrim, squeeze_render] at hfold
  obtain ⟨qs, hqs, rfl⟩ := hlayout.laid.refolds.of_foldFrom hfold
  have hgap := hqs.gap_eq_nil (hsqueezed.gap_eq_nil (gap_eq_nil_of_trim htrim))
  refine (hlayout.restate hqs).read (trim_render hgap) ?_
  rw [hqs.settings_eq, hsqueezed.settings_eq]
  exact hp

theorem read_foldNumbers_of_signs :
    read "2,-05@  -03r-01!".toList = .ok
      { amount := .count (-3), rerolls := -1, explosion := 1,
        reduction := some (.ranks 2 [-5]) } ∧
    foldNumbers "2,-05@  -03r-01!".toList = .ok "2,-5@ -3r-01!".toList ∧
    read "2,-5@ -3r-01!".toList = .ok
      { amount := .count (-3), rerolls := -1, explosion := 1,
        reduction := some (.ranks 2 [-5]) } := by
  have hread : read "2,-05@  -03r-01!".toList = .ok
      { amount := .count (-3), rerolls := -1, explosion := 1,
        reduction := some (.ranks 2 [-5]) } := by decide +kernel
  have hfold : foldNumbers "2,-05@  -03r-01!".toList = .ok "2,-5@ -3r-01!".toList := by
    decide +kernel
  exact ⟨hread, hfold, read_foldNumbers hread hfold⟩

end DiceNotation.DiceCode
