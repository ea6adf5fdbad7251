import DiceNotation.Proofs.Runs.Alone
import Mathlib

/-!
# Folding a text twice

What a text is folded to has the value of a run wherever the text has the run, and between the
values it has what the text has between the runs.  Folding it once more leaves it alone if every
value is left alone where it stands, and otherwise changes it.  Which values these are is said on
the runs of the text that was folded first: they are the quiet ones.

The induction is on the way through the text.  A sign that is copied is read together with the value
behind it, so the text is followed with such a sign before it and without.

* `Site.fixed_append_iff`, `Site.fixed_cons_append_iff`: one value, without a sign before it and
  with one.
* `ToldByRuns`, `Folds.toldByRuns`: the values of a text.
* `foldNumbers_render`: the decimal text of a number is folded to itself.
* `foldNumbers_twice`: what a text is folded to is folded to itself exactly if all values are quiet.
-/

namespace DiceNotation.NumberRun

open Text

/-! ## Runs -/

/-- The value of a run that begins with a sign is written as a number is. -/
theorem numberText_of_operand? {t rest v : Text} {tokens more : List Text}
    (hoperand : operand? t = some (tokens, rest)) (ht : number? t = none)
    (h : fold (tokens ++ more) = .ok v) : NumberText v := by
  obtain ⟨n, hn, hstops, ⟨-, rfl⟩ | ⟨c, -, rfl, -⟩⟩ := operand?_eq_some_iff.mp hoperand
  · cases ht.symm.trans (number?_eq_some_iff.mpr ⟨hn, hstops, rfl⟩)
  · have hplain : ¬ isPlainNumber ([[c], n] ++ more) = true := Bool.false_ne_true
    exact numberText_of_fold hplain h

theorem forValues_cons_iff {P : Site → Text → Text → Prop} {x : Site} {xs : List Site} {v w : Text}
    (hv : fold x.tokens = .ok v) (hw : foldFrom true x.after = .ok w) :
    ForValues P (x :: xs) ↔ P x v w ∧ ForValues P xs := by
  unfold ForValues
  rw [List.forall_mem_cons]
  refine and_congr_left fun _ => ⟨fun h => h v w hv hw, fun h v' w' hv' hw' => ?_⟩
  cases hv.symm.trans hv'
  cases hw.symm.trans hw'
  exact h

namespace Site

variable {x : Site} {v w : Text}

/-- Apart from signs before it, a value is quiet if it is left alone where it stands. -/
theorem quiet_iff_alone (hnext : next? x.after = none) (hw : foldFrom true x.after = .ok w) :
    x.Quiet v w ↔ (x.before = .sign '+' → number? v = none) ∧
      (x.before = .sign '-' → v = ['0'] → TakesFraction v w) ∧ Alone v w := by
  have hrejoins := next?_eq_none_iff_rejoins hnext hw
  constructor
  · intro h
    exact ⟨h.plus, h.minus, h.fraction, fun hno hv => hrejoins.mpr (h.alone hno hv)⟩
  · rintro ⟨hplus, hminus, halone⟩
    exact ⟨hplus, hminus, halone.fraction, fun hno hv => hrejoins.mp (halone.next hno hv)⟩

theorem head_of_foldFrom {t : Text} (hnext : next? t = none) (hw : foldFrom true t = .ok w) :
    ∀ c ∈ w.head?, isDecimalDigit c = false := by
  rw [(folds_iff.mpr hw).head?_eq]
  exact head_of_operand?_eq_none (operand?_eq_none_of_next? hnext)

/-- **A value that no sign stands before.** -/
theorem fixed_append_iff (hbefore : x.before = .nothing) (hv : RunValue v)
    (hnext : next? x.after = none) (hw : foldFrom true x.after = .ok w) (hrange : x.InRange v w) :
    Fixed false (v ++ w) ↔ x.Stays v w ∧ Fixed true w := by
  have hglued : ¬ x.Glued v := by
    rintro ⟨⟨c, hc⟩, -⟩
    cases hbefore.symm.trans hc
  rw [hv.fixed_append_iff (head_of_foldFrom hnext hw) fun hno n hn => (hrange hno n hn).1,
    Stays, quiet_iff_alone hnext hw, hbefore]
  simp [hglued]

/-- **A value with a sign before it that was copied.** -/
theorem fixed_cons_append_iff {g : Bool} {c : Char} (hc : isSign c = true)
    (hbefore : x.before = Before.of g c) (hv : NumberText v) (hnext : next? x.after = none)
    (hw : foldFrom true x.after = .ok w) (hrange : x.InRange v w) :
    Fixed g (c :: (v ++ w)) ↔ x.Stays v w ∧ Fixed true w := by
  have hhead := head_of_foldFrom hnext hw
  unfold Before.of at hbefore
  rw [if_pos hc] at hbefore
  by_cases hd : number? v = none
  · have hglued : ¬ x.Glued v := fun h => h.2 hd
    have hzero : v ≠ ['0'] := by
      rintro rfl
      exact absurd hd (by decide)
    rw [fixed_sign_iff hc ((number?_append_eq_none_iff hv.runValue.ne_nil).mpr hd),
      hv.runValue.fixed_append_iff hhead fun hno n hn => (hrange hno n hn).1, Stays,
      quiet_iff_alone hnext hw]
    tauto
  · cases g with
    | true =>
      rw [hv.runValue.fixed_glued_append_iff hd hc]
      exact (and_iff_right (Or.inl ⟨⟨c, hbefore⟩, hd⟩)).symm
    | false =>
      have hglued : ¬ x.Glued v := by
        rintro ⟨⟨d, hd⟩, -⟩
        cases hbefore.symm.trans hd
      rw [Stays, quiet_iff_alone hnext hw, hbefore]
      by_cases hplus : c = '+'
      · subst hplus
        have hno := hv.runValue.not_fixed_plus_append (w := w) hd
        simp [hglued, hno, hd]
      · obtain rfl : c = '-' := by
          rw [isSign, Bool.or_eq_true, beq_iff_eq, beq_iff_eq] at hc
          exact hc.resolve_left hplus
        rw [hv.fixed_minus_append_iff hd hhead fun hno n hn => (hrange hno n hn).2 hbefore]
        simp [hglued]
        tauto

end Site

/-! ## Texts -/

/-- Of a text behind a character no more than its first one matters, and this only behind a sign. -/
theorem operand?_cons_eq_none_congr {c : Char} {t u : Text}
    (h : isSign c = true → t.head? = u.head?) :
    operand? (c :: t) = none ↔ operand? (c :: u) = none := by
  rw [operand?_eq_none_iff, operand?_eq_none_iff]
  split
  · next hc => rw [number?_eq_none_iff, number?_eq_none_iff, h hc]
  · rfl

theorem follows_congr {g : Bool} {c : Char} {t u : Text} (h : isSign c = true → t.head? = u.head?) :
    follows g c t = follows g c u := by
  have hcongr := operand?_cons_eq_none_congr h
  unfold follows
  by_cases hnone : operand? (c :: t) = none
  · rw [hnone, hcongr.mp hnone]
  · have hnone' := mt hcongr.mpr hnone
    rw [Option.isSome_iff_ne_none.mpr hnone, Option.isSome_iff_ne_none.mpr hnone']

/-- Whether `u`, which `t` is folded to, is left alone is told by the runs of `t`, also behind a
sign that was copied before the text. -/
structure ToldByRuns (g : Bool) (t u : Text) : Prop where
  bare : InRange (sitesFrom g .nothing t) → (Fixed g u ↔ Quiet (sitesFrom g .nothing t))
  signed : ∀ g₀ c, isSign c = true → (g₀ = true ∨ operand? (c :: t) = none) → follows g₀ c t = g →
    InRange (sitesFrom g (Before.of g₀ c) t) →
      (Fixed g₀ (c :: u) ↔ Quiet (sitesFrom g (Before.of g₀ c) t))

namespace ToldByRuns

variable {g : Bool} {c : Char} {t rest u v : Text} {tokens : List Text}

theorem stop : ToldByRuns g [] [] := by
  have hsites : ∀ b, sitesFrom g b [] = [] := fun b => by rw [sitesFrom]
  have hquiet : Quiet [] := List.forall_mem_nil _
  constructor
  · intro _
    rw [hsites]
    exact iff_of_true .stop hquiet
  · intro g₀ c _ hc _ _
    rw [hsites]
    exact iff_of_true (.copy hc .stop) hquiet

/-- A character that is copied stands before the text behind it, as a sign or not. -/
theorem copy (hc : g = true ∨ operand? (c :: t) = none) (h : ToldByRuns (follows g c t) t u) :
    ToldByRuns g (c :: t) (c :: u) := by
  have hfixed : InRange (sitesFrom (follows g c t) (Before.of g c) t) →
      (Fixed g (c :: u) ↔ Quiet (sitesFrom (follows g c t) (Before.of g c) t)) := by
    by_cases hsign : isSign c = true
    · exact h.signed g c hsign hc rfl
    · have hhead : isSign c = true → t.head? = u.head? := fun h => absurd h hsign
      have hbefore : Before.of g c = .nothing := if_neg hsign
      rw [hbefore, fixed_cons_iff (hc.imp_right (operand?_cons_eq_none_congr hhead).mp),
        ← follows_congr hhead]
      exact h.bare
  constructor
  · intro hrange
    rw [sitesFrom_cons hc] at hrange ⊢
    exact hfixed hrange
  · -- the character `c` stands between the sign and the first run
    intro g₀ c₀ _ hc₀ hg hrange
    have hhead : isSign c₀ = true → (c :: t).head? = (c :: u).head? := fun _ => rfl
    rw [sitesFrom_cons hc] at hrange ⊢
    rw [fixed_cons_iff (hc₀.imp_right (operand?_cons_eq_none_congr hhead).mp),
      ← follows_congr hhead, hg]
    exact hfixed hrange

/-- A value is quiet or not, and the text behind the run is told of by its own runs. -/
theorem run (hoperand : operand? t = some (tokens, rest))
    (hfold : fold (tokens ++ (continuation rest).1) = .ok v)
    (hfolds : Folds true (continuation rest).2 u) (h : ToldByRuns true (continuation rest).2 u) :
    ToldByRuns false t (v ++ u) := by
  have hnext := next?_continuation rest
  have hw := folds_iff.mp hfolds
  have hcons : ∀ (P : Site → Text → Text → Prop) (b : Before), ForValues P (sitesFrom false b t) ↔
      P ⟨b, tokens ++ (continuation rest).1, (continuation rest).2⟩ v u ∧
        ForValues P (sitesFrom true .nothing (continuation rest).2) := by
    intro P b
    rw [sitesFrom_of_operand? hoperand, if_neg Bool.false_ne_true]
    exact forValues_cons_iff hfold hw
  constructor
  · intro hrange
    obtain ⟨hx, hxs⟩ := (hcons Site.InRange _).mp hrange
    have hsite := Site.fixed_append_iff rfl (runValue_of_fold hoperand hfold) hnext hw hx
    rw [hsite, h.bare hxs]
    exact (hcons Site.Stays _).symm
  · intro g₀ c hc hc₀ hg hrange
    have hnone : operand? (c :: t) = none := by
      by_contra hsome
      obtain rfl := hc₀.resolve_right hsome
      cases (follows_of_operand? hsome).symm.trans hg
    rw [operand?_eq_none_iff, if_pos hc] at hnone
    obtain ⟨hx, hxs⟩ := (hcons Site.InRange _).mp hrange
    have hvalue := numberText_of_operand? hoperand hnone hfold
    have hsite := Site.fixed_cons_append_iff hc rfl hvalue hnext hw hx
    rw [hsite, h.bare hxs]
    exact (hcons Site.Stays _).symm

end ToldByRuns

/-- **What a text is folded to is left alone** exactly if all values are quiet, also behind a sign
that was copied before the text. -/
theorem Folds.toldByRuns {g : Bool} {t u : Text} (h : Folds g t u) : ToldByRuns g t u := by
  induction h with
  | stop => exact .stop
  | copy hc _ ih => exact .copy hc ih
  | run hoperand hfold hfolds ih => exact .run hoperand hfold hfolds ih

/-! ## Folding twice -/

/-- What a text is folded to is folded as it is, because its spaces are single. -/
theorem foldNumbers_eq_foldFrom {t u : Text} (h : foldNumbers t = .ok u) :
    foldNumbers u = foldFrom false u := by
  have hfolds := folds_iff.mpr h
  have hneat := hfolds.neat (neat_squeeze_trim t)
  have hhead := hfolds.not_isBlank_head? (Strung.not_blank_ends t).1
  unfold foldNumbers
  rw [hneat.squeeze_trim_eq hhead]

/-- **The decimal text of a number is folded to itself**, unless it is that of the least one: the
digits are read apart from the minus, and there they are out of range. -/
theorem foldNumbers_render {n : Int} (h : Whole.lowest < n) :
    foldNumbers (Whole.render n) = .ok (Whole.render n) := by
  have hvalue := (numberText_render n).runValue
  have hno : ¬ TakesFraction (Whole.render n) [] := fun h => h.2 rfl
  have halone : Alone (Whole.render n) [] := ⟨fun h => absurd h hno, fun _ _ => rfl⟩
  have hfixed : Fixed false (Whole.render n) := by
    rw [← List.append_nil (Whole.render n)]
    refine (hvalue.fixed_append_iff (w := []) nofun fun _ m hm _ => ?_).mpr ⟨halone, .stop⟩
    cases (Whole.readInt?_render n).symm.trans hm
    exact h
  have htrim : trim (Whole.render n) = Whole.render n :=
    trim_of_not_blank (fun c hc => hvalue.not_isBlank c (List.mem_of_head? hc))
      fun c hc => hvalue.not_isBlank c (List.mem_of_getLast? hc)
  unfold foldNumbers
  rw [htrim, squeeze_of_not_blank hvalue.not_isBlank]
  exact fixed_iff.mp hfixed

/-- **Folding twice is folding once** exactly where all values are quiet, of the texts whose values
have digits that can be read.  So it is for the decimal texts of all numbers but the least one. -/
theorem foldNumbers_twice :
    (∀ t u, foldNumbers t = .ok u → InRange (sites t) →
        (foldNumbers u = .ok u ↔ Quiet (sites t))) ∧
      ∀ n, Whole.lowest < n → foldNumbers (Whole.render n) = .ok (Whole.render n) := by
  refine ⟨fun t u h hrange => ?_, fun n => foldNumbers_render⟩
  rw [foldNumbers_eq_foldFrom h, ← fixed_iff]
  exact (folds_iff.mpr h).toldByRuns.bare hrange

/-- Values behind a glued sign and behind a minus that was copied, and one that gets a fraction; and
a value that becomes the number of a plus. -/
theorem foldNumbers_twice_with_fractions :
    (foldNumbers "7/2 d10++3, 2d6 -+3, 4.0.5 (- 2-5)".toList =
        .ok "3.5 d10+3, 2d6 -3, 4.5 (- -3)".toList ∧
      foldNumbers "3.5 d10+3, 2d6 -3, 4.5 (- -3)".toList =
        .ok "3.5 d10+3, 2d6 -3, 4.5 (- -3)".toList) ∧
      (foldNumbers "++3".toList = .ok "+3".toList ∧ foldNumbers "+3".toList ≠ .ok "+3".toList) ∧
      foldNumbers (Whole.render (-3)) = .ok (Whole.render (-3)) := by
  have hquiet : foldNumbers "7/2 d10++3, 2d6 -+3, 4.0.5 (- 2-5)".toList =
      .ok "3.5 d10+3, 2d6 -3, 4.5 (- -3)".toList := by decide +kernel
  have hplus : foldNumbers "++3".toList = .ok "+3".toList := by decide +kernel
  refine ⟨⟨hquiet, ?_⟩, ⟨hplus, ?_⟩, foldNumbers_twice.2 (-3) (by decide)⟩
  · exact (foldNumbers_twice.1 _ _ hquiet (by decide +kernel)).mpr (by decide +kernel)
  · exact mt (foldNumbers_twice.1 _ _ hplus (by decide +kernel)).mp (by decide +kernel)

/-- A value becomes the number of a plus, or of a minus though it is zero; it gets a fraction that
is not written as its double, or one with a number behind it; a number comes to stand behind its
operator; or its digits cannot be read. -/
theorem foldNumbers_twice_differs :
    (foldNumbers "++3".toList = .ok "+3".toList ∧ foldNumbers "+3".toList = .ok "3".toList) ∧
      (foldNumbers "-+0".toList = .ok "-0".toList ∧ foldNumbers "-0".toList = .ok "0".toList) ∧
      (foldNumbers "4.0.50".toList = .ok "4.50".toList ∧
        foldNumbers "4.50".toList = .ok "4.5".toList) ∧
      (foldNumbers "4.0.5 6".toList = .ok "4.5 6".toList ∧
        foldNumbers "4.5 6".toList = .ok "10.5".toList) ∧
      (foldNumbers "5 *-+3".toList = .ok "5 *-3".toList ∧
        foldNumbers "5 *-3".toList = .ok "-15".toList) ∧
      foldNumbers "0-9223372036854775807-1".toList = .ok "-9223372036854775808".toList ∧
        foldNumbers "-9223372036854775808".toList =
          .error (.parse (.badNumber ⟨.integer, "9223372036854775808".toList, 1⟩)) := by
  refine ⟨⟨?_, ?_⟩, ⟨?_, ?_⟩, ⟨?_, ?_⟩, ⟨?_, ?_⟩, ⟨?_, ?_⟩, ?_, ?_⟩
  all_goals decide +kernel

end DiceNotation.NumberRun
