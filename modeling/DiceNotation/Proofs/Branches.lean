import DiceNotation.Proofs.FiringOrder
import DiceNotation.Proofs.PlainRolls
import DiceNotation.Proofs.TriggerSpans
import DiceNotation.Roller.Stepping

/-!
# The branch that is not taken

A conditional has a branch for when its condition holds and one for when it does not, and only the
one that the value of the condition selects comes into the text.  The other branch is read when the
text is scanned, and after that nothing looks at it: neither the triggers that fire before the
conditional, although they may take words from the text around it, nor the conditional itself.

So two texts that differ in that branch alone are evaluated in the same way.  Scanning reads the
same triggers from them but for one (`Script.cases_of_scan_around`), and this one fires in the same
way in every session in which it may come to fire.

* `Script.cases_of_scan_around`: what scanning makes of the text around a span.
* `Trigger.fireAll_congr`: triggers that differ in one place.
* `Resolution.tree_congr`: texts whose triggers leave the same text.
* `unselected_branches_do_not_matter`.
-/

namespace DiceNotation

/-! ## Around a span -/

namespace Script

variable {a b lead : Text} {spans : List (Text × Text)}

theorem Spanned.count_eq (h : Spanned a lead spans) : a.count '&' = 2 * spans.length := by
  obtain ⟨rfl, hlead, hspans⟩ := h
  induction spans generalizing lead with
  | nil => rw [List.flatMap_nil, List.append_nil, List.count_eq_zero.mpr hlead, List.length_nil]
  | cons span spans ih =>
    obtain ⟨hinside, hafter⟩ := hspans span List.mem_cons_self
    have hlater := ih hafter fun span hspan => hspans span (List.mem_cons_of_mem _ hspan)
    rw [List.flatMap_cons, List.count_append, List.count_eq_zero.mpr hlead, List.cons_append,
      List.count_cons_self, List.append_assoc, List.count_append, List.count_eq_zero.mpr hinside,
      List.cons_append, List.count_cons_self, hlater, List.length_cons]
    omega

/-- Texts cut at their ampersands are cut there as well with a span between them. -/
theorem Spanned.around {lead' : Text} {spans' : List (Text × Text)} (ha : Spanned a lead spans)
    (hb : Spanned b lead' spans') {inside : Text} (hinside : '&' ∉ inside) :
    Spanned (a ++ '&' :: (inside ++ '&' :: b)) lead (spans ++ (inside, lead') :: spans') where
  text_eq := by
    rw [ha.text_eq, hb.text_eq]
    simp
  lead_plain := ha.lead_plain
  spans_plain span hspan := by
    rcases List.mem_append.mp hspan with hspan | hspan
    · exact ha.spans_plain span hspan
    rcases List.mem_cons.mp hspan with rfl | hspan
    · exact ⟨hinside, hb.lead_plain⟩
    · exact hb.spans_plain span hspan

/-- Reading spans fails because of a span other than the one in question, or the others are read
whatever trigger this one is. -/
theorem cases_of_ofPieces_around (spans later : List (Text × Text)) (text : Text) :
    (∃ e, ∀ inside trigger, Trigger.parse inside = .ok trigger →
      ofPieces ((spans ++ (inside, text) :: later).flatMap fun span => [span.1, span.2]) =
        .error e) ∨
    ∃ done rest, done.length = spans.length ∧ ∀ inside trigger,
      Trigger.parse inside = .ok trigger →
      ofPieces ((spans ++ (inside, text) :: later).flatMap fun span => [span.1, span.2]) =
        .ok (done ++ (trigger, text) :: rest) := by
  induction spans with
  | nil =>
    cases hlater : ofPieces (later.flatMap fun span => [span.1, span.2]) with
    | error e =>
      refine Or.inl ⟨e, fun inside trigger hread => ?_⟩
      rw [List.nil_append, List.flatMap_cons, List.cons_append, List.singleton_append, ofPieces,
        hread, hlater]
      rfl
    | ok rest =>
      refine Or.inr ⟨[], rest, rfl, fun inside trigger hread => ?_⟩
      rw [List.nil_append, List.flatMap_cons, List.cons_append, List.singleton_append, ofPieces,
        hread, hlater]
      rfl
  | cons span spans ih =>
    cases hspan : Trigger.parse span.1 with
    | error e =>
      refine Or.inl ⟨e, fun inside trigger hread => ?_⟩
      rw [List.cons_append, List.flatMap_cons, List.cons_append, List.singleton_append, ofPieces,
        hspan]
      rfl
    | ok first =>
      rcases ih with ⟨e, he⟩ | ⟨done, rest, hlength, hok⟩
      · refine Or.inl ⟨e, fun inside trigger hread => ?_⟩
        rw [List.cons_append, List.flatMap_cons, List.cons_append, List.singleton_append, ofPieces,
          hspan, he inside trigger hread]
        rfl
      · refine Or.inr ⟨(first, span.2) :: done, rest, ?_, fun inside trigger hread => ?_⟩
        · rw [List.length_cons, List.length_cons, hlength]
        · rw [List.cons_append, List.flatMap_cons, List.cons_append, List.singleton_append,
            ofPieces, hspan, hok inside trigger hread]
          rfl

/-- **Around a span the text is scanned in the same way**, whatever trigger the span is. -/
theorem cases_of_scan_around (ha : Even (a.count '&')) (hb : Even (b.count '&')) :
    (∃ e, ∀ inside trigger, '&' ∉ inside → Trigger.parse inside = .ok trigger →
      scan (a ++ '&' :: (inside ++ '&' :: b)) = .error e) ∨
    ∃ lead done text rest, done.length = a.count '&' / 2 ∧ ∀ inside trigger, '&' ∉ inside →
      Trigger.parse inside = .ok trigger →
      scan (a ++ '&' :: (inside ++ '&' :: b)) = .ok ⟨lead, done ++ (trigger, text) :: rest⟩ := by
  obtain ⟨lead, spans, hspans⟩ := exists_spanned ha
  obtain ⟨text, later, hlater⟩ := exists_spanned hb
  have hscan : ∀ inside, '&' ∉ inside → scan (a ++ '&' :: (inside ++ '&' :: b)) = (do
      let rest ← ofPieces ((spans ++ (inside, text) :: later).flatMap fun span => [span.1, span.2])
      return ⟨lead, rest⟩) := fun inside hinside => (hspans.around hlater hinside).scan_eq
  rcases cases_of_ofPieces_around spans later text with ⟨e, he⟩ | ⟨done, rest, hlength, hok⟩
  · refine Or.inl ⟨e, fun inside trigger hinside hread => ?_⟩
    rw [hscan inside hinside, he inside trigger hread]
    rfl
  · refine Or.inr ⟨lead, done, text, rest, ?_, fun inside trigger hinside hread => ?_⟩
    · rw [hlength, hspans.count_eq, Nat.mul_div_cancel_left _ Nat.two_pos]
    · rw [hscan inside hinside, hok inside trigger hread]
      rfl

end Script

/-! ## Triggers that differ in one place -/

namespace Trigger

variable {ρ : Type} {again : Reentry ρ} {s : Session ρ} {around : Surroundings}

/-- Triggers fire in the same way if the one in which they differ does, wherever it may fire. -/
theorem fireAll_congr {t t' : Trigger} {done later : List Trigger}
    (h : ∀ outs around' u, Fired again done around s outs around' u →
      fire again t around' u = fire again t' around' u) :
    fireAll again (done ++ t :: later) around s = fireAll again (done ++ t' :: later) around s := by
  induction done generalizing around s with
  | nil => exact Turn.bind_congr_at (h [] around s (.nil around s)) fun _ _ _ => rfl
  | cons first done ih =>
    refine Turn.bind_congr_at rfl fun answer u hfirst => ?_
    obtain ⟨output, left⟩ := answer
    exact ih fun outs around' v hfired => h (output :: outs) around' v (.cons hfirst hfired)

/-- Conditionals with the same condition fire in the same way if what it selects is the same. -/
theorem fire_conditional_congr {condition yes no yes' no' : Text}
    (h : ∀ r u, again.evaluate condition s = .ok r u →
      if 0 < r.value then yes = yes' else no = no') :
    fire again (.conditional condition yes no) around s =
      fire again (.conditional condition yes' no') around s := by
  refine Turn.bind_congr_at (Turn.bind_congr_at rfl fun r u hr => ?_) fun _ _ _ => rfl
  have hselected := h r u hr
  have hbranch : branch r.value yes no = branch r.value yes' no' := by
    unfold branch
    split at hselected
    · next hpos => rw [if_pos hpos, if_pos hpos, hselected]
    · next hpos => rw [if_neg hpos, if_neg hpos, hselected]
  rw [hbranch]

end Trigger

/-! ## Texts that are left -/

section Evaluating

variable {ρ : Type} {again : Reentry ρ} {s : Session ρ} {t t' : Text}

theorem Resolution.run_prepare_congr (h : Trigger.expand again t s = Trigger.expand again t' s)
    (n : Nat) : (prepare again t).run n s = (prepare again t').run n s := by
  have hexpand : (liftM (Trigger.expand again t) : Expanding ρ Text).run n s =
      (liftM (Trigger.expand again t') : Expanding ρ Text).run n s :=
    Turn.bind_congr_at h fun _ _ _ => rfl
  unfold prepare
  rw [StateT.run_bind, StateT.run_bind]
  exact Turn.bind_congr_at hexpand fun _ _ _ => rfl

/-- **Texts have the same tree if their triggers leave the same text.** -/
theorem Resolution.tree_congr (h : Trigger.expand again t s = Trigger.expand again t' s) :
    tree again t s = tree again t' s := by
  rw [run_tree, run_tree]
  refine Turn.bind_congr_at ?_ fun _ _ _ => rfl
  unfold pathBound build
  rw [Expanding.run_get_bind, Expanding.run_get_bind, if_neg (Nat.not_lt_zero _),
    if_neg (Nat.not_lt_zero _), StateT.run_bind, StateT.run_bind]
  exact Turn.bind_congr_at (run_prepare_congr h 0) fun _ _ _ => rfl

open Trigger (FiresIn)

theorem expand_congr_of_conditional {a b inside inside' condition yes no yes' no' : Text}
    (ha : Even (a.count '&')) (hb : Even (b.count '&')) (hinside : '&' ∉ inside)
    (hinside' : '&' ∉ inside')
    (hread : Trigger.parse inside = .ok (.conditional condition yes no))
    (hread' : Trigger.parse inside' = .ok (.conditional condition yes' no'))
    (hselected : ∀ around u r u',
      FiresIn again (a ++ '&' :: (inside ++ '&' :: b)) (a.count '&' / 2)
        (.conditional condition yes no) around s u →
      again.evaluate condition u = .ok r u' → if 0 < r.value then yes = yes' else no = no') :
    Trigger.expand again (a ++ '&' :: (inside ++ '&' :: b)) s =
      Trigger.expand again (a ++ '&' :: (inside' ++ '&' :: b)) s := by
  rcases Script.cases_of_scan_around ha hb with ⟨e, he⟩ | ⟨lead, done, text, rest, hdone, hok⟩
  · rw [expand_of_scan_error again (he _ _ hinside hread),
      expand_of_scan_error again (he _ _ hinside' hread')]
  have hscan := hok _ _ hinside hread
  rw [expand_of_scan_ok again hscan, expand_of_scan_ok again (hok _ _ hinside' hread')]
  simp only [List.map_append, List.map_cons]
  refine Trigger.fireAll_congr fun outs around u hfired => ?_
  refine Trigger.fire_conditional_congr fun r u' hr => hselected around u r u' ?_ hr
  refine ⟨_, outs, hscan, ?_, ?_⟩
  · simp [hdone]
  · simpa [← hdone] using hfired

/-- **The branch that is not taken does not matter.**  Two texts differ in one conditional alone,
with an even number of ampersands on either side of it.  It has the same condition in both of them,
and the same branch wherever the condition selects it in a session in which the conditional fires.
Then the texts are evaluated in the same way, to the same roll or to the same end, and leave the
same session. -/
theorem unselected_branches_do_not_matter [Roller ρ]
    {a b inside inside' condition yes no yes' no' : Text} (ha : Even (a.count '&'))
    (hb : Even (b.count '&')) (hinside : '&' ∉ inside) (hinside' : '&' ∉ inside')
    (hread : Trigger.parse inside = .ok (.conditional condition yes no))
    (hread' : Trigger.parse inside' = .ok (.conditional condition yes' no')) (s : Session ρ)
    (hselected : ∀ around u r u',
      FiresIn (reentry (reach s.config)) (a ++ '&' :: (inside ++ '&' :: b)) (a.count '&' / 2)
        (.conditional condition yes no) around (Turn.enter s) u →
      (reentry (reach s.config)).evaluate condition u = .ok r u' →
      if 0 < r.value then yes = yes' else no = no') :
    Turn.evaluate (a ++ '&' :: (inside ++ '&' :: b)) s =
      Turn.evaluate (a ++ '&' :: (inside' ++ '&' :: b)) s := by
  rw [Turn.evaluate_eq, Turn.evaluate_eq]
  refine evaluateWith_congr (Resolution.tree_congr ?_)
  exact expand_congr_of_conditional ha hb hinside hinside' hread hread' hselected

end Evaluating

/-- The shift is set before the condition is evaluated; what else is written after the value that it
selects does not matter. -/
theorem unselected_branches_do_not_matter_after_shift :
    let s := Session.start {} (Stepping.mk 1 1)
    let a := "&shift 2&".toList
    let b := " + 1d6".toList
    let inside := "if 1 then $ else 3 done".toList
    let inside' := "if 1 then $ else x ; y done".toList
    (Even (a.count '&') ∧ Even (b.count '&') ∧ '&' ∉ inside ∧ '&' ∉ inside') ∧
    Trigger.parse inside = .ok (.conditional ['1'] ['$'] ['3']) ∧
    Trigger.parse inside' = .ok (.conditional ['1'] ['$'] "x ; y".toList) ∧
    Turn.evaluate (a ++ '&' :: (inside ++ '&' :: b)) s =
      Turn.evaluate (a ++ '&' :: (inside' ++ '&' :: b)) s := by
  intro s a b inside inside'
  have ha : Even (a.count '&') := by decide
  have hb : Even (b.count '&') := by decide
  have hinside : '&' ∉ inside := by decide
  have hinside' : '&' ∉ inside' := by decide
  have hread : Trigger.parse inside = .ok (.conditional ['1'] ['$'] ['3']) := by decide +kernel
  have hread' : Trigger.parse inside' = .ok (.conditional ['1'] ['$'] "x ; y".toList) := by
    decide +kernel
  have hscan : Script.scan (a ++ '&' :: (inside ++ '&' :: b)) =
      .ok ⟨[], [(.shift 2, []), (.conditional ['1'] ['$'] ['3'], b)]⟩ := by decide +kernel
  refine ⟨⟨ha, hb, hinside, hinside'⟩, hread, hread',
    unselected_branches_do_not_matter ha hb hinside hinside' hread hread' s ?_⟩
  rintro around u r u' ⟨script, outs, hscript, -, hfired⟩ hroll
  obtain rfl := Except.ok.inj (hscript.symm.trans hscan)
  have hcount : a.count '&' / 2 = 1 := by decide
  rw [hcount] at hfired
  have hfired : Trigger.Fired _ [.shift 2] ⟨[[]], [[], b]⟩ (Turn.enter s) outs around u := hfired
  cases hfired with
  | cons hfirst hrest =>
    cases hrest
    obtain ⟨-, rfl⟩ := EStateM.Result.ok.inj hfirst
    obtain ⟨m, hm⟩ := Nat.exists_eq_succ_of_ne_zero (Nat.ne_zero_of_lt (maxDepth_lt_reach s.config))
    rw [hm] at hroll
    obtain ⟨rfl, -⟩ := EStateM.Result.ok.inj ((evaluateWith_one _ (by decide)).symm.trans hroll)
    rw [if_pos (by decide)]

end DiceNotation
