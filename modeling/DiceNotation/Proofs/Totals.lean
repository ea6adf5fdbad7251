import DiceNotation.Proofs.Fallible
import DiceNotation.Proofs.Outcomes
import DiceNotation.Proofs.UserText

/-!
# Totals of recorded rolls

The result of a roll is missing for one of two reasons: the reduction gives no number, or the number
is out of range.  Whoever goes on with a result takes a missing one for zero, and may do so only if
the second reason is ruled out.  It is: every roll that a session records, and every roll that it
answers with, has a total.

Nothing has to be known about texts or triggers for this.  Rolls are recorded in one place, after
their total has been looked at, and having a total is an invariant of everything else
(`invariant_haveTotals`).

* `Roll.HasTotal`, `Roll.Numberless`, `Roll.result_eq_none_iff`.
* `Turn.Invariant.afterCalls`: what a session keeps through calls, however they end.
* `Call.rolls`: the rolls that a call is answered with.
* `recorded_rolls_have_totals`.
-/

namespace DiceNotation

/-! ## Missing results -/

/-- A number that may be missing is missing with a sign as well. -/
theorem Dice.signed?_eq_ok_none_iff {d : Dice} {x : Option Int} :
    d.signed? x = .ok none ↔ x = none := by
  cases x with
  | none => exact iff_of_true rfl rfl
  | some x =>
    refine iff_of_false (fun h => ?_) nofun
    obtain ⟨n, -, h⟩ := exists_of_bind_eq_ok h
    exact nomatch h

namespace Roll

/-- Whether the number of a roll is in range, if it has one. -/
def HasTotal (r : Roll) : Prop := ∃ v, r.total = .ok v

/-- Whether the reduction of a roll gives no number of any size.  Sums and extremes need a face, and
successes need a difficulty; an amount that was counted is a number. -/
def Numberless (r : Roll) : Prop :=
  match r.reduction with
  | .nothing => True
  | .sum => r.dice.faces = []
  | .max => r.dice.faces = []
  | .min => r.dice.faces = []
  | .successes => r.dice.spec.difficulty = none
  | .amount =>
    match r.dice.spec.amount with
    | .count _ => False
    | .faces l => Whole.fits l.length = false
    | .back _ => True
  | .ranks _ _ => False

theorem total_eq_ok_none_iff (r : Roll) : r.total = .ok none ↔ r.Numberless := by
  obtain ⟨reduction, dice⟩ := r
  cases reduction with
  | nothing => exact iff_of_true rfl trivial
  | sum =>
    show dice.sum = .ok none ↔ dice.faces = []
    unfold Dice.sum
    split
    · next hempty => exact iff_of_true rfl (List.isEmpty_iff.mp hempty)
    · next hfaces =>
      refine iff_of_false (fun h => ?_) fun h => hfaces (List.isEmpty_iff.mpr h)
      obtain ⟨n, -, h⟩ := exists_of_bind_eq_ok h
      exact nomatch h
  | max => exact Dice.signed?_eq_ok_none_iff.trans List.max?_eq_none_iff
  | min => exact Dice.signed?_eq_ok_none_iff.trans List.min?_eq_none_iff
  | successes =>
    show dice.successes = .ok none ↔ dice.spec.difficulty = none
    unfold Dice.successes
    split
    · next hnone => exact iff_of_true rfl hnone
    · next n hsome =>
      rw [hsome]
      exact Dice.signed?_eq_ok_none_iff.trans (iff_of_false nofun nofun)
  | amount =>
    show (Except.ok dice.id : Except RollError _) = .ok none ↔ _
    rw [Except.ok.injEq]
    unfold Dice.id Numberless
    dsimp only
    cases dice.spec.amount with
    | count n => exact iff_of_false nofun id
    | faces l => exact Whole.fit?_eq_none_iff
    | back n => exact iff_of_true rfl trivial
  | ranks first others =>
    refine iff_of_false (fun h => ?_) id
    obtain ⟨n, -, h⟩ := exists_of_bind_eq_ok h
    exact nomatch h

/-- **With a total, the result is missing only where the reduction gives no number.** -/
theorem result_eq_none_iff {r : Roll} (h : r.HasTotal) : r.result = none ↔ r.Numberless := by
  obtain ⟨v, hv⟩ := h
  rw [result_of_total hv, ← total_eq_ok_none_iff, hv, Except.ok.injEq]

theorem hasTotal_empty : empty.HasTotal := ⟨none, total_empty⟩

end Roll

/-! ## What calls keep -/

section Calls

variable {ρ : Type} [Roller ρ] {c : Config} {keeps : Session ρ → Prop} {s : Session ρ}

/-- A call keeps an invariant that does not depend on the cup, whichever way it ends. -/
theorem Turn.Invariant.call (hI : Turn.Invariant c keeps fun _ => keeps)
    (hreset : ∀ {s}, keeps s → keeps { s with cup := s.cup.reset }) (hs : keeps s) (k : Call) :
    keeps (Turn.after k.run s) := by
  have hends : Turn.EndsIn keeps (fun _ => keeps) (k.run s) := by
    cases k with
    | roll t => exact hI.request t (hreset hs)
    | evaluate t => exact hI.evaluate t hs
    | resolve t => exact hI.resolve t hs
    | rollCode code => exact hI.rollCode code hs
  exact hends.after

theorem Turn.Invariant.afterCalls (hI : Turn.Invariant c keeps fun _ => keeps)
    (hreset : ∀ {s}, keeps s → keeps { s with cup := s.cup.reset }) (hs : keeps s)
    (ks : List Call) : keeps (s.afterCalls ks) := by
  induction ks generalizing s with
  | nil => exact hs
  | cons k ks ih => exact ih (hI.call hreset hs k)

end Calls

/-! ## The history -/

theorem History.mem_remember {α : Type} {capacity : Nat} {entries : List α} {entry a : α}
    (h : a ∈ remember capacity entries entry) : a ∈ entries ∨ a = entry := by
  unfold remember at h
  split at h
  · exact Or.inl h
  · split at h
    · rcases List.mem_append.mp h with h | h
      · exact Or.inl (List.mem_of_mem_drop h)
      · exact Or.inr (List.mem_singleton.mp h)
    · rcases List.mem_append.mp h with h | h
      · exact Or.inl h
      · exact Or.inr (List.mem_singleton.mp h)

variable {ρ : Type}

/-- A session with a configuration in which every recorded roll has a total. -/
def HaveTotals (c : Config) (s : Session ρ) : Prop :=
  s.config = c ∧ ∀ r ∈ s.history.rolls, r.HasTotal

variable [Roller ρ]

/-- **That recorded rolls have totals is an invariant**, since a roll is recorded with one. -/
theorem invariant_haveTotals (c : Config) :
    Turn.Invariant (ρ := ρ) c (HaveTotals c) fun _ => HaveTotals c where
  config := And.left
  failed _ hs := hs
  message hs := hs
  exhausted hs := hs
  dice _ _ hs _ := hs
  diceFailed _ _ hs _ := hs
  record := by
    rintro r v s htotal ⟨hc, hs⟩
    refine ⟨hc, fun r' hr' => ?_⟩
    rcases History.mem_remember hr' with hr' | rfl
    · exact hs r' hr'
    · exact ⟨v, htotal⟩
  flags _ hs := hs
  defines _ hs := hs
  enter hs := hs
  leave hs := hs
  leaveHalted hs := hs

/-! ## Answers -/

/-- The rolls that a call is answered with. -/
def Call.rolls : (k : Call) → k.Answer → List Roll
  | roll _, rs => rs
  | evaluate _, r => [r]
  | resolve _, _ => []
  | rollCode _, r => [r]

theorem hasTotal_of_evaluateWith {again : Reentry ρ} {t : Text} {r : Roll} {s s' : Session ρ}
    (h : Turn.evaluateWith again t s = .ok r s') : r.HasTotal := by
  obtain ⟨code, u, u', -, -, hroll, -⟩ := exists_of_evaluateWith_eq_ok h
  exact exists_total_of_rollCode_eq_ok hroll

omit [Roller ρ] in
/-- The rolls of segments are empty or those of evaluations. -/
theorem hasTotal_of_evaluateEach {evaluates : Text → Turn ρ Roll}
    (hevaluates : ∀ t s r s', evaluates t s = .ok r s' → r.HasTotal) {ts : List Text}
    {rs : List Roll} {s s' : Session ρ} (h : Turn.evaluateEach evaluates ts s = .ok rs s') :
    ∀ r ∈ rs, r.HasTotal := by
  induction ts generalizing rs s s' with
  | nil =>
    obtain ⟨rfl, -⟩ := EStateM.Result.ok.inj h
    exact fun _ hr => absurd hr List.not_mem_nil
  | cons t ts ih =>
    have hrest : ∀ {r u}, Roll.HasTotal r →
        (do let rs ← Turn.evaluateEach evaluates ts
            return r :: rs : Turn ρ (List Roll)) u = .ok rs s' → ∀ r ∈ rs, r.HasTotal := by
      intro r u hr h
      obtain ⟨rest, u', hrest, h⟩ := Turn.exists_of_bind_eq_ok h
      obtain ⟨rfl, -⟩ := EStateM.Result.ok.inj h
      exact List.forall_mem_cons.mpr ⟨hr, ih hrest⟩
    unfold Turn.evaluateEach at h
    dsimp only at h
    split at h
    · exact hrest Roll.hasTotal_empty h
    · obtain ⟨r, u, hr, h⟩ := Turn.exists_of_bind_eq_ok h
      exact hrest (hevaluates t s r u hr) h

/-- Every roll of an answer has a total, in whatever session the call is made. -/
theorem hasTotal_of_answer {k : Call} {a : k.Answer} {s s' : Session ρ} (h : k.run s = .ok a s') :
    ∀ r ∈ k.rolls a, r.HasTotal := by
  rw [Call.run_eq_runBy] at h
  generalize (reentry (reach s.config) : Reentry ρ) = again at h
  cases k with
  | roll t =>
    have hrolls : Turn.evaluateEach (Turn.evaluateWith again) (Text.segments t)
        { s with cup := s.cup.reset } = .ok a s' := h
    exact hasTotal_of_evaluateEach (fun _ _ _ _ => hasTotal_of_evaluateWith) hrolls
  | evaluate t =>
    rintro r hr
    obtain rfl := List.mem_singleton.mp hr
    exact hasTotal_of_evaluateWith h
  | resolve t => exact fun _ hr => absurd hr List.not_mem_nil
  | rollCode code =>
    rintro r hr
    obtain rfl := List.mem_singleton.mp hr
    exact exists_total_of_rollCode_eq_ok h

/-- **Every roll that a session has recorded, and every roll that it answers with, has a total**,
after whatever calls and with whatever outcomes, so that results are missing only where the
reduction gives no number.  A code that fails leaves everything but the cup as it was. -/
theorem recorded_rolls_have_totals (ks : List Call) {s : Session ρ}
    (h : ∀ r ∈ s.history.rolls, r.HasTotal) :
    (∀ r ∈ (s.afterCalls ks).history.rolls, r.HasTotal ∧ (r.result = none ↔ r.Numberless)) ∧
    (∀ (k : Call) a s', k.run (s.afterCalls ks) = .ok a s' →
      ∀ r ∈ k.rolls a, r.HasTotal ∧ (r.result = none ↔ r.Numberless)) ∧
    ∀ code e s', Turn.rollCode code (s.afterCalls ks) = .error e s' →
      s' = { s.afterCalls ks with cup := s'.cup } := by
  have hafter : HaveTotals s.config (s.afterCalls ks) :=
    (invariant_haveTotals s.config).afterCalls (fun hs => hs) ⟨rfl, h⟩ ks
  refine ⟨fun r hr => ?_, fun k a s' hrun r hr => ?_, fun code e s' => eq_of_rollCode_eq_error⟩
  · exact ⟨hafter.2 r hr, Roll.result_eq_none_iff (hafter.2 r hr)⟩
  · have htotal := hasTotal_of_answer hrun r hr
    exact ⟨htotal, Roll.result_eq_none_iff htotal⟩

/-- A new session records what codes and groups roll, but nothing out of range: the sum of two
highest faces would be, in a loop, in a group and as a code. -/
theorem recorded_rolls_have_totals_in_new_session :
    let s := newSession.afterCalls
      [.rollCode "3d6g".toList, .evaluate "(2d6g)d6g".toList,
        .roll "&loop [9223372036854775807,1]g 2& 3d6g".toList,
        .evaluate "([9223372036854775807,1]g) + 1".toList,
        .rollCode "[9223372036854775807,1]g".toList, .rollCode "--h".toList,
        .rollCode "0d6g".toList]
    (∀ r ∈ newSession.history.rolls, r.HasTotal) ∧
    s.history.rolls.map Roll.result = [some 6, some 9, some 30, some 5, none] ∧
    ∀ r ∈ s.history.rolls, r.HasTotal ∧ (r.result = none ↔ r.Numberless) := by
  intro s
  have hnew : ∀ r ∈ newSession.history.rolls, r.HasTotal := fun _ hr =>
    absurd hr List.not_mem_nil
  exact ⟨hnew, by decide +kernel, (recorded_rolls_have_totals _ hnew).1⟩

end DiceNotation
