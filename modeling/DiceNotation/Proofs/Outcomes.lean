import DiceNotation.Proofs.PlainText
import DiceNotation.Session.Pipeline

/-!
# How rolling a code ends

Rolling a code ends in one of two ways.  Either there is a roll with a total, and it is recorded; or
the code has failed, and then nothing but the cup can have changed.  The history, the defines and
the flags are safe because the roll is recorded last, when nothing can fail any more.

The errors of a code are about the code, about the rolls that it refers to, about the budget or
about a number that is out of range.  None of them is about the structure of a text: a text has been
taken apart before its codes are rolled.

* `CodeError`, `RollEnds`, `rollEnds_rollCode`, `exists_of_rollCode_eq_ok`.
* `Turn.exists_of_bind_eq_ok`, `Turn.exists_of_deeper_eq_ok`: turns that have a value.
* `exists_of_evaluateWith_eq_ok`: the roll of an evaluation is that of a code.
-/

namespace DiceNotation

variable {ρ α β : Type}

/-! ## Turns that have a value -/

namespace Turn

theorem exists_of_bind_eq_ok {x : Turn ρ α} {f : α → Turn ρ β} {b : β} {s s' : Session ρ}
    (h : (x >>= f) s = .ok b s') : ∃ a u, x s = .ok a u ∧ f a u = .ok b s' := by
  cases hx : x s with
  | ok a u =>
    rw [bind_of_ok f hx] at h
    exact ⟨a, u, rfl, h⟩
  | error e u =>
    rw [bind_of_error f hx] at h
    exact nomatch h

/-- A turn halts in its first step or after it. -/
theorem cases_of_bind_eq_error {x : Turn ρ α} {f : α → Turn ρ β} {e : Halt} {s s' : Session ρ}
    (h : (x >>= f) s = .error e s') :
    x s = .error e s' ∨ ∃ a u, x s = .ok a u ∧ f a u = .error e s' := by
  cases hx : x s with
  | ok a u =>
    rw [bind_of_ok f hx] at h
    exact Or.inr ⟨a, u, rfl, h⟩
  | error e' u =>
    rw [bind_of_error f hx] at h
    obtain ⟨rfl, rfl⟩ := EStateM.Result.error.inj h
    exact Or.inl rfl

theorem exists_of_map_outcome_eq_ok {x : Turn ρ α} {f : α → β} {b : β} {s : Session ρ}
    (h : (x.outcome s).map f = .ok b) : ∃ a s', x s = .ok a s' ∧ f a = b := by
  unfold outcome at h
  cases hx : x s with
  | ok a s' =>
    rw [hx] at h
    exact ⟨a, s', rfl, Except.ok.inj h⟩
  | error e s' =>
    rw [hx] at h
    exact nomatch h

theorem exists_of_outcome_eq_error {x : Turn ρ α} {e : Halt} {s : Session ρ}
    (h : x.outcome s = .error e) : ∃ s', x s = .error e s' := by
  unfold outcome at h
  cases hx : x s with
  | ok a s' =>
    rw [hx] at h
    exact nomatch h
  | error e' s' =>
    rw [hx] at h
    obtain rfl := Except.error.inj h
    exact ⟨s', rfl⟩

@[simp] theorem leave_enter (s : Session ρ) : leave (enter s) = s := by
  show { s with depth := s.depth + 1 - 1 } = s
  rw [Nat.add_sub_cancel]

theorem exists_of_deeper_eq_ok {x : Turn ρ α} {a : α} {s s' : Session ρ}
    (h : deeper x s = .ok a s') : ∃ u, x (enter s) = .ok a u ∧ s' = leave u := by
  unfold deeper at h
  cases hx : x (enter s) with
  | ok b u =>
    rw [hx] at h
    obtain ⟨rfl, rfl⟩ := EStateM.Result.ok.inj h
    exact ⟨u, rfl, rfl⟩
  | error e u =>
    rw [hx] at h
    exact nomatch h

theorem exists_of_deeper_eq_error {x : Turn ρ α} {e : Halt} {s s' : Session ρ}
    (h : deeper x s = .error e s') : ∃ u, x (enter s) = .error e u ∧ s' = leave u := by
  unfold deeper at h
  cases hx : x (enter s) with
  | ok b u =>
    rw [hx] at h
    exact nomatch h
  | error e' u =>
    rw [hx] at h
    obtain ⟨rfl, rfl⟩ := EStateM.Result.error.inj h
    exact ⟨u, rfl, rfl⟩

end Turn

/-! ## The errors of a code -/

/-- The errors that rolling a code can end with. -/
inductive CodeError : RollError → Prop where
  | usage {e : RollError} (h : e.category = .usage) : CodeError e
  | noSuchRoll (n : Nat) : CodeError (.noSuchRoll n)
  | unresolvedReference (n : Nat) : CodeError (.unresolvedReference n)
  | tooManyRolls : CodeError .tooManyRolls
  | arith (e : ArithError) : CodeError (.arith e)

section Rolling

variable [Roller ρ]

theorem Cup.failsOnly_roll (n : Nat) (lo hi : Int) (c : Cup ρ) :
    FailsOnly (· = .tooManyRolls) (c.roll n lo hi).1 := by
  unfold Cup.roll
  split
  · exact failsOnly_error rfl
  · exact failsOnly_ok _

theorem Dice.failsOnly_waves (lo hi threshold : Int) (pending : Nat) (c : Cup ρ) :
    FailsOnly (· = .tooManyRolls) (waves lo hi threshold pending c).1 := by
  fun_induction waves lo hi threshold pending c with
  | case1 => exact failsOnly_ok _
  | case2 pending c hpending e c' hroll =>
    have hfails := Cup.failsOnly_roll pending lo hi c
    rw [hroll] at hfails
    exact failsOnly_error (hfails e rfl)
  | case3 pending c hpending wave c' hroll e c'' hwaves ih =>
    rw [hwaves] at ih
    exact failsOnly_error (ih e rfl)
  | case4 => exact failsOnly_ok _

/-- Rolling dice fails for the budget, and for a reference that was not looked up. -/
theorem Dice.failsOnly_roll (code : Text) (spec : Spec) (c : Cup ρ) :
    FailsOnly CodeError (Dice.roll code spec c).1 := by
  have hbudget : ∀ {e : RollError}, e = .tooManyRolls →
      FailsOnly CodeError (.error e : Except RollError Dice) := by
    rintro e rfl
    exact failsOnly_error .tooManyRolls
  unfold Dice.roll
  split
  · next n _ =>
    unfold rollCount
    have hfirst := Cup.failsOnly_roll n.natAbs spec.min spec.sides c
    split
    · next e c' hroll =>
      rw [hroll] at hfirst
      exact hbudget (hfirst e rfl)
    · next first c' hroll =>
      dsimp only
      split
      · exact failsOnly_ok _
      · next threshold _ =>
        have hmore :=
          failsOnly_waves spec.min spec.sides threshold (exploding threshold first) c'
        split
        · next e c'' hwaves =>
          rw [hwaves] at hmore
          exact hbudget (hmore e rfl)
        · exact failsOnly_ok _
  · exact failsOnly_ok _
  · exact failsOnly_error (.unresolvedReference _)

/-! ## The two ends -/

/-- The two ways in which rolling a code in a session can end. -/
inductive RollEnds (s : Session ρ) : EStateM.Result Halt (Session ρ) Roll → Prop where
  /-- A roll with a total has been recorded. -/
  | recorded {r : Roll} {v : Option Int} {cup : Cup ρ} (total : r.total = .ok v) :
    RollEnds s (.ok r { s with cup, history := s.history.push r })
  /-- The code has failed, and only the cup may be another one. -/
  | failed {e : RollError} (cup : Cup ρ) (error : CodeError e) :
    RollEnds s (.error (.failed e) { s with cup })

omit [Roller ρ] in
/-- The total is looked at, and then the roll is recorded. -/
theorem rollEnds_of_dice (r : Roll) (s : Session ρ) (cup : Cup ρ) :
    RollEnds s ((do
      let _ ← Turn.ofExcept r.total
      Turn.record r
      return r : Turn ρ Roll) { s with cup }) := by
  cases htotal : r.total with
  | ok v => exact .recorded htotal
  | error e =>
    have he : e = .overflow := failsOnly_total r e htotal
    exact .failed cup (he ▸ .arith _)

/-- **Rolling a code records a roll with a total, or fails** and leaves everything but the cup. -/
theorem rollEnds_rollCode (code : Text) (s : Session ρ) : RollEnds s (Turn.rollCode code s) := by
  unfold Turn.rollCode
  cases hread : DiceCode.read code with
  | error e =>
    exact .failed s.cup (.usage (DiceCode.failsOnly_usage_readWith _ _ e hread))
  | ok p =>
    rw [Turn.bind_of_ok _ (rfl : (Turn.ofExcept (.ok p) : Turn ρ _) s = .ok p s), Turn.get_bind]
    cases hspecify : s.specify p with
    | error e =>
      obtain ⟨n, rfl⟩ := failsOnly_specify s p e hspecify
      exact .failed s.cup (.noSuchRoll n)
    | ok specified =>
      rw [Turn.bind_of_ok _ (rfl : (Turn.ofExcept (.ok specified) : Turn ρ _) s = .ok specified s)]
      dsimp only
      split
      · exact rollEnds_of_dice _ s s.cup
      · have hfails := Dice.failsOnly_roll (Text.trim code) specified.2 s.cup
        have hcup := Turn.run_withCup (Dice.roll (Text.trim code) specified.2) s
        cases hroll : (Dice.roll (Text.trim code) specified.2 s.cup).1 with
        | error e =>
          rw [hroll] at hcup
          rw [Turn.bind_of_error _ hcup]
          exact .failed _ (hfails e hroll)
        | ok dice =>
          rw [hroll] at hcup
          rw [Turn.bind_of_ok _ hcup]
          exact rollEnds_of_dice _ s _

/-- A code that has been rolled was read and specified, and its dice are those of the specification,
which a code that only counts has no faces of. -/
theorem exists_of_rollCode_eq_ok {code : Text} {r : Roll} {s s' : Session ρ}
    (h : Turn.rollCode code s = .ok r s') :
    ∃ p spec, DiceCode.read code = .ok p ∧ s.specify p = .ok (r.reduction, spec) ∧
      (Session.isCounting p r.reduction spec.amount = true ∧
          r.dice = Dice.ofFaces (Text.trim code) spec [] ∨
        Session.isCounting p r.reduction spec.amount = false ∧
          (Dice.roll (Text.trim code) spec s.cup).1 = .ok r.dice) := by
  have hfinish : ∀ {reduction : Reduction} {dice : Dice} {u : Session ρ},
      (do let _ ← Turn.ofExcept (Roll.mk reduction dice).total
          Turn.record ⟨reduction, dice⟩
          return Roll.mk reduction dice : Turn ρ Roll) u = .ok r s' → ⟨reduction, dice⟩ = r := by
    intro reduction dice u h
    obtain ⟨_, _, -, h⟩ := Turn.exists_of_bind_eq_ok h
    obtain ⟨_, _, -, h⟩ := Turn.exists_of_bind_eq_ok h
    exact (EStateM.Result.ok.inj h).1
  unfold Turn.rollCode at h
  cases hread : DiceCode.read code with
  | error e =>
    rw [hread] at h
    exact nomatch h
  | ok p =>
    rw [hread, Turn.bind_of_ok _ (rfl : (Turn.ofExcept (.ok p) : Turn ρ _) s = .ok p s),
      Turn.get_bind] at h
    cases hspecify : s.specify p with
    | error e =>
      rw [hspecify] at h
      exact nomatch h
    | ok specified =>
      obtain ⟨reduction, spec⟩ := specified
      rw [hspecify, Turn.bind_of_ok _
        (rfl : (Turn.ofExcept (.ok (reduction, spec)) : Turn ρ _) s = .ok (reduction, spec) s)] at h
      dsimp only at h
      split at h
      · next hcounting =>
        obtain rfl := hfinish h
        exact ⟨p, spec, rfl, hspecify, Or.inl ⟨hcounting, rfl⟩⟩
      · next hcounting =>
        obtain ⟨dice, u, hdice, h⟩ := Turn.exists_of_bind_eq_ok h
        obtain rfl := hfinish h
        refine ⟨p, spec, rfl, hspecify, Or.inr ⟨Bool.eq_false_iff.mpr hcounting, ?_⟩⟩
        rw [Turn.run_withCup] at hdice
        cases hroll : (Dice.roll (Text.trim code) spec s.cup).1 with
        | error e =>
          rw [hroll] at hdice
          exact nomatch hdice
        | ok d =>
          rw [hroll] at hdice
          rw [(EStateM.Result.ok.inj hdice).1]

/-- A code that has failed leaves everything but the cup as it was. -/
theorem eq_of_rollCode_eq_error {code : Text} {e : Halt} {s s' : Session ρ}
    (h : Turn.rollCode code s = .error e s') : s' = { s with cup := s'.cup } := by
  have hends := rollEnds_rollCode code s
  rw [h] at hends
  cases hends with
  | failed _ _ => rfl

theorem exists_total_of_rollCode_eq_ok {code : Text} {r : Roll} {s s' : Session ρ}
    (h : Turn.rollCode code s = .ok r s') : ∃ v, r.total = .ok v := by
  have hends := rollEnds_rollCode code s
  rw [h] at hends
  cases hends with
  | recorded total => exact ⟨_, total⟩

/-- An evaluation starts triggers again as often as the configuration allows. -/
theorem Turn.evaluate_eq (t : Text) (s : Session ρ) :
    Turn.evaluate t s = Turn.evaluateWith (reentry (reach s.config)) t s := rfl

theorem Turn.resolve_eq (t : Text) (s : Session ρ) :
    Turn.resolve t s = Resolution.resolve (reentry (reach s.config)) t s := rfl

/-- An evaluation ends as its triggers do, if they end early. -/
theorem Turn.evaluate_of_expand_error {t : Text} {e : Halt} {s s' : Session ρ}
    (hdepth : s.depth < s.config.maxDepth)
    (h : Trigger.expand (reentry (reach s.config)) t (enter s) = .error e s') :
    evaluate t s = .error e (leave s') := by
  rw [evaluate_eq]
  unfold evaluateWith
  rw [get_bind, if_neg (Nat.not_le.mpr hdepth)]
  unfold deeper
  rw [bind_of_error _ (Resolution.resolve_of_expand_error _ h)]

/-- The roll of an evaluation is the roll of the code that its text resolves to. -/
theorem exists_of_evaluateWith_eq_ok {again : Reentry ρ} {t : Text} {r : Roll} {s s' : Session ρ}
    (h : Turn.evaluateWith again t s = .ok r s') :
    ∃ code u u', s.depth < s.config.maxDepth ∧
      Resolution.resolve again t (Turn.enter s) = .ok code u ∧
      Turn.rollCode code u = .ok r u' ∧ s' = Turn.leave u' := by
  unfold Turn.evaluateWith at h
  rw [Turn.get_bind] at h
  split at h
  · exact nomatch h
  · next hdepth =>
    obtain ⟨u', hinner, rfl⟩ := Turn.exists_of_deeper_eq_ok h
    obtain ⟨code, u, hresolve, hroll⟩ := Turn.exists_of_bind_eq_ok hinner
    exact ⟨code, u, u', Nat.not_le.mp hdepth, hresolve, hroll, rfl⟩

end Rolling

end DiceNotation
