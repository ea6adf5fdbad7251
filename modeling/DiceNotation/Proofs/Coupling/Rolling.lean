import DiceNotation.Proofs.Coupling.Basic
import DiceNotation.Proofs.Failure

/-!
# Rolling side by side

Rolling a dice code looks at three things in a session: the configuration, the rolls that a code
can refer back to, and the cup.  Two sessions that agree on these as a coupling says are tied by
rolling, and so by flattening the tree of a text, which does nothing else.

* `Coupling.Rolls`: what a coupling has to grant for this.
* `Rolls.rollCode`, `Rolls.fold`, `Rolls.flatten`: what is tied then.
-/

namespace DiceNotation

/-- What doing something with the cup comes to. -/
theorem Turn.run_withCup {ρ α : Type} (f : Cup ρ → Except RollError α × Cup ρ) (s : Session ρ) :
    (withCup f) s = (ofExcept (f s.cup).1 : Turn ρ α) { s with cup := (f s.cup).2 } := rfl

namespace Coupling

variable {ρ : Type} [Roller ρ]

/-- What rolling needs of a coupling: that the sessions look the same to it, and that they stay
related by what it does. -/
structure Rolls (C : Coupling ρ) (c : Config) : Prop where
  config : ∀ {s s'}, C.state s s' → s.config = c ∧ s'.config = c
  back : ∀ {s s'}, C.state s s' → ∀ n, s'.history.back? n = s.history.back? n
  failed : ∀ {e s s'}, e ≠ .tooManyRolls → C.state s s' → C.halt (.failed e) s (.failed e) s'
  dice : ∀ code spec, C.Ties Eq (Turn.withCup (Dice.roll code spec))
    (Turn.withCup (Dice.roll code spec))
  record : ∀ {r : Roll} {v s s'}, r.total = .ok v → C.state s s' →
    C.state { s with history := s.history.push r } { s' with history := s'.history.push r }

variable {C : Coupling ρ} {c : Config}

/-- A value that is known already, or an error that has nothing to do with the budget. -/
theorem Rolls.ofExcept {α : Type} (hC : C.Rolls c) {r : Except RollError α}
    (h : r ≠ .error .tooManyRolls) :
    C.Ties (fun a b => a = b ∧ r = .ok a) (Turn.ofExcept r) (Turn.ofExcept r) := by
  refine ties_ofExcept fun e he s s' hs => hC.failed ?_ hs
  rintro rfl
  exact h he

/-- Specifying a roll gives the same in both sessions. -/
theorem Rolls.specify (hC : C.Rolls c) {s s' : Session ρ} (hs : C.state s s')
    (p : DiceCode.Parameters) : s'.specify p = s.specify p := by
  have hconfig : s'.config = s.config := (hC.config hs).2.trans (hC.config hs).1.symm
  have hamount : s'.resolveAmount = s.resolveAmount := by
    funext a
    cases a with
    | back n => simp only [Session.resolveAmount, hC.back hs n]
    | _ => rfl
  have hreduction : s'.chooseReduction = s.chooseReduction := by
    funext p referenced
    rw [Session.chooseReduction, Session.chooseReduction, hconfig]
  have hsides : s'.chooseSides = s.chooseSides := by
    funext p referenced reduction
    rw [Session.chooseSides, Session.chooseSides, hconfig]
  rw [Session.specify, Session.specify, hamount, hreduction, hsides]

/-- **Rolling a dice code keeps sessions related**, and gives the same roll. -/
theorem Rolls.rollCode (hC : C.Rolls c) (code : Text) :
    C.Ties Eq (Turn.rollCode code) (Turn.rollCode code) := by
  unfold Turn.rollCode
  refine ties_bind (hC.ofExcept ?_) fun p p' hp => ?_
  · exact (DiceCode.failsOnly_usage_readWith _ _).ne_error (by decide)
  obtain ⟨rfl, -⟩ := hp
  refine ties_bind ties_get fun s s' hs => ?_
  rw [hC.specify hs]
  refine ties_bind (hC.ofExcept ?_) fun a a' ha => ?_
  · exact (failsOnly_specify s p).ne_error (by simp)
  obtain ⟨rfl, -⟩ := ha
  obtain ⟨reduction, spec⟩ := a
  have hfinish : ∀ dice dice' : Dice, dice = dice' →
      C.Ties Eq
        (do let _ ← Turn.ofExcept (Roll.mk reduction dice).total
            Turn.record ⟨reduction, dice⟩
            return Roll.mk reduction dice)
        (do let _ ← Turn.ofExcept (Roll.mk reduction dice').total
            Turn.record ⟨reduction, dice'⟩
            return Roll.mk reduction dice') := by
    rintro dice _ rfl
    refine ties_bind (hC.ofExcept ?_) fun v v' hv => ?_
    · exact (failsOnly_total _).ne_error (by decide)
    refine ties_bind (ties_modify fun s s' hs => hC.record hv.2 hs) fun _ _ _ => ?_
    exact ties_pure rfl
  dsimp only
  split
  · exact ties_bind (ties_pure rfl) hfinish
  · exact ties_bind (hC.dice _ _) hfinish

theorem Rolls.fold (hC : C.Rolls c) (t : Text) :
    C.Ties Eq (Resolution.fold (ρ := ρ) t) (Resolution.fold t) := by
  refine ties_mono (hC.ofExcept ?_) fun _ _ h => h.1
  exact (failsOnly_foldNumbers t).ne_error (by simp)

/-- Flattening a tree rolls its groups and nothing else. -/
theorem Rolls.flatten (hC : C.Rolls c) (p : Pieces) :
    C.Ties Eq (Resolution.flatten (ρ := ρ) p) (Resolution.flatten p) := by
  induction p with
  | nil => exact ties_pure rfl
  | text t rest ih =>
    refine ties_bind ih fun a a' ha => ?_
    exact ties_pure (by rw [ha])
  | group inner rest ihi ihr =>
    refine ties_bind ihi fun code _ h => ?_
    obtain rfl := h
    refine ties_bind (hC.fold code) fun code _ h => ?_
    obtain rfl := h
    refine ties_bind (hC.rollCode code) fun roll _ h => ?_
    obtain rfl := h
    refine ties_bind ihr fun rest _ h => ?_
    exact ties_pure (by rw [h])
  | define inner rest ihi ihr =>
    refine ties_bind ihi fun value _ h => ?_
    obtain rfl := h
    refine ties_bind (hC.fold value) fun value _ h => ?_
    obtain rfl := h
    refine ties_bind ihr fun rest _ h => ?_
    exact ties_pure (by rw [h])

end Coupling

end DiceNotation
