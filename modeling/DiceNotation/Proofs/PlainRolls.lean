import DiceNotation.Proofs.GroupRolls
import DiceNotation.Proofs.Macros
import DiceNotation.Proofs.Repetition
import DiceNotation.Proofs.Runs.Twice

/-!
# Rolls and counts without triggers

Where no define stands for text with triggers, evaluating a text without ampersands starts nothing
again.  So it does not matter how often triggers may start one another (`evaluateWith_of_plain`):
what a loop or a parameter rolls is what the same text would be if a user asked for it.  And it only
records rolls (`recorded_of_evaluateWith`), so that the defines, the flags, the configuration and
the depth are afterwards what they were.

Counts are written as numbers.  The decimal text of a number resolves to the number, unless it is
the least one, whose digits are out of range without the minus.

* `evaluateWith_of_plain`, `evaluate_reentry`, `recorded_of_evaluate`.
* `exists_atoms_of_spells`, `resolveWhole_render`, `resolveWhole_render_lowest`.
-/

namespace DiceNotation

variable {ρ : Type} [Roller ρ] {s s' : Session ρ} {t : Text}

/-! ## Rolls -/

/-- Texts that come to the same tree are evaluated in the same way. -/
theorem evaluateWith_congr {again again' : Reentry ρ} {t' : Text}
    (h : Resolution.tree again t (Turn.enter s) = Resolution.tree again' t' (Turn.enter s)) :
    Turn.evaluateWith again t s = Turn.evaluateWith again' t' s := by
  have hinner : (Resolution.resolve again t >>= Turn.rollCode) (Turn.enter s) =
      (Resolution.resolve again' t' >>= Turn.rollCode) (Turn.enter s) :=
    Turn.bind_congr_at (Turn.bind_congr_at h fun _ _ _ => rfl) fun _ _ _ => rfl
  unfold Turn.evaluateWith
  rw [Turn.get_bind, Turn.get_bind]
  split
  · rfl
  · show Turn.deeper (Resolution.resolve again t >>= Turn.rollCode) s =
      Turn.deeper (Resolution.resolve again' t' >>= Turn.rollCode) s
    unfold Turn.deeper
    rw [hinner]

/-- Without macros it does not matter what triggers would start again. -/
theorem evaluateWith_of_plain (again again' : Reentry ρ) (hmacros : s.defines.macros = [])
    (ht : '&' ∉ t) : Turn.evaluateWith again t s = Turn.evaluateWith again' t s := by
  have hmacros' : (Turn.enter s).defines.macros = [] := hmacros
  refine evaluateWith_congr ?_
  rw [Resolution.run_tree_of_plain again hmacros' ht,
    Resolution.run_tree_of_plain again' hmacros' ht]

/-- **Without macros a trigger evaluates a text as a user does.** -/
theorem evaluate_reentry (m : Nat) (hmacros : s.defines.macros = []) (ht : '&' ∉ t) :
    (reentry (m + 1)).evaluate t s = Turn.evaluate t s :=
  evaluateWith_of_plain _ _ hmacros ht

/-- Resolving a text without triggers only records rolls. -/
theorem recorded_of_resolve {again : Reentry ρ} {code : Text} (hmacros : s.defines.macros = [])
    (ht : '&' ∉ t) (h : Resolution.resolve again t s = .ok code s') : ∃ rs, s.Recorded rs s' := by
  rw [← Arena.resolve_eq] at h
  obtain ⟨⟨root, a⟩, u, hgrown, hlinearize⟩ := Turn.exists_of_bind_eq_ok h
  rw [Arena.tree_eq, map_eq_pure_bind] at hgrown
  obtain ⟨p, v, hp, hplant⟩ := Turn.exists_of_bind_eq_ok hgrown
  obtain rfl := (Resolution.exists_of_tree_eq_ok hmacros ht hp).2
  obtain ⟨-, rfl⟩ := EStateM.Result.ok.inj hplant
  obtain ⟨rs, -, hrecorded⟩ := Arena.exists_rolls_of_linearize hlinearize
  exact ⟨rs, hrecorded⟩

/-- **Evaluating a text without triggers only records rolls**, of which the last is the answer. -/
theorem recorded_of_evaluate {r : Roll} (hmacros : s.defines.macros = []) (ht : '&' ∉ t)
    (h : Turn.evaluate t s = .ok r s') : ∃ rs, s.Recorded (rs ++ [r]) s' := by
  rw [Turn.evaluate_eq] at h
  obtain ⟨code, u, u', -, hresolve, hroll, rfl⟩ := exists_of_evaluateWith_eq_ok h
  have hmacros' : (Turn.enter s).defines.macros = [] := hmacros
  obtain ⟨rs, hrs⟩ := recorded_of_resolve hmacros' ht hresolve
  have hall := hrs.append (recorded_of_rollCode hroll).2
  refine ⟨rs, ?_⟩
  unfold Session.Recorded at hall ⊢
  conv_lhs => rw [hall]
  show { s with depth := s.depth + 1 - 1, cup := u'.cup, history := _ } = _
  rw [Nat.add_sub_cancel]
  rfl

omit [Roller ρ] in
/-- What recording rolls leaves alone. -/
theorem Session.Recorded.frame {rs : List Roll} (h : s.Recorded rs s') :
    s'.config = s.config ∧ s'.defines = s.defines ∧ s'.flags = s.flags ∧ s'.depth = s.depth := by
  unfold Recorded at h
  rw [h]
  exact ⟨rfl, rfl, rfl, rfl⟩

/-! ## Counts -/

/-- A number is text that is neither a group nor a name. -/
theorem exists_atoms_of_spells {n : Int} (h : Spells t n) :
    ∃ ts : List Text, Resolution.atoms? t = .ok (ts.map Atom.other) ∧ ts.flatten = t := by
  rcases h.shape with hnumeral | ⟨w, rfl, hw⟩
  · exact ⟨[t], atoms?_numeral hnumeral, List.flatten_singleton⟩
  · have hplain : ∀ c ∈ '-' :: w, Group.isPlain c = true := h.forall_mem (by decide)
    have horderly : Text.Orderly [.gap ['-'], .word w] := by
      refine Text.orderly_cons ⟨List.cons_ne_nil _ _, by decide⟩ ?_ fun _ h => ?_
      · exact Text.orderly_cons hw.uniform_word Text.orderly_nil fun _ h => nomatch h
      · obtain rfl := Option.some.inj h
        exact Bool.false_ne_true
    have hruns : Text.runs ('-' :: w) = [.gap ['-'], .word w] := by
      have hruns := Text.runs_flatMap_text horderly
      rw [List.flatMap_cons, List.flatMap_singleton] at hruns
      exact hruns
    refine ⟨[['-'], w], ?_, by simp⟩
    rw [Resolution.atoms?_of_plain hplain, hruns, List.map_cons, List.map_singleton,
      Atom.ofRun_of_not_isName hw.not_isName]
    rfl

/-- The decimal text of a number is only folded. -/
theorem resolve_render (again : Reentry ρ) {n : Int} (hn : Whole.fits n = true) (s : Session ρ) :
    Resolution.resolve again (Whole.render n) s = Resolution.fold (Whole.render n) s := by
  obtain ⟨ts, hatoms, htext⟩ := exists_atoms_of_spells (spells_render hn)
  rw [resolve_of_others again (Whole.no_ampersand_render n) hatoms, htext]

/-- **The decimal text of a number resolves to the number**, and nothing is rolled for it. -/
theorem resolveWhole_render (m : Nat) {n : Int} (hn : Whole.fits n = true)
    (hlowest : Whole.lowest < n) (s : Session ρ) :
    Trigger.resolveWhole (reentry (m + 1)) (Whole.render n) s = .ok n s := by
  have hresolve : (reentry (m + 1)).resolve (Whole.render n) s = .ok (Whole.render n) s := by
    show Resolution.resolve _ _ s = _
    rw [resolve_render _ hn, Resolution.fold, NumberRun.foldNumbers_render hlowest]
    rfl
  have hspells := spells_render hn
  unfold Trigger.resolveWhole
  rw [Turn.bind_of_ok _ hresolve, hspells.trim, hspells.value]
  rfl

/-- The digits of the least number are out of range. -/
theorem resolveWhole_render_lowest (m : Nat) (s : Session ρ) :
    ∃ e, Trigger.resolveWhole (reentry (m + 1)) (Whole.render Whole.lowest) s =
      .error (.failed e) s := by
  have hfold : ∃ e, NumberRun.foldNumbers (Whole.render Whole.lowest) = .error e :=
    ⟨_, by cbv⟩
  obtain ⟨e, he⟩ := hfold
  have hresolve : (reentry (m + 1)).resolve (Whole.render Whole.lowest) s =
      .error (.failed (.arith e)) s := by
    show Resolution.resolve _ _ s = _
    rw [resolve_render _ (by decide), Resolution.fold, he]
    rfl
  exact ⟨_, Turn.bind_of_error _ hresolve⟩

end DiceNotation
