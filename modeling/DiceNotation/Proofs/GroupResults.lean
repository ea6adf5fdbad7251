import DiceNotation.Proofs.Arithmetic
import DiceNotation.Proofs.Depths
import DiceNotation.Proofs.Runs.Twice
import DiceNotation.Proofs.Twins

/-!
# Groups stand for their results

A group is rolled where it stands, and the number that it comes to takes its place.  So a text in
parentheses should resolve to the result of the text: the same codes are rolled in the same order,
and only the session is one evaluation less deep (`Coupling.below`).

It does, where the text without triggers can be evaluated at all, if two things are granted.  The
number has to come back from its decimal text, and the text, which is one level deeper now, may not
nest as deep as the limit.  Defines count for this: a value with a group in it takes a level of the
text that names it.  How deep groups nest is known from the pieces, and it is bounded by the depths
of the text and of the values.

* `Coupling.below`, `rolls_below`.
* `Resolution.rollPieces`: what becomes of the pieces of a group and of an evaluation.
* `group_stands_for_result`, `group_differs_from_result`.
-/

namespace DiceNotation

open Resolution DiceNotation.Expr

variable {ρ α : Type}

/-! ## One evaluation less deep -/

/-- The first run is in a session one level deeper than the second. -/
def Coupling.below (c : Config) : Coupling ρ where
  state u s := u = Turn.enter s ∧ s.config = c
  halt h u h' s := h = h' ∧ u = Turn.enter s

/-- Rolling does not see how deep a session is. -/
theorem Coupling.rolls_below [Roller ρ] (c : Config) : (below c : Coupling ρ).Rolls c where
  config := by
    rintro _ s ⟨rfl, hc⟩
    exact ⟨hc, hc⟩
  back := by
    rintro _ s ⟨rfl, -⟩ n
    rfl
  failed := by
    rintro e _ s - ⟨rfl, -⟩
    exact ⟨rfl, rfl⟩
  dice code spec := by
    rintro _ s ⟨rfl, hc⟩
    rw [Turn.run_withCup, Turn.run_withCup]
    show (below c).Ends Eq ((Turn.ofExcept (Dice.roll code spec s.cup).1 : Turn ρ Dice) _) _
    cases (Dice.roll code spec s.cup).1 with
    | ok dice => exact ⟨rfl, rfl, hc⟩
    | error e => exact Or.inr ⟨rfl, rfl⟩
  record := by
    rintro r v _ s - ⟨rfl, hc⟩
    exact ⟨rfl, hc⟩

/-- What a run comes to one level deeper, it comes to. -/
theorem Coupling.exists_of_ties_below {c : Config} {x : Turn ρ α} (h : (below c).Ties Eq x x)
    {s u : Session ρ} (hc : s.config = c) {a : α} (hx : x (Turn.enter s) = .ok a u) :
    ∃ v, x s = .ok a v ∧ u = Turn.enter v := by
  have hends := h _ s ⟨rfl, hc⟩
  rw [hx] at hends
  cases hxs : x s with
  | ok b v =>
    rw [hxs] at hends
    obtain ⟨rfl, hu, -⟩ := hends
    exact ⟨v, rfl, hu⟩
  | error e v =>
    rw [hxs] at hends
    exact hends.elim

/-! ## The roll of pieces -/

section Pieces

variable [Roller ρ]

/-- Rolls the code that pieces are flattened to. -/
def Resolution.rollPieces (p : Pieces) : Turn ρ Roll := do
  let t ← flatten p
  let code ← fold t
  Turn.rollCode code

theorem Resolution.flatten_group (inner rest : Pieces) :
    flatten (.group inner rest) = (do
      let roll ← rollPieces inner
      let rest ← flatten rest
      return Whole.render roll.value ++ rest : Turn ρ Text) := by
  simp only [flatten, rollPieces, bind_assoc]

theorem Coupling.ties_rollPieces (c : Config) (p : Pieces) :
    (below c : Coupling ρ).Ties Eq (rollPieces p) (rollPieces p) := by
  have hrolls := rolls_below (ρ := ρ) c
  refine ties_bind (hrolls.flatten p) fun t _ h => ?_
  obtain rfl := h
  refine ties_bind (hrolls.fold t) fun code _ h => ?_
  obtain rfl := h
  exact hrolls.rollCode code

/-- The roll of an evaluation is that of the pieces of its text. -/
theorem exists_pieces_of_evaluateWith {again : Reentry ρ} {t : Text} {r : Roll} {s s' : Session ρ}
    (h : Turn.evaluateWith again t s = .ok r s') :
    ∃ p u u', s.depth < s.config.maxDepth ∧ tree again t (Turn.enter s) = .ok p u ∧
      rollPieces p u = .ok r u' ∧ s' = Turn.leave u' := by
  obtain ⟨code, v, u', hdepth, hresolve, hroll, hs'⟩ := exists_of_evaluateWith_eq_ok h
  obtain ⟨p, u, htree, hresolve⟩ := Turn.exists_of_bind_eq_ok hresolve
  obtain ⟨text, w, hflatten, hfold⟩ := Turn.exists_of_bind_eq_ok hresolve
  refine ⟨p, u, u', hdepth, htree, ?_, hs'⟩
  unfold rollPieces
  rw [Turn.bind_of_ok _ hflatten, Turn.bind_of_ok _ hfold, hroll]

/-- Nothing is no code. -/
theorem Resolution.rollPieces_nil_ne (r : Roll) (s s' : Session ρ) :
    rollPieces .nil s ≠ .ok r s' := by
  intro h
  obtain ⟨t, u, ht, h⟩ := Turn.exists_of_bind_eq_ok h
  obtain ⟨rfl, rfl⟩ := EStateM.Result.ok.inj ht
  obtain ⟨code, v, hcode, h⟩ := Turn.exists_of_bind_eq_ok h
  have hfold : NumberRun.foldNumbers [] = .ok [] := by cbv
  unfold fold at hcode
  rw [hfold] at hcode
  obtain ⟨rfl, rfl⟩ := EStateM.Result.ok.inj hcode
  have hread : DiceCode.read [] = .error (.noAmount []) := by cbv
  unfold Turn.rollCode at h
  rw [hread] at h
  cases h

end Pieces

/-! ## The pieces of a group -/

namespace Resolution

variable {c : Config} {d : Defines} {t : Text} {p : Pieces × Nat}

/-- Empty groups of a text vanish before it is taken apart. -/
theorem apart_dropEmptyGroups (path depth : Nat) (used : List Text) (t : Text) :
    apart c d path depth used (Group.dropEmptyGroups t) = apart c d path depth used t := by
  cases path with
  | zero => rfl
  | succ path => rw [apart, apart, atoms?_dropEmptyGroups]

/-- **A text in parentheses has the pieces of the text in one group**, unless they nest too deep. -/
theorem run_apart_group (h : (apart c d (pathBound c) 0 [] t).run 0 = .ok p) (hne : p.1 ≠ .nil) :
    (apart c d (pathBound c) 0 [] ('(' :: t ++ [')'])).run 0 =
      if p.1.nesting < c.maxDepth then .ok (.group p.1 .nil, p.2)
      else .error (.failed (.recursionLimit c.maxDepth)) := by
  obtain ⟨path, atoms, hpath, -, hatoms, hassembled⟩ := exists_of_run_apart h
  have hsome : atoms ≠ [] := by
    rintro rfl
    obtain rfl : (.nil, 0) = p := Except.ok.inj hassembled
    exact hne rfl
  have hroom : room c (0 + 1) 0 < path := by
    unfold pathBound at hpath
    unfold room
    omega
  have hinner : (apart c d path (0 + 1) [] t).run 0 = within c (0 + 1) p :=
    follows_apart [] t hroom p h
  rw [hpath, run_apart (Nat.zero_le _) (atoms?_group hatoms hsome)]
  unfold assembled
  rw [apart_dropEmptyGroups]
  by_cases hnesting : p.1.nesting < c.maxDepth
  · rw [within_of_le (by omega)] at hinner
    rw [Tallying.run_bind_of_ok hinner, if_pos hnesting]
    rfl
  · rw [within_of_lt (by omega)] at hinner
    rw [Tallying.run_bind_of_error hinner, if_neg hnesting]

end Resolution

/-! ## Groups -/

variable [Roller ρ]

/-- Resolving a text of one group rolls its pieces, and gives the number that they come to. -/
theorem resolve_of_group {again : Reentry ρ} {t : Text} {p : Pieces} {r : Roll}
    {s s' : Session ρ} (htree : tree again t s = .ok (.group p .nil) s)
    (hroll : rollPieces p s = .ok r s') (hvalue : Whole.lowest < r.value) :
    Resolution.resolve again t s = .ok (Whole.render r.value) s' := by
  unfold Resolution.resolve
  have hflatten : flatten (.group p .nil) s = .ok (Whole.render r.value) s' := by
    rw [flatten_group, Turn.bind_of_ok _ hroll]
    exact congrArg (fun u => EStateM.Result.ok u s') (List.append_nil _)
  rw [Turn.bind_of_ok _ htree, Turn.bind_of_ok _ hflatten]
  unfold fold
  rw [NumberRun.foldNumbers_render hvalue]
  rfl

/-- **A group stands for its own result.**  Where a text without triggers evaluates to a roll, the
text in parentheses resolves to the number of the roll and leaves the same session, provided that
the number is not the least one and that groups nest less deep than the limit, those in the values
of defines counted; if they nest as deep as the limit, resolving fails and changes nothing.  They
never nest deeper than in the text and the values of all defines together. -/
theorem group_stands_for_result {t : Text} {s s' : Session ρ} {r : Roll}
    (hmacros : s.defines.macros = []) (ht : '&' ∉ t) (h : Turn.evaluate t s = .ok r s')
    (hvalue : Whole.lowest < r.value) :
    ∃ p, (∀ again, tree again t s = .ok p s) ∧
      p.nesting ≤ Group.nesting 0 t + s.defines.nesting [] ∧
      (p.nesting < s.config.maxDepth →
        Turn.resolve ('(' :: t ++ [')']) s = .ok (Whole.render r.value) s') ∧
      (s.config.maxDepth ≤ p.nesting →
        Turn.resolve ('(' :: t ++ [')']) s =
          .error (.failed (.recursionLimit s.config.maxDepth)) s) := by
  rw [Turn.evaluate_eq] at h
  rw [Turn.resolve_eq]
  generalize (reentry (reach s.config) : Reentry ρ) = again at h ⊢
  obtain ⟨p, u, u', -, htree, hroll, rfl⟩ := exists_pieces_of_evaluateWith h
  -- taking the text apart does not see how deep the session is
  have hmacros' : (Turn.enter s).defines.macros = [] := hmacros
  obtain ⟨⟨n, hapart⟩, rfl⟩ := exists_of_tree_eq_ok hmacros' ht htree
  have hapart : (apart s.config s.defines (pathBound s.config) 0 [] t).run 0 = .ok (p, n) := hapart
  have hne : p ≠ .nil := by
    rintro rfl
    exact rollPieces_nil_ne r _ _ hroll
  obtain ⟨v, hrolled, rfl⟩ :=
    Coupling.exists_of_ties_below (Coupling.ties_rollPieces s.config p) rfl hroll
  have hgroup := run_apart_group hapart hne
  have hplain : '&' ∉ '(' :: t ++ [')'] := by
    simp only [List.cons_append, List.mem_cons, List.mem_append, not_or]
    exact ⟨by decide, ht, by decide, List.not_mem_nil⟩
  rw [Turn.leave_enter]
  refine ⟨p, fun again => ?_, nesting_le_of_run_apart hapart, fun hnesting => ?_,
    fun hnesting => ?_⟩
  · rw [run_tree_of_plain again hmacros ht, hapart]
  · refine resolve_of_group ?_ hrolled hvalue
    rw [run_tree_of_plain again hmacros hplain, hgroup, if_pos hnesting]
  · unfold Resolution.resolve
    refine Turn.bind_of_error _ ?_
    rw [run_tree_of_plain again hmacros hplain, hgroup, if_neg (Nat.not_lt.mpr hnesting)]

/-- A text with a group, in which a define gives two faces, stands for a negative number. -/
theorem group_stands_for_negative_result :
    let s := (Session.start {} (Scripted.mk [])).define [("x".toList, "[4,2]g".toList)]
    s.defines.macros = [] ∧ '&' ∉ "2 - (x) * 3".toList ∧
    ∃ r s', Turn.evaluate "2 - (x) * 3".toList s = .ok r s' ∧ Whole.lowest < r.value ∧
      Turn.resolve "(2 - (x) * 3)".toList s = .ok "-16".toList s' := by
  intro s
  have hmacros : s.defines.macros = [] := by cbv
  have ht : '&' ∉ "2 - (x) * 3".toList := by decide
  have houtcome : ∀ again : Reentry Scripted,
      ((Turn.evaluateWith again "2 - (x) * 3".toList).outcome s).map Roll.value = .ok (-16) :=
    fun again => by cbv
  have hnesting : Group.nesting 0 "2 - (x) * 3".toList + s.defines.nesting [] = 1 := by cbv
  obtain ⟨r, s', hs, hvalue⟩ :=
    Turn.exists_of_map_outcome_eq_ok (houtcome (reentry (reach s.config)))
  rw [← Turn.evaluate_eq] at hs
  have hlowest : Whole.lowest < r.value := by rw [hvalue]; decide
  obtain ⟨p, -, hle, hresolve, -⟩ := group_stands_for_result hmacros ht hs hlowest
  have hgroup := hresolve (Nat.lt_of_le_of_lt (hnesting ▸ hle) (by decide))
  rw [hvalue] at hgroup
  exact ⟨hmacros, ht, r, s', hs, hlowest, hgroup⟩

/-- Neither condition can be left out: a define takes up the only level of groups that the limit
allows, and the least number is not read back. -/
theorem group_differs_from_result :
    let narrow := (Session.start { maxDepth := 1 } (Scripted.mk [])).define
      [("x".toList, "(1)".toList)]
    let wide := Session.start {} (Scripted.mk [])
    (narrow.defines.macros = [] ∧
      ((Turn.evaluate "x".toList).outcome narrow).map Roll.result = .ok (some 1) ∧
      (Turn.resolve "(x)".toList).outcome narrow = .error (.failed (.recursionLimit 1))) ∧
    (wide.defines.macros = [] ∧
      ((Turn.evaluate "0-9223372036854775807-1".toList).outcome wide).map Roll.result =
        .ok (some Whole.lowest) ∧
      (Turn.resolve "(0-9223372036854775807-1)".toList).outcome wide =
        .error (.failed (.arith
          (.parse (.badNumber ⟨.integer, "9223372036854775808".toList, 1⟩))))) := by
  intro narrow wide
  rw [outcome_evaluate, outcome_evaluate, Turn.outcome_resolve, Turn.outcome_resolve]
  generalize (reentry (reach narrow.config) : Reentry Scripted) = again
  generalize (reentry (reach wide.config) : Reentry Scripted) = again'
  exact ⟨⟨by cbv, by cbv, by cbv⟩, by cbv, by cbv, by cbv⟩

end DiceNotation
