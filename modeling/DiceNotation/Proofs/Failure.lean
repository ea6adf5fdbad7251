import DiceNotation.Resolution.Flatten

/-!
# Which errors there can be

Every reader of a text fails with errors of its own.  A dice code that cannot be read is a
failure of usage, a text that cannot be split into groups has an unmatched parenthesis, and so
on.  None of them ever says that the budget is used up: this is for the cup alone to say.

`FailsOnly p r` says that `r` either has a value or fails with an error that satisfies `p`.  It is
carried through the readers by one lemma for every way of putting computations together.

* `FailsOnly`, `failsOnly_bind`, `failsOnly_mapM`, `failsOnly_foldlM`.
* `failsOnly_usage_readWith`: dice codes.
* `failsOnly_unmatched_partsFrom?`, `failsOnly_scan`, `failsOnly_assign`: groups, triggers and
  assignments.
* `failsOnly_specify`, `failsOnly_total`, `failsOnly_foldNumbers`: rolls and the text before them.
-/

namespace DiceNotation

/-- A computation that has a value or fails with an error that satisfies `p`. -/
def FailsOnly {α : Type} (p : RollError → Prop) (r : Except RollError α) : Prop :=
  ∀ e, r = .error e → p e

section FailsOnly

variable {α β : Type} {p : RollError → Prop}

theorem failsOnly_ok (a : α) : FailsOnly p (.ok a) := fun _ h => nomatch h

theorem failsOnly_pure (a : α) : FailsOnly p (pure a) := failsOnly_ok a

theorem failsOnly_error {e : RollError} (h : p e) :
    FailsOnly p (.error e : Except RollError α) := by
  rintro e' he
  cases he
  exact h

theorem failsOnly_bind {r : Except RollError α} {f : α → Except RollError β}
    (hr : FailsOnly p r) (hf : ∀ a, FailsOnly p (f a)) : FailsOnly p (r >>= f) := by
  cases r with
  | ok a => exact hf a
  | error e => exact failsOnly_error (hr e rfl)

theorem failsOnly_mapM {f : α → Except RollError β} (hf : ∀ a, FailsOnly p (f a)) (l : List α) :
    FailsOnly p (l.mapM f) := by
  induction l with
  | nil => exact failsOnly_pure []
  | cons a l ih =>
    rw [List.mapM_cons]
    exact failsOnly_bind (hf a) fun b => failsOnly_bind ih fun bs => failsOnly_pure _

theorem failsOnly_foldlM {f : β → α → Except RollError β} (hf : ∀ b a, FailsOnly p (f b a))
    (l : List α) (b : β) : FailsOnly p (l.foldlM f b) := by
  induction l generalizing b with
  | nil => exact failsOnly_pure b
  | cons a l ih =>
    rw [List.foldlM_cons]
    exact failsOnly_bind (hf b a) fun b' => ih b'

/-- A computation that fails only in one way does not fail in another. -/
theorem FailsOnly.ne_error {r : Except RollError α} (h : FailsOnly p r) {e : RollError}
    (he : ¬ p e) : r ≠ .error e :=
  fun hr => he (h e hr)

end FailsOnly

/-! ## Dice codes -/

namespace DiceCode

/-- A number in a code fails as a matter of usage. -/
theorem failsOnly_usable (t : Text) : FailsOnly (fun e => e.category = .usage) (usable t) := by
  unfold usable
  split
  · exact failsOnly_ok _
  · exact failsOnly_error rfl

theorem failsOnly_literalAmount (t : Text) :
    FailsOnly (fun e => e.category = .usage) (literalAmount t) := by
  unfold literalAmount
  split
  · exact failsOnly_bind (failsOnly_mapM failsOnly_usable _) fun _ => failsOnly_pure _
  · exact failsOnly_ok _

/-- What a rule finds, it fails to find as a matter of usage. -/
theorem failsOnly_find (r : Rule) (code : Text) :
    FailsOnly (fun e => e.category = .usage) (r.find code) := by
  cases r with
  | selectors =>
    show FailsOnly _ (findSelectors code)
    unfold findSelectors
    split
    · exact failsOnly_ok _
    · exact failsOnly_bind (failsOnly_mapM failsOnly_usable _) fun _ => failsOnly_pure _
  | sides =>
    exact failsOnly_mapM (fun _ => failsOnly_bind (failsOnly_usable _) fun _ => failsOnly_pure _) _
  | rerolls =>
    exact failsOnly_mapM (fun _ => failsOnly_bind (failsOnly_usable _) fun _ => failsOnly_pure _) _
  | sort => exact failsOnly_ok _
  | amount =>
    show FailsOnly _ (findAmount code)
    unfold findAmount
    dsimp only
    split
    · exact failsOnly_ok _
    · exact failsOnly_bind (failsOnly_usable _) fun _ => failsOnly_pure _
  | literal =>
    show FailsOnly _ (findLiteral code)
    unfold findLiteral
    dsimp only
    split
    · exact failsOnly_ok _
    · exact failsOnly_bind (failsOnly_literalAmount _) fun _ => failsOnly_pure _
  | suffix =>
    show FailsOnly _ (findSuffix code)
    unfold findSuffix
    dsimp only
    split <;> exact failsOnly_ok _
  | threshold =>
    show FailsOnly _ (findThreshold code)
    unfold findThreshold
    dsimp only
    split
    · exact failsOnly_ok _
    · exact failsOnly_ok _
    · split
      · exact failsOnly_bind (failsOnly_usable _) fun _ => failsOnly_pure _
      · exact failsOnly_ok _
  | explosion =>
    show FailsOnly _ (findExplosion code)
    unfold findExplosion
    dsimp only
    split <;> exact failsOnly_ok _

/-- A rule's findings are added to a draft, or conflict with it. -/
theorem failsOnly_apply (code : Text) (d : Draft) (r : Rule) :
    FailsOnly (fun e => e.category = .usage) (d.apply code r) := by
  refine failsOnly_bind (failsOnly_find r code) fun found => ?_
  refine failsOnly_foldlM (fun d f => ?_) found d
  refine failsOnly_foldlM (fun d s => ?_) f.settings _
  unfold Draft.set
  split
  · exact failsOnly_error rfl
  · exact failsOnly_ok _

/-- **A dice code that cannot be read is a failure of usage**, whatever the rules are. -/
theorem failsOnly_usage_readWith (rules : List Rule) (code : Text) :
    FailsOnly (fun e => e.category = .usage) (readWith rules code) := by
  refine failsOnly_bind (failsOnly_foldlM (failsOnly_apply _) rules {}) fun d => ?_
  unfold Draft.finish
  dsimp only
  split
  · exact failsOnly_error rfl
  · split
    · exact failsOnly_error rfl
    · split
      · exact failsOnly_ok _
      · exact failsOnly_error rfl

end DiceCode

/-! ## Groups, triggers and assignments -/

/-- A text that has no parts has a parenthesis without a partner. -/
theorem failsOnly_unmatched_partsFrom? (position : Nat) (t : Text) :
    FailsOnly (fun e => ∃ d n, e = .unmatched d n) (Group.partsFrom? position t) := by
  fun_induction Group.partsFrom? position t with
  | case1 => exact failsOnly_ok _
  | case2 => exact failsOnly_error ⟨_, _, rfl⟩
  | case3 => exact failsOnly_error ⟨_, _, rfl⟩
  | case4 position t plain start c rest h hc inner after hcut ih =>
    exact failsOnly_bind ih fun _ => failsOnly_pure _

/-- The errors of what is no trigger: its name is unknown, or its body is not what the name asks
for. -/
inductive TriggerError : RollError → Prop where
  | number (trigger body : Text) : TriggerError (.triggerNumber trigger body)
  | roll (trigger : Text) : TriggerError (.triggerRoll trigger)
  | conditional : TriggerError .malformedConditional
  | unknown (name : Text) : TriggerError (.unknownTrigger name)

/-- The errors of a text that is no script: an ampersand is left over, or a trigger cannot be
read. -/
inductive ScriptError : RollError → Prop where
  | unmatched (n : Nat) : ScriptError (.unmatched .ampersand n)
  | trigger {e : RollError} (h : TriggerError e) : ScriptError e

theorem TriggerError.ne_unmatched {e : RollError} (h : TriggerError e) (d : Delimiter) (n : Nat) :
    e ≠ .unmatched d n := by
  rintro rfl
  exact nomatch h

namespace Trigger

theorem failsOnly_wholeBody (name body : Text) : FailsOnly TriggerError (wholeBody name body) := by
  unfold wholeBody
  split
  · exact failsOnly_ok _
  · exact failsOnly_error (.number name body)

theorem failsOnly_rollBody (name body : Text) : FailsOnly TriggerError (rollBody name body) := by
  unfold rollBody
  split
  · split
    · exact failsOnly_error (.roll name)
    · exact failsOnly_ok _
  · exact failsOnly_error (.roll name)

theorem failsOnly_ofNameAndBody (name body : Text) :
    FailsOnly TriggerError (ofNameAndBody name body) := by
  unfold ofNameAndBody
  split
  · exact failsOnly_ok _
  · exact failsOnly_bind (failsOnly_wholeBody _ _) fun _ => failsOnly_pure _
  · exact failsOnly_bind (failsOnly_wholeBody _ _) fun _ => failsOnly_pure _
  · exact failsOnly_bind (failsOnly_rollBody _ _) fun _ => failsOnly_pure _
  · exact failsOnly_ok _
  · exact failsOnly_ok _
  · exact failsOnly_bind (failsOnly_rollBody _ _) fun _ => failsOnly_pure _
  · exact failsOnly_bind (failsOnly_rollBody _ _) fun _ => failsOnly_pure _
  · exact failsOnly_ok _
  · exact failsOnly_ok _
  · exact failsOnly_ok _
  · split
    · exact failsOnly_ok _
    · exact failsOnly_error .conditional
  · exact failsOnly_error (.unknown _)

/-- A trigger that cannot be read has a fault of its own. -/
theorem failsOnly_parse (inside : Text) : FailsOnly TriggerError (parse inside) :=
  failsOnly_ofNameAndBody _ _

end Trigger

/-- Once the ampersands are paired, only a trigger can be at fault. -/
theorem failsOnly_ofPieces (pieces : List Text) :
    FailsOnly TriggerError (Script.ofPieces pieces) := by
  fun_induction Script.ofPieces pieces with
  | case1 inside text pieces ih =>
    exact failsOnly_bind (Trigger.failsOnly_parse inside) fun _ =>
      failsOnly_bind ih fun _ => failsOnly_pure _
  | case2 => exact failsOnly_ok _

/-- A text that is no script has a fault of its own. -/
theorem failsOnly_scan (t : Text) : FailsOnly ScriptError (Script.scan t) := by
  unfold Script.scan
  split
  · exact failsOnly_ok _
  · split
    · refine failsOnly_bind (fun e he => .trigger (failsOnly_ofPieces _ e he)) fun _ => ?_
      exact failsOnly_pure _
    · exact failsOnly_error (.unmatched _)

/-- A part that is no assignment is what assigning fails with. -/
theorem failsOnly_assign (d : Defines) (body : Text) :
    FailsOnly (fun e => ∃ part, e = .malformedAssignment part) (d.assign body) := by
  refine failsOnly_bind ?_ fun _ => failsOnly_pure _
  unfold Defines.assignments?
  generalize Text.pieces _ body = parts
  induction parts with
  | nil => exact failsOnly_ok _
  | cons part parts ih =>
    unfold Defines.assignmentsOf?
    split
    · exact ih
    · split
      · exact failsOnly_error ⟨_, rfl⟩
      · exact failsOnly_bind ih fun _ => failsOnly_pure _

/-! ## Rolls -/

/-- A roll is specified unless it refers to one that there has not been. -/
theorem failsOnly_specify {ρ : Type} (s : Session ρ) (p : DiceCode.Parameters) :
    FailsOnly (fun e => ∃ n, e = .noSuchRoll n) (s.specify p) := by
  refine failsOnly_bind ?_ fun _ => failsOnly_pure _
  unfold Session.resolveAmount
  split
  · split
    · exact failsOnly_ok _
    · exact failsOnly_error ⟨_, rfl⟩
  · exact failsOnly_ok _

namespace Dice

theorem failsOnly_signed (d : Dice) (x : Int) : FailsOnly (· = .overflow) (d.signed x) := by
  unfold signed
  split
  · exact failsOnly_ok _
  · exact failsOnly_error rfl

theorem failsOnly_total (d : Dice) (faces : List Int) :
    FailsOnly (· = .overflow) (d.total faces) := by
  refine failsOnly_bind (failsOnly_foldlM (fun total face => ?_) faces 0) fun sum =>
    failsOnly_signed d sum
  unfold addFace
  split
  · exact failsOnly_ok _
  · exact failsOnly_error rfl

theorem failsOnly_signed? (d : Dice) (x : Option Int) :
    FailsOnly (· = .overflow) (d.signed? x) := by
  cases x with
  | none => exact failsOnly_ok _
  | some x => exact failsOnly_bind (failsOnly_signed d x) fun _ => failsOnly_pure _

end Dice

/-- A roll without a total has one that is out of range. -/
theorem failsOnly_total (r : Roll) : FailsOnly (· = .overflow) r.total := by
  unfold Roll.total
  split
  · unfold Dice.sum
    split
    · exact failsOnly_ok _
    · exact failsOnly_bind (Dice.failsOnly_total _ _) fun _ => failsOnly_pure _
  · exact Dice.failsOnly_signed? _ _
  · exact Dice.failsOnly_signed? _ _
  · exact failsOnly_ok _
  · exact failsOnly_ok _
  · unfold Dice.successes
    split
    · exact failsOnly_ok _
    · exact Dice.failsOnly_signed? _ _
  · exact failsOnly_bind (Dice.failsOnly_total _ _) fun _ => failsOnly_pure _

/-- Folding the numbers of a text fails as arithmetic does. -/
theorem failsOnly_foldNumbers (t : Text) :
    FailsOnly (fun e => ∃ a, e = .arith a) ((NumberRun.foldNumbers t).mapError .arith) := by
  cases NumberRun.foldNumbers t with
  | ok t => exact failsOnly_ok _
  | error a => exact failsOnly_error ⟨a, rfl⟩

end DiceNotation
