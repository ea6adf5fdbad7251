import DiceNotation.Proofs.Coupling.Rolling
import DiceNotation.Proofs.Origins

/-!
# Firing triggers side by side

Triggers look at more of a session than rolling does: at the flags, at the defines, and at the
report of the history.  They change the flags and the defines, and the one thing that they never
do without permission is to raise the limits.

A coupling that grants all of this is *fair*.  What triggers start again is evaluation and
resolution, and these are a parameter here as they are where triggers fire: whenever two of them are
tied, so is every trigger.

## Ampersands

A text is scanned before its triggers fire, and from then on it has no ampersand: neither in the
triggers, nor in the text around them, nor in their outputs.  So triggers only start texts without
ampersands again, and `TiesAgain` asks for nothing else.  The defines that triggers set are such
texts too, and a coupling has to grant no define that is a macro.

What becomes of a text depends on how each of its triggers fires, and on nothing else about them.
So ties are shown of `Trigger.expandBy`, where this is a parameter as well.

* `Firing`, `Trigger.expandBy`: a way of firing triggers, and all triggers of a text.
* `Coupling.Fair`: what a coupling has to grant.
* `Coupling.TiesAgain`, `Coupling.TiesFiring`: two ways of starting again, and of firing.
* `Fair.fire`, `Fair.expandBy`.
-/

namespace DiceNotation

/-- A way of firing triggers, with the text around them. -/
abbrev Firing (ρ : Type) := Trigger → Surroundings → Turn ρ (Text × Surroundings)

namespace Trigger

variable {ρ : Type} (fires : Firing ρ)

/-- Fires triggers from left to right in a given way. -/
def fireAllBy : List Trigger → Surroundings → Turn ρ Text
  | [], around => pure around.text
  | t :: ts, around => do
    let (output, around) ← fires t around
    fireAllBy ts (around.advance output)

/-- The text after all of its triggers have fired in a given way. -/
def expandBy (t : Text) : Turn ρ Text := do
  let script ← Turn.ofExcept (Script.scan t)
  fireAllBy fires (script.rest.map Prod.fst) ⟨[script.lead], script.rest.map Prod.snd⟩

theorem fireAll_eq_fireAllBy (again : Reentry ρ) (ts : List Trigger) (around : Surroundings) :
    fireAll again ts around = fireAllBy (fire again) ts around := by
  induction ts generalizing around with
  | nil => rfl
  | cons t ts ih =>
    unfold fireAll fireAllBy
    simp only [ih]

theorem expand_eq_expandBy (again : Reentry ρ) : expand again = expandBy (fire again) := by
  funext t
  unfold expand expandBy
  simp only [fireAll_eq_fireAllBy]

end Trigger

namespace Coupling

variable {ρ : Type} [Roller ρ]

/-- What the whole pipeline needs of a coupling. -/
structure Fair (C : Coupling ρ) (c : Config) : Prop extends C.Rolls c where
  flags_eq : ∀ {s s'}, C.state s s' → s'.flags = s.flags
  defines_eq : ∀ {s s'}, C.state s s' → s'.defines = s.defines
  depth_eq : ∀ {s s'}, C.state s s' → s'.depth = s.depth
  report_eq : ∀ {s s'}, C.state s s' → s'.history.resonanceReport = s.history.resonanceReport
  flags : ∀ {f : Flags} {s s'}, (f.limitBreak = true → s.flags.limitBreak = true ∨
    c.isAdministrator = true) → C.state s s' → C.state { s with flags := f } { s' with flags := f }
  /-- Defines are set, and no macro is added. -/
  defines : ∀ {d : Defines} {s s'}, d.macros ⊆ s.defines.macros → C.state s s' →
    C.state { s with defines := d } { s' with defines := d }
  message : ∀ {s s'}, C.state s s' → C.halt (.message s.history.resonanceReport) s
    (.message s.history.resonanceReport) s'

omit [Roller ρ] in
/-- Two ways of starting evaluation and resolution again are tied, as triggers use them. -/
structure TiesAgain (C : Coupling ρ) (again again' : Reentry ρ) : Prop where
  evaluate : ∀ t, '&' ∉ t → C.Ties Eq (again.evaluate t) (again'.evaluate t)
  resolve : ∀ t, '&' ∉ t → C.Ties Eq (again.resolve t) (again'.resolve t)

omit [Roller ρ] in
/-- Two ways of firing triggers are tied, where neither they nor the text around them have an
ampersand, and they leave none. -/
def TiesFiring (C : Coupling ρ) (fires fires' : Firing ρ) : Prop :=
  ∀ {t : Trigger}, t.Plain → ∀ {around : Surroundings}, '&' ∉ around.text →
    C.Ties (fun a b => a = b ∧ '&' ∉ a.1 ∧ '&' ∉ a.2.text) (fires t around) (fires' t around)

namespace Fair

variable {C : Coupling ρ} {c : Config} {again again' : Reentry ρ} {fires fires' : Firing ρ}

theorem fail {α : Type} (hC : C.Fair c) {V : α → α → Prop} {e : RollError}
    (he : e ≠ .tooManyRolls) : C.Ties V (Turn.fail e : Turn ρ α) (Turn.fail e) :=
  ties_throw fun _ _ hs => hC.failed he hs

/-- Changing the flags, where only who may do so raises the limits. -/
theorem modifyFlags (hC : C.Fair c) {f : Flags → Flags}
    (hf : ∀ flags, (f flags).limitBreak = true → flags.limitBreak = true ∨
      c.isAdministrator = true) :
    C.Ties (fun _ _ => True) (Turn.modifyFlags f : Turn ρ Unit) (Turn.modifyFlags f) := by
  refine ties_modify fun s s' hs => ?_
  have h := hC.flags (hf s.flags) hs
  rw [hC.flags_eq hs]
  exact h

/-- Changing the defines, where no macro is added. -/
theorem modifyDefines (hC : C.Fair c) {f : Defines → Defines}
    (hf : ∀ d, (f d).macros ⊆ d.macros) :
    C.Ties (fun _ _ => True) (Turn.modifyDefines f : Turn ρ Unit) (Turn.modifyDefines f) := by
  refine ties_modify fun s s' hs => ?_
  rw [hC.defines_eq hs]
  exact hC.defines (hf s.defines) hs

theorem resolveWhole (hC : C.Fair c) (h : C.TiesAgain again again') {t : Text} (ht : '&' ∉ t) :
    C.Ties Eq (Trigger.resolveWhole again t) (Trigger.resolveWhole again' t) := by
  refine ties_bind (h.resolve t ht) fun code _ hcode => ?_
  obtain rfl := hcode
  cases Whole.read? (Text.trim code) with
  | some n => exact ties_pure rfl
  | none => exact hC.fail (by simp)

omit [Roller ρ] in
theorem repeatRoll (h : C.TiesAgain again again') {roll : Text} (hroll : '&' ∉ roll) (n : Nat)
    (total : Int) :
    C.Ties Eq (Trigger.repeatRoll again roll total n) (Trigger.repeatRoll again' roll total n) := by
  induction n generalizing total with
  | zero => exact ties_pure rfl
  | succ n ih =>
    refine ties_bind (h.evaluate roll hroll) fun r _ hr => ?_
    obtain rfl := hr
    exact ih _

/-- A loop runs as often in both sessions. -/
theorem runLoop (hC : C.Fair c) (h : C.TiesAgain again again') {roll times : Text}
    (hroll : '&' ∉ roll) (htimes : '&' ∉ times) :
    C.Ties Eq (Trigger.runLoop again roll times) (Trigger.runLoop again' roll times) := by
  refine ties_bind (hC.resolveWhole h htimes) fun n _ hn => ?_
  obtain rfl := hn
  refine ties_bind ties_get fun s s' hs => ?_
  rw [hC.flags_eq hs]
  exact repeatRoll h hroll _ _

omit [Roller ρ] in
theorem pursue (h : C.TiesAgain again again') {roll : Text} (hroll : '&' ∉ roll) (n : Nat)
    (record : ProjectRecord) :
    C.Ties Eq (Trigger.pursue again roll record n) (Trigger.pursue again' roll record n) := by
  induction n generalizing record with
  | zero => exact ties_pure rfl
  | succ n ih =>
    unfold Trigger.pursue
    split
    · refine ties_bind (h.evaluate roll hroll) fun r _ hr => ?_
      obtain rfl := hr
      exact ih _
    · exact ties_pure rfl

theorem runProject (hC : C.Fair c) (h : C.TiesAgain again again') {roll goal : Text}
    (hroll : '&' ∉ roll) (hgoal : '&' ∉ goal) :
    C.Ties Eq (Trigger.runProject again roll goal) (Trigger.runProject again' roll goal) := by
  refine ties_bind (hC.resolveWhole h hgoal) fun n _ hn => ?_
  obtain rfl := hn
  refine ties_bind ties_get fun s s' hs => ?_
  rw [hC.flags_eq hs]
  refine ties_bind (pursue h hroll _ _) fun record _ hrecord => ?_
  obtain rfl := hrecord
  exact ties_bind (hC.modifyFlags fun _ => Or.inl) fun _ _ _ => ties_pure rfl

omit [Roller ρ] in
/-- A word stands for text without an ampersand. -/
theorem wordValue (h : C.TiesAgain again again') {word : Text} (hword : '&' ∉ word) :
    C.Ties (fun a b => a = b ∧ '&' ∉ a) (Trigger.wordValue again word)
      (Trigger.wordValue again' word) := by
  unfold Trigger.wordValue
  split
  · next inner hinner =>
    have hinner : '&' ∉ inner := fun hamp => hword (Group.wrapped?_subset hinner hamp)
    refine ties_bind (h.evaluate inner hinner) fun r _ hr => ?_
    exact ties_pure ⟨by rw [hr], Whole.no_ampersand_render _⟩
  · exact ties_pure ⟨rfl, hword⟩

theorem bindWords (hC : C.Fair c) (h : C.TiesAgain again again') (keys : List Text)
    {around : Surroundings} (haround : '&' ∉ around.text) :
    C.Ties (fun a b => a = b ∧ '&' ∉ a.text) (Trigger.bindWords again around keys)
      (Trigger.bindWords again' around keys) := by
  induction keys generalizing around with
  | nil => exact ties_pure ⟨rfl, haround⟩
  | cons key keys ih =>
    unfold Trigger.bindWords
    split
    · exact hC.fail (by simp)
    · next word rest htaken =>
      obtain ⟨hword, hrest⟩ := Surroundings.takeWord?_subset htaken
      refine ties_bind (wordValue h fun hamp => haround (hword hamp)) fun value _ hvalue => ?_
      obtain ⟨rfl, hvalue⟩ := hvalue
      refine ties_bind (hC.modifyDefines fun d => ?_) fun _ _ _ => ih fun hamp =>
        haround (hrest hamp)
      exact Defines.macros_insert_subset d key hvalue

omit [Roller ρ] in
/-- What setting defines comes to. -/
theorem run_values (again : Reentry ρ) (assignments : Text) (s : Session ρ) :
    Trigger.fireAlone again (.values assignments) s =
      match s.defines.assign assignments with
      | .ok (defines, _) => .ok [] { s with defines }
      | .error e => .error (.failed e) s := by
  show EStateM.bind (Turn.ofExcept (s.defines.assign assignments)) _ s = _
  cases s.defines.assign assignments <;> rfl

/-- Setting defines ties sessions, and adds no macro. -/
theorem values (hC : C.Fair c) {assignments : Text} (h : '&' ∉ assignments) :
    C.Ties (fun a b => a = b ∧ '&' ∉ a) (Trigger.fireAlone again (.values assignments))
      (Trigger.fireAlone again' (.values assignments)) := by
  intro s s' hs
  rw [run_values, run_values, hC.defines_eq hs]
  cases hassign : s.defines.assign assignments with
  | error e =>
    have he : e ≠ .tooManyRolls := by
      rintro rfl
      exact (failsOnly_assign _ _).ne_error (by simp) hassign
    exact Or.inr (hC.failed he hs)
  | ok set =>
    exact ⟨⟨rfl, List.not_mem_nil⟩, hC.defines (Defines.macros_assign_subset h hassign) hs⟩

/-- A trigger that does not look at the text around it. -/
theorem fireAlone (hC : C.Fair c) (h : C.TiesAgain again again') {t : Trigger} (ht : t.Plain) :
    C.Ties (fun a b => a = b ∧ '&' ∉ a) (Trigger.fireAlone again t)
      (Trigger.fireAlone again' t) := by
  have hnone : '&' ∉ ([] : Text) := List.not_mem_nil
  cases t with
  | limitBreak =>
    refine ties_bind ties_get fun s s' hs => ?_
    rw [(hC.config hs).1, (hC.config hs).2]
    refine ties_bind (hC.modifyFlags fun flags hf => ?_) fun _ _ _ => ties_pure ⟨rfl, hnone⟩
    unfold Flags.breakLimits at hf
    split at hf
    · next hadmin => exact Or.inr hadmin
    · exact Or.inl hf
  | shift n =>
    exact ties_bind (hC.modifyFlags fun _ => Or.inl) fun _ _ _ => ties_pure ⟨rfl, hnone⟩
  | max n =>
    exact ties_bind (hC.modifyFlags fun _ => Or.inl) fun _ _ _ => ties_pure ⟨rfl, hnone⟩
  | project roll goal =>
    have hroll : '&' ∉ roll := ht roll (by simp [Trigger.texts])
    have hgoal : '&' ∉ goal := ht goal (by simp [Trigger.texts])
    refine ties_bind (hC.runProject h hroll hgoal) fun record _ hrecord => ?_
    exact ties_pure ⟨by rw [hrecord], Whole.no_ampersand_render _⟩
  | toggle which on =>
    refine ties_bind (hC.modifyFlags fun flags hf => ?_) fun _ _ _ => ties_pure ⟨rfl, hnone⟩
    cases which with
    | ignore => exact Or.inl hf
    | verbose => exact Or.inl hf
  | loop roll times =>
    have hroll : '&' ∉ roll := ht roll (by simp [Trigger.texts])
    have htimes : '&' ∉ times := ht times (by simp [Trigger.texts])
    exact ties_bind (hC.runLoop h hroll htimes) fun _ _ _ => ties_pure ⟨rfl, hnone⟩
  | loopSum roll times =>
    have hroll : '&' ∉ roll := ht roll (by simp [Trigger.texts])
    have htimes : '&' ∉ times := ht times (by simp [Trigger.texts])
    refine ties_bind (hC.runLoop h hroll htimes) fun total _ htotal => ?_
    exact ties_pure ⟨by rw [htotal], Whole.no_ampersand_render _⟩
  | values assignments => exact hC.values (ht assignments (by simp [Trigger.texts]))
  | resonances =>
    intro s s' hs
    have hreport := hC.report_eq hs
    show C.Ends _ (.error (.message s.history.resonanceReport) s)
      (.error (.message s'.history.resonanceReport) s')
    rw [hreport]
    exact Or.inr (hC.message hs)
  | param keys => exact ties_pure ⟨rfl, hnone⟩
  | conditional condition yes no =>
    have hcondition : '&' ∉ condition := ht condition (by simp [Trigger.texts])
    have hyes : '&' ∉ yes := ht yes (by simp [Trigger.texts])
    have hno : '&' ∉ no := ht no (by simp [Trigger.texts])
    refine ties_bind (h.evaluate condition hcondition) fun r _ hr => ?_
    exact ties_pure ⟨by rw [hr], Trigger.no_ampersand_branch hyes hno _⟩

/-- **Every trigger ties what it is fired in**, as long as what it starts again is tied, and it
leaves no ampersand. -/
theorem fire (hC : C.Fair c) (h : C.TiesAgain again again') :
    C.TiesFiring (Trigger.fire again) (Trigger.fire again') := by
  intro t ht around haround
  unfold Trigger.fire
  split
  · refine ties_bind (hC.bindWords h _ haround) fun left _ hleft => ?_
    obtain ⟨rfl, hleft⟩ := hleft
    exact ties_pure ⟨rfl, List.not_mem_nil, hleft⟩
  · refine ties_bind (hC.fireAlone h ht) fun output _ houtput => ?_
    obtain ⟨rfl, houtput⟩ := houtput
    exact ties_pure ⟨rfl, houtput, haround⟩

omit [Roller ρ] in
/-- Triggers from left to right, when each of them is tied. -/
theorem fireAllBy (h : C.TiesFiring fires fires') {ts : List Trigger} (hts : ∀ t ∈ ts, t.Plain)
    {around : Surroundings} (haround : '&' ∉ around.text) :
    C.Ties (fun a b => a = b ∧ '&' ∉ a) (Trigger.fireAllBy fires ts around)
      (Trigger.fireAllBy fires' ts around) := by
  induction ts generalizing around with
  | nil => exact ties_pure ⟨rfl, haround⟩
  | cons t ts ih =>
    refine ties_bind (h (hts t List.mem_cons_self) haround) fun fired _ hfired => ?_
    obtain ⟨rfl, houtput, hleft⟩ := hfired
    refine ih (fun u hu => hts u (List.mem_cons_of_mem t hu)) ?_
    rw [Surroundings.text_advance, List.append_assoc]
    intro hamp
    rcases List.mem_append.mp hamp with hamp | hamp
    · exact hleft (List.mem_append_left _ hamp)
    · rcases List.mem_append.mp hamp with hamp | hamp
      · exact houtput hamp
      · exact hleft (List.mem_append_right _ hamp)

/-- **All triggers of a text**, after which it has no ampersand. -/
theorem expandBy (hC : C.Fair c) (h : C.TiesFiring fires fires') (t : Text) :
    C.Ties (fun a b => a = b ∧ '&' ∉ a) (Trigger.expandBy fires t)
      (Trigger.expandBy fires' t) := by
  refine ties_bind (hC.ofExcept ?_) fun script _ hscript => ?_
  · exact (failsOnly_scan t).ne_error (by rintro (_ | ⟨⟨⟩⟩))
  obtain ⟨rfl, hscan⟩ := hscript
  have hplain := Script.plain_of_scan hscan
  refine fireAllBy h (fun trigger htrigger => ?_) fun hamp => ?_
  · obtain ⟨step, hstep, rfl⟩ := List.mem_map.mp htrigger
    exact hplain.triggers step hstep
  · rcases Surroundings.mem_text.mp hamp with hamp | hamp
    · rw [List.flatten_singleton] at hamp
      exact hplain.lead hamp
    · obtain ⟨stretch, hstretch, hamp⟩ := List.mem_flatten.mp hamp
      obtain ⟨step, hstep, rfl⟩ := List.mem_map.mp hstretch
      exact hplain.stretches step hstep hamp

end Fair

end Coupling

end DiceNotation
