import DiceNotation.Proofs.Outcomes
import DiceNotation.Proofs.Stretches
import DiceNotation.Proofs.TriggerSpans
import DiceNotation.Roller.Stepping
import DiceNotation.Session.Pipeline

/-!
# Triggers fire in their order

Before any trigger of a text fires, all of them are read, so that an ampersand without a partner or
a trigger that cannot be read leaves the session as it is, whatever stands to the left of it.  After
that the triggers fire from left to right, each of them once, up to the first that does not end
well.

## The text that is left

When all of them have fired, the text is the text before with an output in the place of each
trigger, up to words that have been taken from it.  Only parameters take words, each as many as it
has keys.  They take them from outputs and from text that other triggers have still to look at, so
the invariant of a run speaks of all outputs that there will be (`Surroundings.woven`).

* `Script.Spanned`, `Script.exists_spanned`: a text cut at its ampersands.
* `Script.Spanned.scan`: what scanning it comes to.
* `Trigger.Fired`, `Trigger.fireAll_eq_ok_iff`, `Trigger.fireAll_eq_error_iff`: runs of triggers.
* `Trigger.Fired.shortened`, `Trigger.Fired.no_ampersand`: what a run leaves of the text.
* `Trigger.FiresIn`: a trigger of a text, when those before it have fired.
* `triggers_fire_in_order`.
-/

namespace DiceNotation

/-! ## Texts cut at their ampersands -/

namespace Script

/-- A text is cut at its ampersands: there is text before the first span, and every span has an
inside and text after it. -/
structure Spanned (t lead : Text) (spans : List (Text × Text)) : Prop where
  text_eq : t = lead ++ spans.flatMap fun span => '&' :: (span.1 ++ '&' :: span.2)
  lead_plain : '&' ∉ lead
  spans_plain : ∀ span ∈ spans, '&' ∉ span.1 ∧ '&' ∉ span.2

variable {t lead : Text} {spans : List (Text × Text)}

/-- A text with an even number of ampersands can be cut at them. -/
theorem exists_spanned (h : Even (t.count '&')) : ∃ lead spans, Spanned t lead spans := by
  obtain ⟨insides, hpairs⟩ := exists_pairs h
  clear h
  induction hpairs with
  | @plain t ht => exact ⟨t, [], (List.append_nil t).symm, ht, nofun⟩
  | @pair before inside after insides hbefore hinside _ ih =>
    obtain ⟨lead, spans, rfl, hlead, hspans⟩ := ih
    refine ⟨before, (inside, lead) :: spans, ?_, hbefore, fun span hspan => ?_⟩
    · rw [List.flatMap_cons]
      simp only [List.cons_append, List.append_assoc]
    · rcases List.mem_cons.mp hspan with rfl | hspan
      · exact ⟨hinside, hlead⟩
      · exact hspans span hspan

theorem Spanned.pieces (h : Spanned t lead spans) :
    Text.pieces isAmpersand t = lead :: spans.flatMap fun span => [span.1, span.2] := by
  obtain ⟨rfl, hlead, hspans⟩ := h
  induction spans generalizing lead with
  | nil =>
    rw [List.flatMap_nil, List.append_nil]
    exact Text.pieces_of_forall_not (isAmpersand_eq_false hlead)
  | cons span spans ih =>
    obtain ⟨hinside, hafter⟩ := hspans span List.mem_cons_self
    rw [List.flatMap_cons, List.cons_append, List.append_assoc, List.cons_append,
      pieces_before hlead, pieces_before hinside,
      ih hafter fun span hspan => hspans span (List.mem_cons_of_mem _ hspan)]
    rfl

/-- Either all spans are triggers, or the first that is none is an error. -/
theorem ofPieces_spans (spans : List (Text × Text)) :
    (∃ ts : List Trigger, spans.map (fun span => Trigger.parse span.1) = ts.map .ok ∧
      ofPieces (spans.flatMap fun span => [span.1, span.2]) =
        .ok (ts.zip (spans.map Prod.snd))) ∨
    (∃ span ∈ spans, ∃ e, Trigger.parse span.1 = .error e) ∧
      ∃ e, ofPieces (spans.flatMap fun span => [span.1, span.2]) = .error e := by
  induction spans with
  | nil => exact Or.inl ⟨[], rfl, rfl⟩
  | cons span spans ih =>
    rw [List.flatMap_cons, List.cons_append, List.singleton_append, ofPieces]
    cases htrigger : Trigger.parse span.1 with
    | error e => exact Or.inr ⟨⟨span, List.mem_cons_self, e, htrigger⟩, e, rfl⟩
    | ok trigger =>
      rcases ih with ⟨ts, hts, hrest⟩ | ⟨⟨bad, hbad, e, he⟩, e', hrest⟩
      · refine Or.inl ⟨trigger :: ts, ?_, ?_⟩
        · rw [List.map_cons, List.map_cons, htrigger, hts]
        · rw [hrest]
          rfl
      · refine Or.inr ⟨⟨bad, List.mem_cons_of_mem _ hbad, e, he⟩, e', ?_⟩
        rw [hrest]
        rfl

/-- Scanning reads the spans of a text. -/
theorem Spanned.scan_eq (h : Spanned t lead spans) : scan t = (do
    let rest ← ofPieces (spans.flatMap fun span => [span.1, span.2])
    return ⟨lead, rest⟩) := by
  have heven : (spans.flatMap fun span => [span.1, span.2]).length % 2 = 0 := by
    rw [List.length_flatMap]
    simp
  rw [Script.scan, h.pieces]
  exact if_pos heven

/-- **Scanning reads all of the triggers or fails**. -/
theorem Spanned.scan (h : Spanned t lead spans) :
    (∃ ts : List Trigger, spans.map (fun span => Trigger.parse span.1) = ts.map .ok ∧
      scan t = .ok ⟨lead, ts.zip (spans.map Prod.snd)⟩) ∨
    (∃ span ∈ spans, ∃ e, Trigger.parse span.1 = .error e) ∧ ∃ e, scan t = .error e := by
  rw [h.scan_eq]
  rcases ofPieces_spans spans with ⟨ts, hts, hpieces⟩ | ⟨hbad, e, hpieces⟩
  · rw [hpieces]
    exact Or.inl ⟨ts, hts, rfl⟩
  · rw [hpieces]
    exact Or.inr ⟨hbad, e, rfl⟩

end Script

/-! ## Runs of triggers -/

namespace Trigger

variable {ρ : Type} (again : Reentry ρ)

/-- Triggers that have fired one after another, with their outputs.  Each finds the text that the
one before it has left. -/
inductive Fired : List Trigger → Surroundings → Session ρ → List Text → Surroundings → Session ρ →
    Prop
  | nil (around : Surroundings) (s : Session ρ) : Fired [] around s [] around s
  | cons {t : Trigger} {ts : List Trigger} {around left around' : Surroundings}
      {s u s' : Session ρ} {output : Text} {outs : List Text}
      (first : fire again t around s = .ok (output, left) u)
      (rest : Fired ts (left.advance output) u outs around' s') :
      Fired (t :: ts) around s (output :: outs) around' s'

variable {again} {ts : List Trigger} {around : Surroundings} {s s' : Session ρ}

theorem fireAll_eq_ok_iff {text : Text} :
    fireAll again ts around s = .ok text s' ↔
      ∃ outs around', Fired again ts around s outs around' s' ∧ text = around'.text := by
  induction ts generalizing around s with
  | nil =>
    constructor
    · intro h
      obtain ⟨rfl, rfl⟩ := EStateM.Result.ok.inj h
      exact ⟨[], around, .nil around s, rfl⟩
    · rintro ⟨outs, around', hfired, rfl⟩
      cases hfired
      rfl
  | cons t ts ih =>
    constructor
    · intro h
      obtain ⟨⟨output, left⟩, u, hfirst, h⟩ := Turn.exists_of_bind_eq_ok h
      obtain ⟨outs, around', hfired, rfl⟩ := ih.mp h
      exact ⟨output :: outs, around', .cons hfirst hfired, rfl⟩
    · rintro ⟨outs, around', hfired, rfl⟩
      cases hfired with
      | cons hfirst hrest =>
        rw [fireAll, Turn.bind_of_ok _ hfirst]
        exact ih.mpr ⟨_, _, hrest, rfl⟩

/-- **Firing stops at the first trigger that does not end well.** -/
theorem fireAll_eq_error_iff {e : Halt} :
    fireAll again ts around s = .error e s' ↔
      ∃ done t later outs around' u, ts = done ++ t :: later ∧
        Fired again done around s outs around' u ∧ fire again t around' u = .error e s' := by
  induction ts generalizing around s with
  | nil =>
    refine iff_of_false nofun ?_
    rintro ⟨done, t, later, _, _, _, hts, -⟩
    exact absurd hts (by simp)
  | cons t ts ih =>
    constructor
    · intro h
      rcases Turn.cases_of_bind_eq_error h with h | ⟨⟨output, left⟩, u, hfirst, h⟩
      · exact ⟨[], t, ts, [], around, s, rfl, .nil around s, h⟩
      · obtain ⟨done, bad, later, outs, around', v, rfl, hfired, hbad⟩ := ih.mp h
        exact ⟨t :: done, bad, later, output :: outs, around', v, rfl, .cons hfirst hfired, hbad⟩
    · rintro ⟨done, bad, later, outs, around', v, hts, hfired, hbad⟩
      cases hfired with
      | nil =>
        obtain ⟨rfl, rfl⟩ := List.cons.inj hts
        exact Turn.bind_of_error _ hbad
      | cons hfirst hrest =>
        obtain ⟨rfl, rfl⟩ := List.cons.inj hts
        rw [fireAll, Turn.bind_of_ok _ hfirst]
        exact ih.mpr ⟨_, bad, later, _, around', v, rfl, hrest, hbad⟩

/-! ## What a run leaves of the text -/

/-- The keys of a trigger that takes words. -/
def keys : Trigger → List Text
  | param keys => keys
  | _ => []

/-- Binding a word takes it, finds what it stands for, and sets the define. -/
theorem exists_of_bindWords_cons {key : Text} {keys : List Text} {left : Surroundings}
    (h : bindWords again around (key :: keys) s = .ok left s') :
    ∃ word rest value u, around.takeWord? = some (word, rest) ∧
      wordValue again word s = .ok value u ∧
      bindWords again rest keys { u with defines := u.defines.insert key value } = .ok left s' := by
  rw [bindWords] at h
  cases htaken : around.takeWord? with
  | none =>
    rw [htaken] at h
    cases h
  | some taken =>
    obtain ⟨word, rest⟩ := taken
    rw [htaken] at h
    obtain ⟨value, u, hvalue, h⟩ := Turn.exists_of_bind_eq_ok h
    obtain ⟨_, u', hset, h⟩ := Turn.exists_of_bind_eq_ok h
    obtain ⟨-, rfl⟩ := EStateM.Result.ok.inj hset
    exact ⟨word, rest, value, u, rfl, hvalue, h⟩

/-- Binding words takes one word for every key. -/
theorem exists_takeWords?_of_bindWords {keys : List Text} {left : Surroundings}
    (h : bindWords again around keys s = .ok left s') :
    ∃ ws, around.takeWords? keys.length = some (ws, left) := by
  induction keys generalizing around s with
  | nil =>
    obtain ⟨rfl, rfl⟩ := EStateM.Result.ok.inj h
    exact ⟨[], rfl⟩
  | cons key keys ih =>
    obtain ⟨word, rest, value, u, hword, -, h⟩ := exists_of_bindWords_cons h
    obtain ⟨ws, hws⟩ := ih h
    exact ⟨word :: ws,
      Surroundings.takeWords?_succ_eq_some_iff.mpr ⟨word, rest, ws, hword, hws, rfl⟩⟩

/-- A trigger binds words, or it leaves the text around it as it is. -/
theorem cases_of_fire_eq_ok {t : Trigger} {output : Text} {left : Surroundings}
    (h : fire again t around s = .ok (output, left) s') :
    (∃ keys, t = .param keys ∧ output = [] ∧
      bindWords again around keys.reverse s = .ok left s') ∨
    t.keys = [] ∧ left = around ∧ fireAlone again t s = .ok output s' := by
  cases t with
  | param keys =>
    obtain ⟨rest, u, hbind, h⟩ := Turn.exists_of_bind_eq_ok h
    obtain ⟨hanswer, rfl⟩ := EStateM.Result.ok.inj h
    obtain ⟨rfl, rfl⟩ := Prod.mk.inj hanswer
    exact Or.inl ⟨keys, rfl, rfl, hbind⟩
  | _ =>
    obtain ⟨out, u, halone, h⟩ := Turn.exists_of_bind_eq_ok h
    obtain ⟨hanswer, rfl⟩ := EStateM.Result.ok.inj h
    obtain ⟨rfl, rfl⟩ := Prod.mk.inj hanswer
    exact Or.inr ⟨rfl, rfl, halone⟩

/-- A trigger takes as many words as it has keys. -/
theorem exists_takeWords?_of_fire {t : Trigger} {output : Text} {left : Surroundings}
    (h : fire again t around s = .ok (output, left) s') :
    ∃ ws, around.takeWords? t.keys.length = some (ws, left) := by
  rcases cases_of_fire_eq_ok h with ⟨keys, rfl, -, hbind⟩ | ⟨hkeys, rfl, -⟩
  · have hws := exists_takeWords?_of_bindWords hbind
    rwa [List.length_reverse] at hws
  · rw [hkeys]
    exact ⟨[], rfl⟩

theorem Fired.length_outs {outs : List Text} {around' : Surroundings}
    (h : Fired again ts around s outs around' s') : outs.length = ts.length := by
  induction h with
  | nil => rfl
  | cons _ _ ih => rw [List.length_cons, List.length_cons, ih]

/-- **All that is lost of the text are words, as many as there are keys.** -/
theorem Fired.shortened {outs : List Text} {around' : Surroundings}
    (h : Fired again ts around s outs around' s') (hts : ts.length = around.after.length) :
    Shortened (ts.flatMap keys).length (around.woven outs) around'.stretches := by
  induction h with
  | nil around s =>
    have hnil : around.after = [] := List.eq_nil_of_length_eq_zero hts.symm
    unfold Surroundings.woven Surroundings.stretches
    rw [hnil]
    exact .refl _
  | @cons t ts around left around' s u s' output outs first rest ih =>
    have houts : (output :: outs).length = around.after.length := by
      rw [List.length_cons, rest.length_outs, ← hts, List.length_cons]
    obtain ⟨ws, hws⟩ := exists_takeWords?_of_fire first
    obtain ⟨hfirst, hlength⟩ := Surroundings.shortened_of_takeWords? hws houts
    obtain ⟨before, after⟩ := left
    cases after with
    | nil => exact absurd (hlength.trans hts.symm) (Nat.succ_ne_zero _).symm
    | cons text texts =>
      -- the first output and the text after it are before the next trigger
      have hadvance : (Surroundings.mk before (text :: texts)).woven (output :: outs) =
          ((Surroundings.mk before (text :: texts)).advance output).woven outs := by
        simp [Surroundings.woven, Surroundings.advance, weave_cons]
      rw [List.flatMap_cons, List.length_append]
      refine hfirst.trans ?_
      rw [hadvance]
      exact ih (Nat.succ.inj (hts.trans hlength.symm))

/-- The output of a plain trigger has no ampersand. -/
theorem no_ampersand_of_fireAlone {t : Trigger} (ht : t.Plain) {output : Text}
    (h : fireAlone again t s = .ok output s') : '&' ∉ output := by
  have hnothing : ∀ {α : Type} {x : Turn ρ α} {u : Session ρ},
      (x >>= fun _ => pure [] : Turn ρ Text) u = .ok output s' → '&' ∉ output := by
    intro α x u h
    obtain ⟨_, _, -, h⟩ := Turn.exists_of_bind_eq_ok h
    obtain ⟨rfl, -⟩ := EStateM.Result.ok.inj h
    exact List.not_mem_nil
  have hnumber : ∀ {α : Type} {x : Turn ρ α} {f : α → Int},
      (x >>= fun a => pure (Whole.render (f a)) : Turn ρ Text) s = .ok output s' →
        '&' ∉ output := by
    intro α x f h
    obtain ⟨a, _, -, h⟩ := Turn.exists_of_bind_eq_ok h
    obtain ⟨rfl, -⟩ := EStateM.Result.ok.inj h
    exact Whole.no_ampersand_render (f a)
  cases t with
  | limitBreak =>
    obtain ⟨u, _, -, h⟩ := Turn.exists_of_bind_eq_ok h
    exact hnothing h
  | shift n => exact hnothing h
  | max n => exact hnothing h
  | project roll goal => exact hnumber h
  | toggle which on => exact hnothing h
  | loop roll times => exact hnothing h
  | loopSum roll times => exact hnumber (f := id) h
  | values assignments =>
    obtain ⟨u, _, -, h⟩ := Turn.exists_of_bind_eq_ok h
    obtain ⟨d, _, -, h⟩ := Turn.exists_of_bind_eq_ok h
    exact hnothing h
  | resonances => exact nomatch h
  | param keys =>
    obtain ⟨rfl, -⟩ := EStateM.Result.ok.inj h
    exact List.not_mem_nil
  | conditional condition yes no =>
    obtain ⟨r, _, -, h⟩ := Turn.exists_of_bind_eq_ok h
    obtain ⟨rfl, -⟩ := EStateM.Result.ok.inj h
    exact no_ampersand_branch (ht yes (by simp [texts])) (ht no (by simp [texts])) r.value

/-- Words that are taken were there, and so was what stays. -/
theorem no_ampersand_of_takeWords? {n : Nat} {left : Surroundings} {ws : List Text}
    (h : around.takeWords? n = some (ws, left)) (haround : '&' ∉ around.text) :
    '&' ∉ left.text := by
  induction n generalizing around ws with
  | zero =>
    obtain ⟨-, rfl⟩ := Prod.mk.inj (Option.some.inj h)
    exact haround
  | succ n ih =>
    obtain ⟨word, rest, words, hword, hwords, -⟩ := Surroundings.takeWords?_succ_eq_some_iff.mp h
    exact ih hwords fun hmem => haround ((Surroundings.takeWord?_subset hword).2 hmem)

theorem no_ampersand_of_fire {t : Trigger} (ht : t.Plain) (haround : '&' ∉ around.text)
    {output : Text} {left : Surroundings} (h : fire again t around s = .ok (output, left) s') :
    '&' ∉ output ∧ '&' ∉ left.text := by
  obtain ⟨ws, hws⟩ := exists_takeWords?_of_fire h
  refine ⟨?_, no_ampersand_of_takeWords? hws haround⟩
  rcases cases_of_fire_eq_ok h with ⟨keys, -, rfl, -⟩ | ⟨-, -, halone⟩
  · exact List.not_mem_nil
  · exact no_ampersand_of_fireAlone ht halone

/-- The next trigger finds the output of this one before it. -/
theorem no_ampersand_advance {output : Text} {left : Surroundings} (houtput : '&' ∉ output)
    (hleft : '&' ∉ left.text) : '&' ∉ (left.advance output).text := by
  rw [Surroundings.text_advance]
  rw [Surroundings.text] at hleft
  simp only [List.mem_append, not_or] at hleft ⊢
  exact ⟨⟨hleft.1, houtput⟩, hleft.2⟩

/-- **No ampersand comes up in a run of triggers.** -/
theorem Fired.no_ampersand {outs : List Text} {around' : Surroundings}
    (h : Fired again ts around s outs around' s') (hts : ∀ t ∈ ts, t.Plain)
    (haround : '&' ∉ around.text) : '&' ∉ around'.text := by
  induction h with
  | nil => exact haround
  | cons first _ ih =>
    obtain ⟨houtput, hleft⟩ := no_ampersand_of_fire (hts _ List.mem_cons_self) haround first
    exact ih (fun t ht => hts t (List.mem_cons_of_mem _ ht)) (no_ampersand_advance houtput hleft)

/-- What is scanned from a text has no ampersand. -/
theorem no_ampersand_of_scan {t : Text} {script : Script} (hscan : Script.scan t = .ok script) :
    (∀ τ ∈ script.rest.map Prod.fst, τ.Plain) ∧
      '&' ∉ (⟨[script.lead], script.rest.map Prod.snd⟩ : Surroundings).text := by
  have hplain := Script.plain_of_scan hscan
  refine ⟨fun τ hτ => ?_, fun hmem => ?_⟩
  · obtain ⟨step, hstep, rfl⟩ := List.mem_map.mp hτ
    exact hplain.triggers step hstep
  · rcases Surroundings.mem_text.mp hmem with hmem | hmem
    · rw [List.flatten_singleton] at hmem
      exact hplain.lead hmem
    · obtain ⟨text, htext, hmem⟩ := List.mem_flatten.mp hmem
      obtain ⟨step, hstep, rfl⟩ := List.mem_map.mp htext
      exact hplain.stretches step hstep hmem

/-- **The text around a trigger has no ampersand**, whichever triggers of its script have fired. -/
theorem Fired.no_ampersand_of_scan {t : Text} {script : Script}
    (hscan : Script.scan t = .ok script) (hts : ts ⊆ script.rest.map Prod.fst) {outs : List Text}
    {around' : Surroundings}
    (h : Fired again ts ⟨[script.lead], script.rest.map Prod.snd⟩ s outs around' s') :
    '&' ∉ around'.text := by
  obtain ⟨hplain, htext⟩ := Trigger.no_ampersand_of_scan hscan
  exact h.no_ampersand (fun τ hτ => hplain τ (hts hτ)) htext

/-- The trigger at an index of a text fires in a session, with what is left of the text around it,
after the triggers before it have fired. -/
def FiresIn (again : Reentry ρ) (t : Text) (n : Nat) (trigger : Trigger) (around : Surroundings)
    (s u : Session ρ) : Prop :=
  ∃ script outs, Script.scan t = .ok script ∧
    (script.rest.map Prod.fst)[n]? = some trigger ∧
    Fired again ((script.rest.map Prod.fst).take n)
      ⟨[script.lead], script.rest.map Prod.snd⟩ s outs around u

end Trigger

/-! ## Texts -/

section Expanding

variable {ρ : Type} (again : Reentry ρ) {t lead : Text} {s : Session ρ}

/-- A text that cannot be scanned leaves the session as it is. -/
theorem expand_of_scan_error {e : RollError} (h : Script.scan t = .error e) :
    Trigger.expand again t s = .error (.failed e) s := by
  unfold Trigger.expand
  rw [h]
  rfl

/-- A text that is scanned goes on to fire its triggers. -/
theorem expand_of_scan_ok {script : Script} (h : Script.scan t = .ok script) :
    Trigger.expand again t s =
      Trigger.fireAll again (script.rest.map Prod.fst)
        ⟨[script.lead], script.rest.map Prod.snd⟩ s := by
  have hscan : (Turn.ofExcept (Script.scan t) : Turn ρ Script) s = .ok script s := by
    rw [h]
    rfl
  unfold Trigger.expand
  rw [Turn.bind_of_ok _ hscan]

/-- The triggers of a text that is scanned fire in their order. -/
theorem expand_of_scan {ts : List Trigger} {texts : List Text} (hlength : ts.length = texts.length)
    (h : Script.scan t = .ok ⟨lead, ts.zip texts⟩) :
    Trigger.expand again t s = Trigger.fireAll again ts ⟨[lead], texts⟩ s := by
  rw [expand_of_scan_ok again h, List.map_fst_zip hlength.le, List.map_snd_zip hlength.ge]

open Trigger (Fired expand fire)

/-- **Triggers are read all or none, and fire in their order.**  A text in which an ampersand has no
partner, or a span that is no trigger, fails and leaves the session as it was.  In any other text
the triggers fire from left to right, each once.  Either one of them ends early; then those before
it have fired, the text ends as this one does, and those after it do not fire.  Or all of them have
fired; then the text that is left has no ampersand, and is made of the text before the first span
and, for each span, the output of its trigger and the text after it, but for words that some of
these stretches have lost at their ends, as many as all parameters have keys. -/
theorem triggers_fire_in_order (t : Text) (s : Session ρ) :
    (¬Even (t.count '&') → ∃ e, expand again t s = .error (.failed e) s) ∧
    (Even (t.count '&') → ∃ lead spans, Script.Spanned t lead spans ∧
      ((∃ span ∈ spans, ∃ e, Trigger.parse span.1 = .error e) ∧
          (∃ e, expand again t s = .error (.failed e) s) ∨
        ∃ ts : List Trigger, spans.map (fun span => Trigger.parse span.1) = ts.map .ok ∧
          ((∃ done bad later outs around u e s', ts = done ++ bad :: later ∧
              Fired again done ⟨[lead], spans.map Prod.snd⟩ s outs around u ∧
              fire again bad around u = .error e s' ∧ expand again t s = .error e s') ∨
            ∃ outs around s', Fired again ts ⟨[lead], spans.map Prod.snd⟩ s outs around s' ∧
              expand again t s = .ok around.stretches.flatten s' ∧
              '&' ∉ around.stretches.flatten ∧ outs.length = ts.length ∧
              Shortened (ts.flatMap Trigger.keys).length
                (lead :: weave outs (spans.map Prod.snd)) around.stretches))) := by
  refine ⟨fun hodd => ?_, fun heven => ?_⟩
  · rcases Script.exists_pairs_or t with ⟨insides, hpairs⟩ | ⟨a, b, insides, rfl, ha, hb⟩
    · exact absurd hpairs.even_count hodd
    · exact ⟨_, expand_of_scan_error again (Script.scan_leftOver ha hb)⟩
  · obtain ⟨lead, spans, hspanned⟩ := Script.exists_spanned heven
    refine ⟨lead, spans, hspanned, ?_⟩
    rcases hspanned.scan with ⟨ts, hts, hscan⟩ | ⟨hbad, e, hscan⟩
    · have hlength : ts.length = (spans.map Prod.snd).length := by
        have h := congrArg List.length hts
        rw [List.length_map, List.length_map] at h
        rw [List.length_map, h]
      refine Or.inr ⟨ts, hts, ?_⟩
      rw [expand_of_scan again hlength hscan]
      cases hfire : Trigger.fireAll again ts ⟨[lead], spans.map Prod.snd⟩ s with
      | error e s' =>
        obtain ⟨done, bad, later, outs, around, u, hsplit, hfired, hbad⟩ :=
          Trigger.fireAll_eq_error_iff.mp hfire
        exact Or.inl ⟨done, bad, later, outs, around, u, e, s', hsplit, hfired, hbad, rfl⟩
      | ok text s' =>
        obtain ⟨outs, around, hfired, rfl⟩ := Trigger.fireAll_eq_ok_iff.mp hfire
        have hnone : '&' ∉ around.text := by
          refine Fired.no_ampersand_of_scan hscan ?_ (?_ : Fired again ts _ s outs around s')
          · rw [List.map_fst_zip hlength.le]
            exact List.Subset.refl ts
          · rwa [List.map_snd_zip hlength.ge]
        have htext := around.text_eq_flatten
        exact Or.inr ⟨outs, around, s', hfired, by rw [htext], htext ▸ hnone, hfired.length_outs,
          hfired.shortened hlength⟩
    · exact Or.inl ⟨hbad, e, expand_of_scan_error again hscan⟩

end Expanding

open Trigger (Fired expand)

/-- A last ampersand spoils the triggers before it, and a parameter takes the only word after it. -/
theorem triggers_fire_in_order_with_parameter :
    let s := Session.start {} (Stepping.mk 1 1)
    let faulty := "&shift 2& 1d6 &max 3& &".toList
    let t := "5 &shift 2&&param x& d6".toList
    (¬Even (faulty.count '&') ∧ ∃ e, expand (reentry 1) faulty s = .error (.failed e) s) ∧
    Even (t.count '&') ∧ ∃ lead spans, Script.Spanned t lead spans ∧
      ∃ ts outs around s', Fired (reentry 1) ts ⟨[lead], spans.map Prod.snd⟩ s outs around s' ∧
        expand (reentry 1) t s = .ok "5  ".toList s' ∧
        Shortened (ts.flatMap Trigger.keys).length
          (lead :: weave outs (spans.map Prod.snd)) around.stretches := by
  intro s faulty t
  have hodd : ¬Even (faulty.count '&') := by decide
  have heven : Even (t.count '&') := by decide
  have houtcome : (expand (reentry 1) t).outcome s = .ok "5  ".toList := by decide +kernel
  obtain ⟨text, s', hexpand, htext⟩ :=
    Turn.exists_of_map_outcome_eq_ok (f := id) (by rw [houtcome]; rfl)
  refine ⟨⟨hodd, (triggers_fire_in_order (reentry 1) faulty s).1 hodd⟩, heven, ?_⟩
  obtain ⟨lead, spans, hspanned, hends⟩ := (triggers_fire_in_order (reentry 1) t s).2 heven
  refine ⟨lead, spans, hspanned, ?_⟩
  rcases hends with ⟨-, e, he⟩ | ⟨ts, -, ⟨_, _, _, _, _, _, e, _, -, -, -, he⟩ |
    ⟨outs, around, u, hfired, hok, -, -, hshortened⟩⟩
  · rw [he] at hexpand
    exact nomatch hexpand
  · rw [he] at hexpand
    exact nomatch hexpand
  · obtain ⟨hflatten, rfl⟩ := EStateM.Result.ok.inj (hok.symm.trans hexpand)
    exact ⟨ts, outs, around, u, hfired,
      hexpand.trans (congrArg (fun text => EStateM.Result.ok text u) htext), hshortened⟩

end DiceNotation
