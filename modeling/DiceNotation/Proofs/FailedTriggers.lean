import DiceNotation.Proofs.Assignments
import DiceNotation.Proofs.Binding
import DiceNotation.Proofs.UserText
import DiceNotation.Roller.Scripted

/-!
# What a failed trigger has set

Two triggers set defines.  One reads a text of assignments, all of it before it sets anything, so
that it leaves everything as it was when it fails.  The other binds its keys to words, one by one
and the last key first.  It stops at a key if no word is left, or if the word is a group that cannot
be rolled; and then the keys that it has bound by then stay bound.

Where no define stands for text with triggers, nothing else sets defines in the meantime: rolling a
word does not, however it ends.  So the table after a parameter that has failed is the table before
with the bound keys inserted, and it is the same table exactly if each of these keys stood already
for what it stands for now.

* `Defines.ext_of_get?`, `Defines.insertAll_eq_self_iff`: tables with the same values of names.
* `defines_of_evaluate_eq_error`: an evaluation that fails.
* `Trigger.StopsAt`, `Trigger.exists_of_bindWords_eq_error`: where binding stops.
* `Trigger.Bound.exists_insertAll`: the table after some keys are bound.
* `failed_triggers_keep_what_they_bound`.
-/

namespace DiceNotation

open Text (balancedFrom)

/-! ## Tables with the same values of names -/

namespace Defines

variable {d d' : Defines}

/-- A name stands for the value of its entry. -/
theorem get?_eq_some_iff {name value : Text} :
    d.get? name = some value ↔ (name, value) ∈ d.entries := by
  refine ⟨mem_entries_of_get?, fun h => ?_⟩
  obtain ⟨es, hes⟩ := d
  show (es.find? fun e => e.1 = name).map Prod.snd = some value
  induction es with
  | nil => exact nomatch h
  | cons e es ih =>
    obtain ⟨hfirst, hrest⟩ := List.pairwise_cons.mp hes
    rcases List.mem_cons.mp h with rfl | h
    · rw [List.find?_cons_of_pos (by simp)]
      rfl
    · have hne : e.1 ≠ name := by
        rintro rfl
        exact absurd (hfirst _ h) (List.lt_irrefl _)
      rw [List.find?_cons_of_neg (by simpa using hne)]
      exact ih hrest h

/-- **A table is what its names stand for.** -/
theorem ext_of_get? (h : ∀ name, d.get? name = d'.get? name) : d = d' := by
  have hnodup : ∀ {d : Defines}, d.entries.Nodup := fun {d} =>
    d.ascending.imp fun hlt heq => absurd (heq ▸ hlt) (List.lt_irrefl _)
  have hperm : d.entries.Perm d'.entries := by
    refine (List.perm_ext_iff_of_nodup hnodup hnodup).mpr fun e => ?_
    rw [← get?_eq_some_iff, ← get?_eq_some_iff, h]
  have hentries : d.entries = d'.entries :=
    hperm.eq_of_pairwise (fun a b _ _ hab hba => absurd (List.lt_trans hab hba) (List.lt_irrefl _))
      d.ascending d'.ascending
  obtain ⟨es, hes⟩ := d
  obtain ⟨es', hes'⟩ := d'
  obtain rfl : es = es' := hentries
  rfl

theorem insertAll_eq_self_iff {pairs : List (Text × Text)} :
    d.insertAll pairs = d ↔
      ∀ name ∈ pairs.map Prod.fst, (d.insertAll pairs).get? name = d.get? name := by
  refine ⟨fun h name _ => by rw [h], fun h => ext_of_get? fun name => ?_⟩
  by_cases hname : name ∈ pairs.map Prod.fst
  · exact h name hname
  · exact get?_insertAll_of_not_mem hname d

end Defines

variable {ρ : Type} [Roller ρ] {s s' u : Session ρ} {t : Text} {e : Halt}

/-! ## Evaluations that fail -/

/-- With this configuration and these defines. -/
structure Session.Holds (c : Config) (d : Defines) (s : Session ρ) : Prop where
  config_eq : s.config = c
  defines_eq : s.defines = d

/-- Rolling sets no defines. -/
theorem Coupling.rolls_holds (c : Config) (d : Defines) :
    (single (Session.Holds (ρ := ρ) c d) fun _ => Session.Holds c d).Rolls c where
  config := by
    rintro s _ ⟨rfl, hs⟩
    exact ⟨hs.config_eq, hs.config_eq⟩
  back := by
    rintro s _ ⟨rfl, -⟩ n
    rfl
  failed := by
    rintro e s _ - ⟨rfl, hs⟩
    exact ⟨⟨rfl, rfl⟩, hs⟩
  dice code spec := by
    rintro s _ ⟨rfl, hs⟩
    rw [Turn.run_withCup]
    cases (Dice.roll code spec s.cup).1 with
    | ok dice => exact ⟨rfl, rfl, { hs with }⟩
    | error e => exact Or.inr ⟨⟨rfl, rfl⟩, { hs with }⟩
  record := by
    rintro r v s _ - ⟨rfl, hs⟩
    exact ⟨rfl, { hs with }⟩

theorem defines_of_flatten_eq_error {p : Pieces}
    (h : (Resolution.flatten p >>= Resolution.fold) s = .error e s') :
    s'.defines = s.defines := by
  have hC := Coupling.rolls_holds (ρ := ρ) s.config s.defines
  have hties := Coupling.ties_bind (hC.flatten p) fun code code' hcode => by
    obtain rfl : code = code' := hcode
    exact hC.fold code
  have hends := Turn.Invariant.keeps_of_ties hties (Session.Holds.mk rfl rfl : s.Holds _ _)
  rw [h] at hends
  exact hends.defines_eq

/-- **An evaluation without triggers sets no defines when it fails.** -/
theorem defines_of_evaluate_eq_error (hmacros : s.defines.macros = []) (ht : '&' ∉ t)
    (h : Turn.evaluate t s = .error e s') : s'.defines = s.defines := by
  have hmacros' : (Turn.enter s).defines.macros = [] := hmacros
  rw [Turn.evaluate_eq] at h
  unfold Turn.evaluateWith at h
  rw [Turn.get_bind] at h
  split at h
  · rw [← (EStateM.Result.error.inj h).2]
  obtain ⟨u, hinner, rfl⟩ := Turn.exists_of_deeper_eq_error h
  show u.defines = (Turn.enter s).defines
  rcases Turn.cases_of_bind_eq_error hinner with hresolve | ⟨code, v, hresolve, hroll⟩
  · unfold Resolution.resolve at hresolve
    rcases Turn.cases_of_bind_eq_error hresolve with htree | ⟨p, v, htree, hrest⟩
    · rw [Resolution.run_tree_of_plain _ hmacros' ht] at htree
      split at htree
      · exact nomatch htree
      · rw [← (EStateM.Result.error.inj htree).2]
    · obtain ⟨-, rfl⟩ := Resolution.exists_of_tree_eq_ok hmacros' ht htree
      exact defines_of_flatten_eq_error hrest
  · obtain ⟨rs, hrs⟩ := recorded_of_resolve hmacros' ht hresolve
    rw [eq_of_rollCode_eq_error hroll]
    exact hrs.frame.2.1

/-! ## Where binding stops -/

namespace Trigger

/-- A key for which there is no value: no word is left, or the last word is a group and rolling it
fails. -/
inductive StopsAt (around : Surroundings) (key : Text) (s : Session ρ) : Halt → Session ρ → Prop
  | noWord (taken : around.takeWord? = none) : StopsAt around key s (.failed (.noWordLeft key)) s
  | group {inner : Text} {rest : Surroundings} {e : Halt} {s' : Session ρ}
      (taken : around.takeWord? = some ('(' :: (inner ++ [')']), rest))
      (balanced : balancedFrom 0 inner = true) (roll : Turn.evaluate inner s = .error e s') :
      StopsAt around key s e s'

variable {around : Surroundings}

theorem exists_of_wordValue_eq_error {m : Nat} {word : Text} (hmacros : s.defines.macros = [])
    (hword : '&' ∉ word) (h : wordValue (reentry (m + 1)) word s = .error e s') :
    ∃ inner, word = '(' :: (inner ++ [')']) ∧ balancedFrom 0 inner = true ∧
      Turn.evaluate inner s = .error e s' := by
  cases hwrapped : Group.wrapped? word with
  | some inner =>
    rw [wordValue, hwrapped] at h
    obtain ⟨rfl, hbalanced⟩ := Group.wrapped?_eq_some_iff.mp hwrapped
    rcases Turn.cases_of_bind_eq_error h with h | ⟨_, _, -, h⟩
    · rw [evaluate_reentry m hmacros fun hmem => hword (by simp [hmem])] at h
      exact ⟨inner, rfl, hbalanced, h⟩
    · cases h
  | none =>
    rw [wordValue, hwrapped] at h
    cases h

theorem StopsAt.defines_eq {key : Text} (h : StopsAt around key s e s')
    (hmacros : s.defines.macros = []) (haround : '&' ∉ around.text) : s'.defines = s.defines := by
  cases h with
  | noWord => rfl
  | @group inner rest _ _ taken balanced roll =>
    have hword := (Surroundings.takeWord?_subset taken).1
    refine defines_of_evaluate_eq_error hmacros (fun hmem => haround (hword ?_)) roll
    exact List.mem_cons_of_mem _ (List.mem_append_left _ hmem)

/-- **Binding stops at the first key for which there is no value**, and the keys before it are
bound. -/
theorem exists_of_bindWords_eq_error {m : Nat} {keys : List Text} (hmacros : s.defines.macros = [])
    (haround : '&' ∉ around.text) (h : bindWords (reentry (m + 1)) around keys s = .error e s') :
    ∃ bound key later words left u, keys = bound ++ key :: later ∧
      around.takeWords? bound.length = some (words, left) ∧ (∀ word ∈ words, '&' ∉ word) ∧
      Bound (bound.zip words) s u ∧ StopsAt left key u e s' ∧ s'.defines = u.defines := by
  induction keys generalizing around s with
  | nil => cases h
  | cons key keys ih =>
    have hstops : StopsAt around key s e s' → ∃ bound key' later words left u,
        key :: keys = bound ++ key' :: later ∧
        around.takeWords? bound.length = some (words, left) ∧ (∀ word ∈ words, '&' ∉ word) ∧
        Bound (bound.zip words) s u ∧ StopsAt left key' u e s' ∧ s'.defines = u.defines :=
      fun hstops => ⟨[], key, keys, [], around, s, rfl, rfl, List.forall_mem_nil _, .nil s, hstops,
        hstops.defines_eq hmacros haround⟩
    rw [bindWords] at h
    cases htaken : around.takeWord? with
    | none =>
      rw [htaken] at h
      obtain ⟨rfl, rfl⟩ := EStateM.Result.error.inj h
      exact hstops (.noWord htaken)
    | some taken =>
      obtain ⟨word, rest⟩ := taken
      rw [htaken] at h
      have hsubset := Surroundings.takeWord?_subset htaken
      have hword : '&' ∉ word := fun hmem => haround (hsubset.1 hmem)
      have hrest : '&' ∉ rest.text := fun hmem => haround (hsubset.2 hmem)
      rcases Turn.cases_of_bind_eq_error h with h | ⟨value, v, hvalue, h⟩
      · obtain ⟨inner, rfl, hbalanced, hroll⟩ := exists_of_wordValue_eq_error hmacros hword h
        exact hstops (.group htaken hbalanced hroll)
      · have hfirst := standsFor_of_wordValue hmacros hword hvalue
        rcases Turn.cases_of_bind_eq_error h with h | ⟨_, v', hset, h⟩
        · cases h
        obtain ⟨-, rfl⟩ := EStateM.Result.ok.inj hset
        obtain ⟨bound, key', later, words, left, u, rfl, hwords, hplain, hbound, hstop, hdefines⟩ :=
          ih (hfirst.macros_insert hmacros hword key).2 hrest h
        exact ⟨key :: bound, key', later, word :: words, left, u, rfl,
          Surroundings.takeWords?_succ_eq_some_iff.mpr ⟨word, rest, words, htaken, hwords, rfl⟩,
          List.forall_mem_cons.mpr ⟨hword, hplain⟩, .cons hfirst hbound, hstop, hdefines⟩

/-- The table after some keys are bound is the table before with a value inserted for each. -/
theorem Bound.exists_insertAll {pairs : List (Text × Text)} (h : Bound pairs s s')
    (hmacros : s.defines.macros = []) (hpairs : ∀ pair ∈ pairs, '&' ∉ pair.2) :
    ∃ values : List Text, values.length = pairs.length ∧
      s'.defines = s.defines.insertAll ((pairs.map Prod.fst).zip values) := by
  induction h with
  | nil => exact ⟨[], rfl, rfl⟩
  | @cons key word value pairs s u s' first rest ih =>
    obtain ⟨hword, hpairs⟩ := List.forall_mem_cons.mp hpairs
    obtain ⟨hdefines, hnext⟩ := first.macros_insert hmacros hword key
    obtain ⟨values, hlength, hvalues⟩ := ih hnext hpairs
    refine ⟨value :: values, congrArg (· + 1) hlength, ?_⟩
    rw [hvalues, ← hdefines]
    rfl

/-! ## Triggers of a text -/

/-- Triggers that fire add no macro. -/
theorem Fired.macrosWithin {n depth : Nat} {c : Config} {macros : List (Text × Text)}
    {ts : List Trigger} {outs : List Text} {around' : Surroundings}
    (h : Fired (reentry n) ts around s outs around' s') (hs : MacrosWithin c macros depth s)
    (hts : ∀ t ∈ ts, t.Plain) (haround : '&' ∉ around.text) : MacrosWithin c macros depth s' := by
  induction h with
  | nil => exact hs
  | cons first _ ih =>
    have ht := hts _ List.mem_cons_self
    obtain ⟨houtput, hleft⟩ := no_ampersand_of_fire ht haround first
    have hties := (Coupling.fair_macrosWithin (ρ := ρ)).fire
      (Coupling.tiesAgain_macrosWithin c macros n depth) ht haround
    have hends := Turn.Invariant.keeps_of_ties (Coupling.ties_mono hties fun _ _ h => h.1) hs
    rw [first] at hends
    exact ih hends (fun t ht => hts t (List.mem_cons_of_mem _ ht))
      (no_ampersand_advance houtput hleft)

/-- When a trigger of a text fires, there is no ampersand around it, and there are no macros if
there were none before. -/
theorem FiresIn.plain {m n : Nat} {trigger : Trigger}
    (h : FiresIn (reentry m) t n trigger around s u) (hmacros : s.defines.macros = []) :
    '&' ∉ around.text ∧ u.defines.macros = [] := by
  obtain ⟨script, outs, hscan, -, hfired⟩ := h
  obtain ⟨hplain, htext⟩ := no_ampersand_of_scan hscan
  have hts := List.take_subset n (script.rest.map Prod.fst)
  have hwithin : MacrosWithin s.config [] s.depth s := ⟨rfl, rfl, List.subset_nil.mpr hmacros⟩
  exact ⟨hfired.no_ampersand_of_scan hscan hts, List.eq_nil_of_subset_nil
    (hfired.macrosWithin hwithin (fun τ hτ => hplain τ (hts hτ)) htext).macros_subset⟩

end Trigger

open Trigger (FiresIn StopsAt fire)

/-- **What a trigger has set when it fails.**  Where no define stands for text with triggers, a
trigger of a text that sets assignments leaves the session as it was when it fails.  A parameter
that fails stops at one of its keys, and the keys behind this one are bound to the last words of the
text by then; they stay bound.  So the table is the one before exactly if each of them stands for
what it stood for before; and so it is if the parameter stops at the last of its keys, with which it
begins. -/
theorem failed_triggers_keep_what_they_bound {m n : Nat} {trigger : Trigger}
    {around : Surroundings} (hmacros : s.defines.macros = [])
    (hfires : FiresIn (reentry (m + 1)) t n trigger around s u)
    (h : fire (reentry (m + 1)) trigger around u = .error e s') :
    (∀ body, trigger = .values body → s' = u) ∧
    ∀ keys, trigger = .param keys → ∃ unbound key bound words left v values,
      keys = unbound ++ key :: bound ∧ around.takeWords? bound.length = some (words, left) ∧
      Trigger.Bound (bound.reverse.zip words) u v ∧ StopsAt left key v e s' ∧
      values.length = bound.length ∧
      s'.defines = u.defines.insertAll (bound.reverse.zip values) ∧
      (s'.defines = u.defines ↔ ∀ name ∈ bound, s'.defines.get? name = u.defines.get? name) ∧
      (bound = [] → s'.defines = u.defines) := by
  obtain ⟨haround, hmacros'⟩ := hfires.plain hmacros
  refine ⟨?_, ?_⟩
  · rintro body rfl
    cases hassign : u.defines.assign body with
    | ok assigned =>
      rw [fire_values_of_ok hassign] at h
      exact nomatch h
    | error e' =>
      rw [fire_values_of_error hassign] at h
      exact (EStateM.Result.error.inj h).2.symm
  · rintro keys rfl
    have hbind : Trigger.bindWords (reentry (m + 1)) around keys.reverse u = .error e s' := by
      rcases Turn.cases_of_bind_eq_error h with h | ⟨_, _, -, h⟩
      · exact h
      · exact nomatch h
    obtain ⟨bound, key, later, words, left, v, hkeys, hwords, hplain, hbound, hstops, hdefines⟩ :=
      Trigger.exists_of_bindWords_eq_error hmacros' haround hbind
    obtain ⟨values, hvalues, hinsert⟩ := hbound.exists_insertAll hmacros' fun pair hpair =>
      hplain _ (List.of_mem_zip hpair).2
    have hwordsLength : bound.length = words.length :=
      (Surroundings.length_of_takeWords? hwords).symm
    rw [List.map_fst_zip hwordsLength.le] at hinsert
    have hlength : values.length = bound.length := by
      rw [hvalues, List.length_zip, ← hwordsLength, Nat.min_self]
    have htable : s'.defines = u.defines.insertAll (bound.zip values) := hdefines.trans hinsert
    have hsplit : keys = later.reverse ++ key :: bound.reverse := by
      rw [← List.reverse_reverse keys, hkeys, List.reverse_append, List.reverse_cons,
        List.append_assoc, List.singleton_append]
    refine ⟨later.reverse, key, bound.reverse, words, left, v, values, hsplit, ?_, ?_, hstops, ?_,
      ?_, ?_, fun hnone => ?_⟩
    · rw [List.length_reverse, hwords]
    · rw [List.reverse_reverse]
      exact hbound
    · rw [List.length_reverse, hlength]
    · rw [List.reverse_reverse, htable]
    · rw [htable, Defines.insertAll_eq_self_iff, List.map_fst_zip hlength.ge]
      simp only [List.mem_reverse]
    · rw [htable, List.reverse_eq_nil_iff.mp hnone]
      rfl

/-! ## A key that stays bound -/

section TwoKeys

variable (again : Reentry ρ) (s : Session ρ)

omit [Roller ρ] in
/-- There is one word for two keys: the last key takes it, and none is left for the first. -/
theorem fire_param_of_two_keys :
    fire again (.param [['a'], ['b']]) ⟨[[]], [" 3".toList]⟩ s =
      .error (.failed (.noWordLeft ['a'])) { s with defines := s.defines.insert ['b'] ['3'] } := rfl

theorem scan_two_keys :
    Script.scan "&param a b& 3".toList = .ok ⟨[], [(.param [['a'], ['b']], " 3".toList)]⟩ := by
  decide +kernel

omit [Roller ρ] in
theorem firesIn_two_keys :
    FiresIn again "&param a b& 3".toList 0 (.param [['a'], ['b']]) ⟨[[]], [" 3".toList]⟩ s s :=
  ⟨_, [], scan_two_keys, rfl, .nil _ _⟩

theorem evaluate_two_keys (hdepth : s.depth < s.config.maxDepth) :
    Turn.evaluate "&param a b& 3".toList s =
      .error (.failed (.noWordLeft ['a'])) { s with defines := s.defines.insert ['b'] ['3'] } := by
  have hfire : Trigger.fireAll (reentry (reach s.config)) [.param [['a'], ['b']]]
      ⟨[[]], [" 3".toList]⟩ (Turn.enter s) = .error (.failed (.noWordLeft ['a']))
        { Turn.enter s with defines := s.defines.insert ['b'] ['3'] } :=
    Turn.bind_of_error _ (fire_param_of_two_keys _ _)
  have hexpand := (expand_of_scan_ok (reentry (reach s.config)) scan_two_keys).trans hfire
  rw [Turn.evaluate_of_expand_error hdepth hexpand]
  rfl

end TwoKeys

/-- The key that is bound is the one behind the key that has no word. -/
theorem failed_triggers_keep_what_they_bound_of_two :
    let s := Session.start {} (Scripted.mk [])
    let s' := { s with defines := s.defines.insert ['b'] ['3'] }
    s.defines.macros = [] ∧ ∃ unbound key bound words left v values,
      [['a'], ['b']] = unbound ++ key :: bound ∧
      (⟨[[]], [" 3".toList]⟩ : Surroundings).takeWords? bound.length = some (words, left) ∧
      Trigger.Bound (bound.reverse.zip words) s v ∧
      StopsAt left key v (.failed (.noWordLeft ['a'])) s' ∧ values.length = bound.length ∧
      s'.defines = s.defines.insertAll (bound.reverse.zip values) := by
  intro s s'
  have hmacros : s.defines.macros = [] := by decide
  obtain ⟨-, hparam⟩ := failed_triggers_keep_what_they_bound (m := 0) hmacros
    (firesIn_two_keys _ s) (fire_param_of_two_keys _ s)
  obtain ⟨unbound, key, bound, words, left, v, values, hkeys, hwords, hbound, hstops, hlength,
    htable, -⟩ := hparam _ rfl
  exact ⟨hmacros, unbound, key, bound, words, left, v, values, hkeys, hwords, hbound, hstops,
    hlength, htable⟩

/-- **A parameter that fails does not leave the table as it was.**  With one word for two keys the
evaluation fails for want of a word, and the last key stays bound to the word. -/
theorem not_forall_failed_keeps_table :
    (∃ s', Turn.evaluate "&param a b& 3".toList (Session.start {} (Scripted.mk [])) =
        .error (.failed (.noWordLeft ['a'])) s' ∧ s'.defines.entries = [(['b'], ['3'])]) ∧
    ¬ ∀ (t : Text) (n : Nat) (trigger : Trigger) (around : Surroundings)
        (s u s' : Session Scripted) (e : Halt), s.defines.macros = [] →
      FiresIn (reentry (reach s.config)) t n trigger around s u →
      ((∃ body, trigger = .values body) ∨ ∃ keys, trigger = .param keys) →
      fire (reentry (reach s.config)) trigger around u = .error e s' → s'.defines = u.defines := by
  refine ⟨⟨_, evaluate_two_keys _ (by decide), rfl⟩, fun hall => ?_⟩
  have htable := hall _ 0 _ _ (Session.start {} (Scripted.mk [])) _ _ _ (by decide)
    (firesIn_two_keys _ _) (Or.inr ⟨_, rfl⟩) (fire_param_of_two_keys _ _)
  exact absurd htable (by decide)

end DiceNotation
