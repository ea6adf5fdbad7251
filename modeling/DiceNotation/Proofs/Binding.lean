import DiceNotation.Proofs.FiringOrder
import DiceNotation.Proofs.PlainRolls
import DiceNotation.Proofs.TrailingWords
import DiceNotation.Roller.Stepping

/-!
# What parameters are bound to

A parameter takes as many words from the end of the text as it has keys, and binds them from the
last key to the first.  A word that is one group is rolled.  Where no define stands for text with
triggers, this roll only records rolls; so it sees the keys that are bound already, and it takes
back none of them.  With different keys, then, each key is in the end bound to what its own word
stood for when its turn came.

* `Trigger.StandsFor`: the text that a word stands for, and the session after finding it.
* `Trigger.Bound`: words bound to keys, one after another.
* `Trigger.bound_of_bindWords`, `Trigger.Bound.get?_getElem`, `Trigger.Bound.get?_of_not_mem`.
* `Trigger.binds_of_fire_param`, `parameters_take_trailing_words`.
-/

namespace DiceNotation

open Text (balancedFrom outerWords)

namespace Trigger

variable {ρ : Type} [Roller ρ] {s s' u : Session ρ} {word value : Text}

/-! ## Words -/

/-- What a word stands for.  A word that is one group is rolled, which may change the session, and
stands for the value in digits; another word stands for itself. -/
inductive StandsFor (s : Session ρ) : Text → Text → Session ρ → Prop
  | plain {word : Text}
      (noGroup : ∀ inner, balancedFrom 0 inner = true → word ≠ '(' :: (inner ++ [')'])) :
      StandsFor s word word s
  | group {inner : Text} {r : Roll} {s' : Session ρ} (balanced : balancedFrom 0 inner = true)
      (roll : Turn.evaluate inner s = .ok r s') :
      StandsFor s ('(' :: (inner ++ [')'])) (Whole.render r.value) s'

theorem standsFor_of_wordValue {m : Nat} (hmacros : s.defines.macros = []) (hword : '&' ∉ word)
    (h : wordValue (reentry m) word s = .ok value s') : StandsFor s word value s' := by
  cases hwrapped : Group.wrapped? word with
  | some inner =>
    rw [wordValue, hwrapped] at h
    obtain ⟨rfl, hbalanced⟩ := Group.wrapped?_eq_some_iff.mp hwrapped
    obtain ⟨r, u, hroll, h⟩ := Turn.exists_of_bind_eq_ok h
    obtain ⟨rfl, rfl⟩ := EStateM.Result.ok.inj h
    cases m with
    | zero => exact nomatch hroll
    | succ m =>
      rw [evaluate_reentry m hmacros fun hmem => hword (by simp [hmem])] at hroll
      exact .group hbalanced hroll
  | none =>
    rw [wordValue, hwrapped] at h
    obtain ⟨rfl, rfl⟩ := EStateM.Result.ok.inj h
    refine .plain fun inner hbalanced heq => ?_
    rw [Group.wrapped?_eq_some_iff.mpr ⟨heq, hbalanced⟩] at hwrapped
    exact nomatch hwrapped

/-- Finding what a word stands for only records rolls, and makes no ampersand. -/
theorem StandsFor.recorded (h : StandsFor s word value s') (hmacros : s.defines.macros = [])
    (hword : '&' ∉ word) : (∃ rs, s.Recorded rs s') ∧ '&' ∉ value := by
  cases h with
  | plain => exact ⟨⟨[], .refl s⟩, hword⟩
  | @group inner r _ balanced roll =>
    have hinner : '&' ∉ inner := fun hmem => hword (by simp [hmem])
    obtain ⟨rs, hrs⟩ := recorded_of_evaluate hmacros hinner roll
    exact ⟨⟨_, hrs⟩, Whole.no_ampersand_render _⟩

/-! ## Words bound to keys -/

/-- Binds words to keys in order, where each word may refer to the keys before. -/
inductive Bound : List (Text × Text) → Session ρ → Session ρ → Prop
  | nil (s : Session ρ) : Bound [] s s
  | cons {key word value : Text} {pairs : List (Text × Text)} {s u s' : Session ρ}
      (first : StandsFor s word value u)
      (rest : Bound pairs { u with defines := u.defines.insert key value } s') :
      Bound ((key, word) :: pairs) s s'

variable {pairs : List (Text × Text)}

/-- One pair at a time keeps the session without macros. -/
theorem StandsFor.macros_insert (h : StandsFor s word value u) (hmacros : s.defines.macros = [])
    (hword : '&' ∉ word) (key : Text) :
    u.defines = s.defines ∧ (u.defines.insert key value).macros = [] := by
  obtain ⟨⟨rs, hrs⟩, hvalue⟩ := h.recorded hmacros hword
  have hdefines := hrs.frame.2.1
  refine ⟨hdefines, List.eq_nil_of_subset_nil ?_⟩
  rw [hdefines, ← hmacros]
  exact Defines.macros_insert_subset s.defines key hvalue

/-- Binding words comes to taking them, and to binding them to the keys. -/
theorem bound_of_bindWords {m : Nat} {around left : Surroundings} {keys : List Text}
    (hmacros : s.defines.macros = []) (haround : '&' ∉ around.text)
    (h : bindWords (reentry m) around keys s = .ok left s') :
    ∃ words, around.takeWords? keys.length = some (words, left) ∧ (∀ word ∈ words, '&' ∉ word) ∧
      Bound (keys.zip words) s s' := by
  induction keys generalizing around s with
  | nil =>
    obtain ⟨rfl, rfl⟩ := EStateM.Result.ok.inj h
    exact ⟨[], rfl, List.forall_mem_nil _, .nil s⟩
  | cons key keys ih =>
    obtain ⟨word, rest, value, u, htaken, hvalue, h⟩ := exists_of_bindWords_cons h
    have hsubset := Surroundings.takeWord?_subset htaken
    have hword : '&' ∉ word := fun hmem => haround (hsubset.1 hmem)
    have hrest : '&' ∉ rest.text := fun hmem => haround (hsubset.2 hmem)
    have hfirst := standsFor_of_wordValue hmacros hword hvalue
    obtain ⟨words, hwords, hplain, hbound⟩ :=
      ih (hfirst.macros_insert hmacros hword key).2 hrest h
    exact ⟨word :: words,
      Surroundings.takeWords?_succ_eq_some_iff.mpr ⟨word, rest, words, htaken, hwords, rfl⟩,
      List.forall_mem_cons.mpr ⟨hword, hplain⟩, .cons hfirst hbound⟩

/-- Other names stand for what they stood for. -/
theorem Bound.get?_of_not_mem (h : Bound pairs s s') (hmacros : s.defines.macros = [])
    (hpairs : ∀ pair ∈ pairs, '&' ∉ pair.2) {name : Text} (hname : name ∉ pairs.map Prod.fst) :
    s'.defines.get? name = s.defines.get? name := by
  induction h with
  | nil => rfl
  | @cons key word value pairs s u s' first rest ih =>
    obtain ⟨hword, hpairs⟩ := List.forall_mem_cons.mp hpairs
    rw [List.map_cons, List.mem_cons, not_or] at hname
    obtain ⟨hdefines, hnext⟩ := first.macros_insert hmacros hword key
    rw [ih hnext hpairs hname.2, Defines.get?_insert_of_ne _ _ hname.1, hdefines]

/-- **A key is bound to what its word stood for when its turn came**, if it is no key of a later
turn. -/
theorem Bound.get?_key {before after : List (Text × Text)} {key : Text}
    (h : Bound (before ++ (key, word) :: after) s s') (hmacros : s.defines.macros = [])
    (hpairs : ∀ pair ∈ before ++ (key, word) :: after, '&' ∉ pair.2)
    (hkey : key ∉ after.map Prod.fst) :
    ∃ u value u', Bound before s u ∧ StandsFor u word value u' ∧
      s'.defines.get? key = some value := by
  induction before generalizing s with
  | nil =>
    obtain ⟨hword, hafter⟩ := List.forall_mem_cons.mp hpairs
    cases h with
    | @cons _ _ value _ _ u' _ first rest =>
      refine ⟨s, value, u', .nil s, first, ?_⟩
      rw [rest.get?_of_not_mem (first.macros_insert hmacros hword key).2 hafter hkey,
        Defines.get?_insert_self]
  | cons pair before ih =>
    rw [List.cons_append] at h hpairs
    obtain ⟨hword, hlater⟩ := List.forall_mem_cons.mp hpairs
    cases h with
    | cons first rest =>
      obtain ⟨u, value, u', hbefore, hvalue, hget⟩ :=
        ih rest (first.macros_insert hmacros hword _).2 hlater
      exact ⟨u, value, u', .cons first hbefore, hvalue, hget⟩

/-- A parameter binds its keys from the last to the first. -/
theorem bound_of_fire_param {m : Nat} {around left : Surroundings} {keys : List Text}
    {output : Text} (hmacros : s.defines.macros = []) (haround : '&' ∉ around.text)
    (h : fire (reentry m) (.param keys) around s = .ok (output, left) s') :
    output = [] ∧ ∃ words, around.takeWords? keys.length = some (words, left) ∧
      (∀ word ∈ words, '&' ∉ word) ∧ Bound (keys.reverse.zip words) s s' := by
  rcases cases_of_fire_eq_ok h with ⟨keys', heq, houtput, hbind⟩ | ⟨hkeys, rfl, halone⟩
  · obtain rfl := Trigger.param.inj heq
    obtain ⟨words, hwords, hrest⟩ := bound_of_bindWords hmacros haround hbind
    rw [List.length_reverse] at hwords
    exact ⟨houtput, words, hwords, hrest⟩
  · obtain rfl : keys = [] := hkeys
    obtain ⟨rfl, rfl⟩ := EStateM.Result.ok.inj halone
    exact ⟨rfl, [], rfl, List.forall_mem_nil _, .nil s⟩

/-- **Where all keys are different, each is bound to what its own word stood for**, with the keys
after it bound already. -/
theorem Bound.get?_getElem {keys words : List Text} (hlength : keys.length = words.length)
    (h : Bound (keys.zip words).reverse s s') (hmacros : s.defines.macros = [])
    (hwords : ∀ word ∈ words, '&' ∉ word) (hkeys : keys.Nodup) {i : Nat} (hi : i < keys.length) :
    ∃ u word value u', words[i]? = some word ∧
      Bound ((keys.zip words).drop (i + 1)).reverse s u ∧ StandsFor u word value u' ∧
      s'.defines.get? keys[i] = some value := by
  have hword : i < words.length := hlength ▸ hi
  have hpair : i < (keys.zip words).length := by
    rw [List.length_zip, ← hlength, Nat.min_self]
    exact hi
  have hsplit : (keys.zip words).reverse = ((keys.zip words).drop (i + 1)).reverse ++
      (keys[i], words[i]) :: ((keys.zip words).take i).reverse := by
    conv_lhs => rw [← List.take_append_drop i (keys.zip words), List.drop_eq_getElem_cons hpair]
    rw [List.reverse_append, List.reverse_cons, List.append_assoc, List.singleton_append,
      List.getElem_zip]
  have hplain : ∀ pair ∈ (keys.zip words).reverse, '&' ∉ pair.2 := fun pair hpair =>
    hwords _ (List.of_mem_zip (List.mem_reverse.mp hpair)).2
  rw [hsplit] at h hplain
  have hkey : keys[i] ∉ (((keys.zip words).take i).reverse).map Prod.fst := by
    intro hmem
    -- the keys of later turns are those before this one
    rw [List.map_reverse, List.mem_reverse, List.map_take, List.map_fst_zip hlength.le] at hmem
    obtain ⟨j, hj, heq⟩ := List.mem_take_iff_getElem.mp hmem
    have hij := (List.Nodup.getElem_inj_iff hkeys).mp heq
    omega
  obtain ⟨u, value, u', hbefore, hvalue, hget⟩ := h.get?_key hmacros hplain hkey
  exact ⟨u, words[i], value, u', List.getElem?_eq_getElem hword, hbefore, hvalue, hget⟩

/-- **A parameter binds its keys to the last words of the text**, in their order, and leaves the
other names as they are. -/
theorem binds_of_fire_param {m : Nat} {around left : Surroundings} {keys : List Text}
    {output : Text} (hbalanced : ∀ t ∈ around.stretches, balancedFrom 0 t = true)
    (hmacros : s.defines.macros = []) (haround : '&' ∉ around.text) (hkeys : keys.Nodup)
    (h : fire (reentry m) (.param keys) around s = .ok (output, left) s') :
    let words := around.stretches.flatMap outerWords
    let last := words.drop (words.length - keys.length)
    output = [] ∧ keys.length ≤ words.length ∧
    left = around.refill (keepWords (words.length - keys.length) around.stretches) ∧
    (∀ i (hi : i < keys.length), ∃ u word value u', last[i]? = some word ∧
      Bound ((keys.zip last).drop (i + 1)).reverse s u ∧ StandsFor u word value u' ∧
      s'.defines.get? keys[i] = some value) ∧
    ∀ name ∉ keys, s'.defines.get? name = s.defines.get? name := by
  intro words last
  obtain ⟨houtput, ws, hws, hplain, hbound⟩ := bound_of_fire_param hmacros haround h
  have hle : keys.length ≤ words.length := around.le_of_takeWords? hbalanced hws
  obtain ⟨rfl, rfl⟩ :=
    Prod.mk.inj (Option.some.inj (hws.symm.trans (around.takeWords?_eq_some hbalanced hle)))
  have hlength : keys.length = last.length := by
    rw [List.length_drop]
    omega
  have hlast : words.reverse.take keys.length = last.reverse := List.take_reverse
  have hwords : ∀ word ∈ last, '&' ∉ word := fun word hword => by
    refine hplain word ?_
    rwa [hlast, List.mem_reverse]
  have hpairs : keys.reverse.zip (words.reverse.take keys.length) = (keys.zip last).reverse := by
    rw [hlast, List.zip_eq_zipWith, List.zip_eq_zipWith, List.reverse_zipWith hlength]
  rw [hpairs] at hbound
  refine ⟨houtput, hle, rfl, fun i hi => hbound.get?_getElem hlength hmacros hwords hkeys hi,
    fun name hname => hbound.get?_of_not_mem hmacros (fun pair hpair => ?_) ?_⟩
  · exact hwords _ (List.of_mem_zip (List.mem_reverse.mp hpair)).2
  · rw [List.map_reverse, List.mem_reverse, List.map_fst_zip hlength.le]
    exact hname

end Trigger

open Trigger (Bound Fired StandsFor fire)

/-- **Parameters take the last words of a text.**  Where the parentheses of every stretch around a
trigger match, the words of the text are those that reading forward finds: each has characters, its
parentheses match, and every blank in it is inside of parentheses; between them, and nowhere else,
are the other blanks.  Words are taken from the last to the first, each with the blanks after it in
its stretch, until there is none.  Where no define stands for text with triggers, a parameter with
different keys that fires takes as many words as it has keys, and binds its keys to these words in
their order.  A word that is one group is rolled, with the keys after it bound already, and its key
is bound to the result.  The text around a trigger has no ampersand, whichever triggers of its
script have fired before. -/
theorem parameters_take_trailing_words {ρ : Type} [Roller ρ] (around : Surroundings)
    (hbalanced : ∀ t ∈ around.stretches, balancedFrom 0 t = true) :
    let words := around.stretches.flatMap outerWords
    (∀ t ∈ around.stretches,
      Text.LaidOut 0 t (Text.layoutFrom 0 t).1 (Text.layoutFrom 0 t).2) ∧
    (∀ word ∈ words, word ≠ [] ∧ balancedFrom 0 word = true ∧
      ∀ a c b, word = a ++ c :: b → Text.isBlank c = true → 0 < a.foldl Text.depthAfter 0) ∧
    (∀ k ≤ words.length, around.takeWords? k =
      some (words.reverse.take k,
        around.refill (keepWords (words.length - k) around.stretches))) ∧
    (around.refill (keepWords 0 around.stretches)).takeWord? = none ∧
    (∀ (again : Reentry ρ) t script ts s outs u, Script.scan t = .ok script →
      ts ⊆ script.rest.map Prod.fst →
      Fired again ts ⟨[script.lead], script.rest.map Prod.snd⟩ s outs around u →
      '&' ∉ around.text) ∧
    ∀ m (s s' : Session ρ) keys output left, s.defines.macros = [] → '&' ∉ around.text →
      keys.Nodup → fire (reentry m) (.param keys) around s = .ok (output, left) s' →
      let last := words.drop (words.length - keys.length)
      output = [] ∧ keys.length ≤ words.length ∧
      left = around.refill (keepWords (words.length - keys.length) around.stretches) ∧
      (∀ i (hi : i < keys.length), ∃ u word value u', last[i]? = some word ∧
        Bound ((keys.zip last).drop (i + 1)).reverse s u ∧ StandsFor u word value u' ∧
        s'.defines.get? keys[i] = some value) ∧
      ∀ name ∉ keys, s'.defines.get? name = s.defines.get? name := by
  refine ⟨fun t ht => Text.laidOut_layoutFrom (hbalanced t ht), fun word hword => ?_,
    fun k hk => around.takeWords?_eq_some hbalanced hk,
    around.takeWord?_refill_keepWords_zero hbalanced,
    fun again t script ts s outs u hscan hts hfired => hfired.no_ampersand_of_scan hscan hts,
    fun m s s' keys output left hmacros haround hkeys h =>
      Trigger.binds_of_fire_param hbalanced hmacros haround hkeys h⟩
  obtain ⟨t, ht, hword⟩ := List.mem_flatMap.mp hword
  obtain ⟨hne, hsolid⟩ := Text.solidFrom_of_mem_outerWords (hbalanced t ht) hword
  exact ⟨hne, Text.balancedFrom_of_solidFrom hsolid,
    fun a c b heq hblank => Text.pos_of_solidFrom hsolid heq hblank⟩

/-- A group around a key is rolled when this key is bound already. -/
theorem parameters_take_trailing_words_of_groups :
    let around : Surroundings := ⟨["1 (2 * 1d6g) ".toList], [" (y) 4 ".toList]⟩
    let s := Session.start {} (Stepping.mk 1 1)
    let keys := ["w".toList, "x".toList, "y".toList]
    (∀ t ∈ around.stretches, balancedFrom 0 t = true) ∧
    around.takeWords? 2 =
      some (["4".toList, "(y)".toList], ⟨["1 (2 * 1d6g) ".toList], [" ".toList]⟩) ∧
    s.defines.macros = [] ∧ '&' ∉ around.text ∧ keys.Nodup ∧
    ∃ s', fire (reentry 1) (.param keys) around s =
        .ok ([], ⟨["1 ".toList], [" ".toList]⟩) s' ∧
      ∃ u value u', Bound [("y".toList, "4".toList)] s u ∧ StandsFor u "(y)".toList value u' ∧
        s'.defines.get? "x".toList = some value := by
  intro around s keys
  have hbalanced : ∀ t ∈ around.stretches, balancedFrom 0 t = true := by decide
  have hmacros : s.defines.macros = [] := by cbv
  have haround : '&' ∉ around.text := by decide
  have hkeys : keys.Nodup := by decide
  obtain ⟨-, -, htake, -, -, hparam⟩ :=
    parameters_take_trailing_words (ρ := Stepping) around hbalanced
  have houtcome : (fire (reentry 1) (.param keys) around).outcome s =
      .ok ([], ⟨["1 ".toList], [" ".toList]⟩) := by decide +kernel
  obtain ⟨_, s', hfire, rfl⟩ := Turn.exists_of_map_outcome_eq_ok (f := id) (by rw [houtcome]; rfl)
  obtain ⟨-, -, -, hkey, -⟩ := hparam 1 s s' keys _ _ hmacros haround hkeys hfire
  obtain ⟨u, word, value, u', hword, hbound, hvalue, hget⟩ := hkey 1 (by decide)
  obtain rfl : "(y)".toList = word := Option.some.inj (Eq.trans (by decide) hword)
  exact ⟨hbalanced, (htake 2 (by decide)).trans (by decide), hmacros, haround, hkeys, s', hfire, u,
    value, u', hbound, hvalue, hget⟩

end DiceNotation
