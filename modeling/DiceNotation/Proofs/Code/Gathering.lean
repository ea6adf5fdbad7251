import DiceNotation.DiceCode.Reader
import DiceNotation.Proofs.Fallible
import Mathlib.Data.List.Nodup
import Mathlib.Data.List.Perm.Basic

/-!
# When a code is well-formed

Reading a dice code threads a draft through nine rules and all that they find, and then looks at what
has been gathered.  Here the draft is done away with.  A code has parameters if and only if

* every rule succeeds,
* the findings of all rules set no key twice,
* every character that is not blank lies in one of these findings,
* an `@` is used to select by rank, and
* the settings make parameters.

None of this depends on the order of the rules or of what they find: parameters are looked up by
key, so that they are the same for every order of settings in which no key occurs twice
(`ofSettings?_perm`).

* `Setting.Distinct`, `ofSettings?_perm`.
* `Rule.found`, `findings`, `WellFormed`.
* `foldlM_eq_ok_iff`: what a draft comes to, for settings, findings and rules alike.
* `readWith_eq_ok_iff`: reading by all rules in any order; `read_eq_ok_iff`.
-/

namespace DiceNotation.DiceCode

open Text

/-! ## Parameters -/

/-- No key is set twice. -/
def Setting.Distinct (l : List Setting) : Prop := (l.map Setting.key).Nodup

theorem Setting.Distinct.perm {l l' : List Setting} (h : Distinct l) (hl : l.Perm l') :
    Distinct l' := (hl.map Setting.key).nodup_iff.mp h

/-- A key is looked up in any order of the settings. -/
theorem findSome?_perm {α : Type} {f : Setting → Option α} {k : Key}
    (hf : ∀ s a, f s = some a → s.key = k) {l l' : List Setting} (h : l.Perm l')
    (hl : Setting.Distinct l) : l'.findSome? f = l.findSome? f := by
  induction h with
  | nil => rfl
  | cons s _ ih =>
    rw [List.findSome?_cons, List.findSome?_cons, ih (List.nodup_cons.mp hl).2]
  | swap a b l =>
    have hne : b.key ≠ a.key := fun heq =>
      (List.nodup_cons.mp hl).1 (heq ▸ List.mem_cons_self)
    rw [List.findSome?_cons, List.findSome?_cons, List.findSome?_cons, List.findSome?_cons]
    cases ha : f a with
    | none => cases f b <;> rfl
    | some x =>
      cases hb : f b with
      | none => rfl
      | some y => exact absurd ((hf b y hb).trans (hf a x ha).symm) hne
  | trans h _ ih ih' => rw [ih' (hl.perm h), ih hl]

/-- **Parameters do not depend on the order of the settings.** -/
theorem ofSettings?_perm {l l' : List Setting} (h : l.Perm l') (hl : Setting.Distinct l) :
    Parameters.ofSettings? l' = Parameters.ofSettings? l := by
  have hamount : l'.findSome? Setting.amount? = l.findSome? Setting.amount? :=
    findSome?_perm (k := .amount) (by intro s a hs; cases s <;> first | rfl | cases hs) h hl
  have hsides : l'.findSome? Setting.sides? = l.findSome? Setting.sides? :=
    findSome?_perm (k := .sides) (by intro s a hs; cases s <;> first | rfl | cases hs) h hl
  have hrerolls : l'.findSome? Setting.rerolls? = l.findSome? Setting.rerolls? :=
    findSome?_perm (k := .rerolls) (by intro s a hs; cases s <;> first | rfl | cases hs) h hl
  have hexplosion : l'.findSome? Setting.explosion? = l.findSome? Setting.explosion? :=
    findSome?_perm (k := .explosion) (by intro s a hs; cases s <;> first | rfl | cases hs) h hl
  have hreduction : l'.findSome? Setting.reduction? = l.findSome? Setting.reduction? :=
    findSome?_perm (k := .reduction) (by intro s a hs; cases s <;> first | rfl | cases hs) h hl
  have hdifficulty : l'.findSome? Setting.difficulty? = l.findSome? Setting.difficulty? :=
    findSome?_perm (k := .difficulty) (by intro s a hs; cases s <;> first | rfl | cases hs) h hl
  have hone : l'.findSome? Setting.oneBehaviour? = l.findSome? Setting.oneBehaviour? :=
    findSome?_perm (k := .oneBehaviour) (by intro s a hs; cases s <;> first | rfl | cases hs) h hl
  have hsort : l'.contains .sort = l.contains .sort := by
    rw [Bool.eq_iff_iff, List.contains_iff_mem, List.contains_iff_mem, h.mem_iff]
  unfold Parameters.ofSettings?
  rw [hamount, hsides, hrerolls, hexplosion, hreduction, hdifficulty, hone, hsort]

/-- The amount of the parameters is one of the settings. -/
theorem exists_amount_of_ofSettings? {l : List Setting} {p : Parameters}
    (h : Parameters.ofSettings? l = some p) : ∃ a, Setting.amount a ∈ l := by
  obtain ⟨a, ha, -⟩ := Option.map_eq_some_iff.mp h
  obtain ⟨s, hs, hsa⟩ := List.exists_of_findSome?_eq_some ha
  cases s with
  | amount b => exact ⟨b, hs⟩
  | _ => exact nomatch hsa

/-! ## Findings -/

/-- The keys that a finding sets. -/
def Finding.keys (f : Finding) : List Key := f.settings.map Setting.key

/-- Whether an index lies in a finding. -/
def Finding.Covers (f : Finding) (i : Nat) : Prop := f.start ≤ i ∧ i < f.start + f.length

/-- What a rule finds, or nothing if it fails. -/
def Rule.found (r : Rule) (code : Text) : List Finding := (r.find code).toOption.getD []

theorem Rule.found_of_find {r : Rule} {code : Text} {l : List Finding} (h : r.find code = .ok l) :
    r.found code = l := by
  unfold Rule.found
  rw [h]
  rfl

/-- What some rules find, in the order of the rules. -/
def findingsOf (rules : List Rule) (code : Text) : List Finding :=
  rules.flatMap fun r => r.found code

/-- What all rules find. -/
def findings (code : Text) : List Finding := Rule.all.flatMap fun r => r.found code

/-- All rules find the same in any order. -/
theorem findingsOf_perm {rules : List Rule} (h : rules.Perm Rule.all) (code : Text) :
    (findingsOf rules code).Perm (findings code) := h.flatMap_right _

/-- The rules account for a code, and what they find in it makes the parameters. -/
structure WellFormed (code : Text) (p : Parameters) : Prop where
  find_eq : ∀ r : Rule, r.find code = .ok (r.found code)
  distinct : Setting.Distinct ((findings code).flatMap Finding.settings)
  covered : ∀ i c, code[i]? = some c → isBlank c = false → ∃ f ∈ findings code, f.Covers i
  selects : '@' ∈ code → p.reduction.any Reduction.isSelector = true
  parameters : Parameters.ofSettings? ((findings code).flatMap Finding.settings) = some p

/-! ## Drafts -/

namespace Draft

/-- The keys that have been set. -/
def keys (d : Draft) : List Key := d.settings.map fun s => s.1.key

/-- The draft with one more setting. -/
def put (r : Rule) (d : Draft) (s : Setting) : Draft :=
  { d with settings := d.settings ++ [(s, r)] }

/-- The draft with one more finding. -/
def extend (r : Rule) (d : Draft) (f : Finding) : Draft :=
  f.settings.foldl (put r) { d with spans := (f.start, f.length) :: d.spans }

/-- The draft with all that a rule finds. -/
def extendAll (code : Text) (d : Draft) (r : Rule) : Draft := (r.found code).foldl (extend r) d

/-- A step of a draft may go wrong by itself, and goes wrong if it sets a key that has been set.
Then steps one after another go right if each of them does and no key is set twice. -/
theorem foldlM_eq_ok_iff {α : Type} {step : Draft → α → Except RollError Draft}
    {extended : Draft → α → Draft} {ok : α → Prop} {sets : α → List Key}
    (hkeys : ∀ d x, (extended d x).keys = d.keys ++ sets x)
    (hstep : ∀ d x d', d.keys.Nodup →
      (step d x = .ok d' ↔ ok x ∧ (d.keys ++ sets x).Nodup ∧ extended d x = d'))
    (xs : List α) {d e : Draft} (hd : d.keys.Nodup) :
    xs.foldlM step d = .ok e ↔
      (∀ x ∈ xs, ok x) ∧ (d.keys ++ xs.flatMap sets).Nodup ∧ xs.foldl extended d = e := by
  induction xs generalizing d with
  | nil =>
    rw [List.flatMap_nil, List.append_nil]
    constructor
    · intro h
      exact ⟨nofun, hd, Except.ok.inj h⟩
    · rintro ⟨-, -, rfl⟩
      rfl
  | cons x xs ih =>
    rw [List.foldlM_cons, List.flatMap_cons, ← List.append_assoc, List.foldl_cons]
    constructor
    · intro h
      cases hx : step d x with
      | error e =>
        rw [hx] at h
        exact nomatch h
      | ok d₁ =>
        rw [hx] at h
        obtain ⟨hok, hnodup, rfl⟩ := (hstep d x d₁ hd).mp hx
        obtain ⟨hoks, hnodups, hends⟩ := (ih (by rw [hkeys]; exact hnodup)).mp h
        rw [hkeys] at hnodups
        exact ⟨List.forall_mem_cons.mpr ⟨hok, hoks⟩, hnodups, hends⟩
    · rintro ⟨hoks, hnodups, hends⟩
      obtain ⟨hok, hoks⟩ := List.forall_mem_cons.mp hoks
      have hnodup : (d.keys ++ sets x).Nodup := (List.nodup_append.mp hnodups).1
      rw [(hstep d x _ hd).mpr ⟨hok, hnodup, rfl⟩]
      refine (ih (by rw [hkeys]; exact hnodup)).mpr ⟨hoks, ?_, hends⟩
      rw [hkeys]
      exact hnodups

theorem owner?_eq_none_iff {d : Draft} {k : Key} : d.owner? k = none ↔ k ∉ d.keys := by
  unfold owner? keys
  rw [Option.map_eq_none_iff, List.find?_eq_none, List.mem_map]
  simp

theorem keys_put (r : Rule) (d : Draft) (s : Setting) : (put r d s).keys = d.keys ++ [s.key] := by
  unfold keys put
  rw [List.map_append]
  rfl

theorem set_eq_ok_iff (r : Rule) (d : Draft) (s : Setting) (d' : Draft) (hd : d.keys.Nodup) :
    d.set r s = .ok d' ↔ True ∧ (d.keys ++ [s.key]).Nodup ∧ put r d s = d' := by
  have hnodup : (d.keys ++ [s.key]).Nodup ↔ s.key ∉ d.keys := by
    rw [List.nodup_append]
    constructor
    · rintro ⟨-, -, hdisjoint⟩ hmem
      exact hdisjoint _ hmem _ List.mem_cons_self rfl
    · intro hmem
      refine ⟨hd, List.nodup_singleton _, fun a ha b hb => ?_⟩
      rw [List.mem_singleton.mp hb]
      rintro rfl
      exact hmem ha
  rw [hnodup, ← owner?_eq_none_iff]
  unfold set
  cases d.owner? s.key with
  | none =>
    constructor
    · intro h
      exact ⟨trivial, rfl, Except.ok.inj h⟩
    · rintro ⟨-, -, rfl⟩
      rfl
  | some first =>
    constructor
    · exact fun h => nomatch h
    · rintro ⟨-, h, -⟩
      exact nomatch h

/-- What steps add one after another is there in the end. -/
theorem foldl_append {α β : Type} {extended : Draft → α → Draft} (g : Draft → List β)
    {adds : α → List β} (h : ∀ d x, g (extended d x) = g d ++ adds x) (xs : List α) (d : Draft) :
    g (xs.foldl extended d) = g d ++ xs.flatMap adds := by
  induction xs generalizing d with
  | nil => exact (List.append_nil _).symm
  | cons x xs ih => rw [List.foldl_cons, ih, h, List.flatMap_cons, List.append_assoc]

theorem keys_extend (r : Rule) (d : Draft) (f : Finding) :
    (extend r d f).keys = d.keys ++ f.keys := by
  unfold extend Finding.keys
  rw [foldl_append keys (keys_put r), ← List.map_eq_flatMap]
  rfl

theorem keys_extendAll (code : Text) (d : Draft) (r : Rule) :
    (extendAll code d r).keys = d.keys ++ (r.found code).flatMap Finding.keys :=
  foldl_append keys (keys_extend r) _ _

theorem add_eq_ok_iff (r : Rule) (d : Draft) (f : Finding) (d' : Draft) (hd : d.keys.Nodup) :
    d.add r f = .ok d' ↔ True ∧ (d.keys ++ f.keys).Nodup ∧ extend r d f = d' := by
  have hiff := foldlM_eq_ok_iff (keys_put r) (set_eq_ok_iff r) f.settings (e := d')
    (d := { d with spans := (f.start, f.length) :: d.spans }) hd
  rw [← List.map_eq_flatMap] at hiff
  exact hiff.trans (and_congr_left' (iff_of_true (fun _ _ => trivial) trivial))

theorem apply_eq_ok_iff (code : Text) (d : Draft) (r : Rule) (d' : Draft) (hd : d.keys.Nodup) :
    d.apply code r = .ok d' ↔ r.find code = .ok (r.found code) ∧
      (d.keys ++ (r.found code).flatMap Finding.keys).Nodup ∧ extendAll code d r = d' := by
  have hiff := foldlM_eq_ok_iff (keys_extend r) (add_eq_ok_iff r) (r.found code) (e := d') hd
  unfold apply
  cases hfind : r.find code with
  | error e =>
    constructor
    · exact fun h => nomatch h
    · exact fun h => nomatch h.1
  | ok l =>
    rw [Rule.found_of_find hfind] at hiff ⊢
    unfold extendAll
    rw [Rule.found_of_find hfind]
    exact hiff.trans (and_congr_left' (iff_of_true (fun _ _ => trivial) rfl))

/-- The draft of what some rules find in a code. -/
def gathered (code : Text) (rules : List Rule) : Draft := rules.foldl (extendAll code) {}

theorem settings_gathered (code : Text) (rules : List Rule) :
    (gathered code rules).settings.map Prod.fst =
      (findingsOf rules code).flatMap Finding.settings := by
  have hput : ∀ (r : Rule) (d : Draft) (s : Setting),
      (put r d s).settings.map Prod.fst = d.settings.map Prod.fst ++ [s] := by
    intro r d s
    unfold put
    rw [List.map_append]
    rfl
  have hextend : ∀ (r : Rule) (d : Draft) (f : Finding),
      (extend r d f).settings.map Prod.fst = d.settings.map Prod.fst ++ f.settings := by
    intro r d f
    unfold extend
    rw [foldl_append (fun d => d.settings.map Prod.fst) (hput r), List.flatMap_singleton']
  have hall : ∀ (d : Draft) (r : Rule), (extendAll code d r).settings.map Prod.fst =
      d.settings.map Prod.fst ++ (r.found code).flatMap Finding.settings :=
    fun d r => foldl_append (fun d => d.settings.map Prod.fst) (hextend r) _ _
  unfold gathered findingsOf
  rw [foldl_append (fun d => d.settings.map Prod.fst) hall, List.flatMap_assoc]
  rfl

theorem keys_gathered (code : Text) (rules : List Rule) :
    (gathered code rules).keys =
      ((findingsOf rules code).flatMap Finding.settings).map Setting.key := by
  rw [← settings_gathered, List.map_map]
  rfl

theorem spans_gathered (code : Text) (rules : List Rule) :
    (gathered code rules).spans.reverse =
      (findingsOf rules code).map fun f => (f.start, f.length) := by
  have hspans : ∀ (r : Rule) (l : List Setting) (d : Draft),
      (l.foldl (put r) d).spans.reverse = d.spans.reverse := by
    intro r l d
    induction l generalizing d with
    | nil => rfl
    | cons s l ih => exact ih (put r d s)
  have hextend : ∀ (r : Rule) (d : Draft) (f : Finding),
      (extend r d f).spans.reverse = d.spans.reverse ++ [(f.start, f.length)] := by
    intro r d f
    exact (hspans r _ _).trans List.reverse_cons
  have hall : ∀ (d : Draft) (r : Rule), (extendAll code d r).spans.reverse =
      d.spans.reverse ++ (r.found code).flatMap fun f => [(f.start, f.length)] :=
    fun d r => foldl_append (fun d => d.spans.reverse) (hextend r) _ _
  unfold gathered findingsOf
  rw [foldl_append (fun d => d.spans.reverse) hall, List.map_eq_flatMap, List.flatMap_assoc]
  rfl

theorem covers_gathered (code : Text) (rules : List Rule) (i : Nat) :
    (gathered code rules).covers i = true ↔ ∃ f ∈ findingsOf rules code, f.Covers i := by
  unfold covers
  rw [← List.any_reverse, spans_gathered, List.any_map, List.any_eq_true]
  simp [Finding.Covers]

/-- Nothing is left over if and only if every character that is not blank is accounted for. -/
theorem leftOverFrom_eq_nil_iff {d : Draft} {n : Nat} {t : Text} :
    d.leftOverFrom n t = [] ↔
      ∀ i c, t[i]? = some c → isBlank c = false → d.covers (n + i) = true := by
  induction t generalizing n with
  | nil =>
    constructor
    · exact fun _ i c h => nomatch h
    · exact fun _ => rfl
  | cons c t ih =>
    have hrest : d.leftOverFrom n (c :: t) = [] ↔
        (isBlank c = false → d.covers n = true) ∧ d.leftOverFrom (n + 1) t = [] := by
      have hstep : d.leftOverFrom n (c :: t) = if isBlank c || d.covers n then
        d.leftOverFrom (n + 1) t else c :: d.leftOverFrom (n + 1) t := rfl
      rw [hstep]
      cases isBlank c with
      | true => simp
      | false =>
        cases d.covers n with
        | true => simp
        | false => simp
    rw [hrest, ih]
    constructor
    · rintro ⟨hfirst, hlater⟩ i e hi he
      cases i with
      | zero =>
        cases hi
        exact hfirst he
      | succ i =>
        have h := hlater i e hi he
        rwa [Nat.add_assoc, Nat.add_comm 1 i] at h
    · intro h
      refine ⟨fun hc => h 0 c rfl hc, fun i e hi he => ?_⟩
      have h := h (i + 1) e hi he
      rwa [← Nat.add_assoc, Nat.add_right_comm] at h

theorem finish_eq_ok_iff {code : Text} {d : Draft} {p : Parameters} :
    d.finish code = .ok p ↔ d.leftOverFrom 0 code = [] ∧
      ('@' ∈ code → p.reduction.any Reduction.isSelector = true) ∧
      Parameters.ofSettings? (d.settings.map Prod.fst) = some p := by
  have hreduction : Parameters.ofSettings? (d.settings.map Prod.fst) = some p →
      p.reduction = (d.settings.map Prod.fst).findSome? Setting.reduction? := by
    intro h
    obtain ⟨a, -, rfl⟩ := Option.map_eq_some_iff.mp h
    rfl
  unfold finish
  dsimp only
  cases hrest : d.leftOverFrom 0 code with
  | cons c rest =>
    constructor
    · exact fun h => nomatch h
    · exact fun h => nomatch h.1
  | nil =>
    rw [if_neg (by simp)]
    cases hp : Parameters.ofSettings? (d.settings.map Prod.fst) with
    | none =>
      constructor
      · intro h
        split at h
        · exact nomatch h
        · exact nomatch h
      · exact fun h => nomatch h.2.2
    | some q =>
      by_cases hat : '@' ∈ code
      · rw [List.contains_iff_mem.mpr hat, Bool.true_and]
        constructor
        · intro h
          split at h
          · exact nomatch h
          · next hselects =>
            obtain rfl : q = p := Except.ok.inj h
            refine ⟨rfl, fun _ => ?_, rfl⟩
            rw [hreduction hp]
            simpa using hselects
        · rintro ⟨-, hselects, hq⟩
          obtain rfl : q = p := Option.some.inj hq
          rw [← hreduction hp, hselects hat]
          rfl
      · have hcontains : code.contains '@' = false := by
          rw [Bool.eq_false_iff]
          exact fun h => hat (List.contains_iff_mem.mp h)
        rw [hcontains, Bool.false_and, if_neg Bool.false_ne_true]
        constructor
        · intro h
          obtain rfl : q = p := Except.ok.inj h
          exact ⟨rfl, fun h => absurd h hat, rfl⟩
        · rintro ⟨-, -, hq⟩
          obtain rfl : q = p := Option.some.inj hq
          rfl

end Draft

/-- What is gathered in a code by all rules, in any order. -/
theorem foldlM_apply_eq_ok_iff {rules : List Rule} (h : rules.Perm Rule.all) {code : Text}
    {d : Draft} :
    rules.foldlM (Draft.apply code) {} = .ok d ↔ (∀ r : Rule, r.find code = .ok (r.found code)) ∧
      Setting.Distinct ((findings code).flatMap Finding.settings) ∧
      Draft.gathered code rules = d := by
  have hdraft := Draft.foldlM_eq_ok_iff (Draft.keys_extendAll code) (Draft.apply_eq_ok_iff code)
    rules (d := {}) (e := d) List.nodup_nil
  have hkeys : ({} : Draft).keys ++ rules.flatMap (fun r => (r.found code).flatMap Finding.keys) =
      (Draft.gathered code rules).keys :=
    (Draft.foldl_append Draft.keys (Draft.keys_extendAll code) rules {}).symm
  have hdistinct : (Draft.gathered code rules).keys.Nodup ↔
      Setting.Distinct ((findings code).flatMap Finding.settings) := by
    rw [Draft.keys_gathered]
    exact (((findingsOf_perm h code).flatMap_right _).map _).nodup_iff
  have hfind : (∀ r ∈ rules, r.find code = .ok (r.found code)) ↔
      ∀ r : Rule, r.find code = .ok (r.found code) :=
    forall_congr' fun r => imp_iff_right (h.mem_iff.mpr (Rule.mem_all r))
  rw [hkeys, hdistinct, hfind] at hdraft
  exact hdraft

/-- **All rules, in any order, read a code as parameters if and only if it is well-formed and they
are what it sets.** -/
theorem readWith_eq_ok_iff {rules : List Rule} (h : rules.Perm Rule.all) {t : Text}
    {p : Parameters} : readWith rules t = .ok p ↔ WellFormed (trim t) p := by
  have hfindings := findingsOf_perm h (trim t)
  have hcovered : (Draft.gathered (trim t) rules).leftOverFrom 0 (trim t) = [] ↔
      ∀ i c, (trim t)[i]? = some c → isBlank c = false → ∃ f ∈ findings (trim t), f.Covers i := by
    rw [Draft.leftOverFrom_eq_nil_iff]
    simp only [Nat.zero_add, Draft.covers_gathered, hfindings.mem_iff]
  have hparameters : Setting.Distinct ((findings (trim t)).flatMap Finding.settings) →
      Parameters.ofSettings? ((Draft.gathered (trim t) rules).settings.map Prod.fst) =
        Parameters.ofSettings? ((findings (trim t)).flatMap Finding.settings) := by
    rw [Draft.settings_gathered]
    exact ofSettings?_perm (hfindings.flatMap_right _).symm
  unfold readWith
  constructor
  · intro hread
    obtain ⟨d, hd, hfinish⟩ := exists_of_bind_eq_ok hread
    obtain ⟨hfind, hdistinct, rfl⟩ := (foldlM_apply_eq_ok_iff h).mp hd
    obtain ⟨hrest, hselects, hp⟩ := Draft.finish_eq_ok_iff.mp hfinish
    exact ⟨hfind, hdistinct, hcovered.mp hrest, hselects, hparameters hdistinct ▸ hp⟩
  · intro hwell
    have hd := (foldlM_apply_eq_ok_iff h).mpr ⟨hwell.find_eq, hwell.distinct, rfl⟩
    rw [hd]
    exact Draft.finish_eq_ok_iff.mpr ⟨hcovered.mpr hwell.covered, hwell.selects,
      (hparameters hwell.distinct).trans hwell.parameters⟩

/-- **A code is read as parameters if and only if it is well-formed and they are what it sets.** -/
theorem read_eq_ok_iff {t : Text} {p : Parameters} :
    read t = .ok p ↔ WellFormed (trim t) p := readWith_eq_ok_iff (List.Perm.refl _)

end DiceNotation.DiceCode
