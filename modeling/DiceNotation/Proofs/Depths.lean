import DiceNotation.Proofs.Nesting
import DiceNotation.Proofs.Origins

/-!
# How deep the groups of a text nest

The depth of a text is the greatest number of its groups that are open at once.  It is read off the
text alone, and it bounds how deep groups nest in the pieces that the text is taken apart into:
without its empty groups the text is not deeper, and a define adds what nests in its value.  No
define is expanded within its own value, so the values of all defines together add at most the sum of
their depths.

* `Group.nesting`, with `nesting_dropEmptyGroups_le` and `Orderly.nesting_lt`.
* `Defines.nesting`, with `Defines.nesting_cons_le`.
* `Resolution.nesting_le_of_run_apart`.
-/

namespace DiceNotation

/-! ## The depth of a text -/

namespace Group

/-- The greatest number of groups that are open at once in a text, of which so many are open at its
start. -/
def nesting (depth : Nat) : Text → Nat
  | [] => depth
  | '(' :: t => nesting (depth + 1) t
  | ')' :: t => max depth (nesting (depth - 1) t)
  | _ :: t => nesting depth t

theorem nesting_append_le {b b' : Text} (h : ∀ depth, nesting depth b ≤ nesting depth b') (a : Text)
    (depth : Nat) : nesting depth (a ++ b) ≤ nesting depth (a ++ b') := by
  fun_induction nesting depth a with
  | case1 depth => exact h depth
  | case2 depth a ih => exact ih
  | case3 depth a ih => exact max_le_max (Nat.le_refl depth) ih
  | case4 depth c a hopen hclose ih =>
    rw [List.cons_append, List.cons_append, nesting.eq_4 _ _ _ hopen hclose,
      nesting.eq_4 _ _ _ hopen hclose]
    exact ih

/-- Empty groups add nothing to the groups around them. -/
theorem nesting_keepGroups_le (kept t : Text) :
    nesting 0 (keepGroups kept t) ≤ nesting 0 (kept.reverse ++ t) := by
  fun_induction keepGroups kept t with
  | case1 kept => rw [List.append_nil]
  | case2 t kept ih =>
    refine Nat.le_trans ih ?_
    rw [List.reverse_cons, List.append_assoc, List.singleton_append]
    exact nesting_append_le (fun depth => Nat.le_max_right (depth + 1) _) kept.reverse 0
  | case3 t c kept hpair ih =>
    rwa [List.reverse_cons, List.append_assoc, List.singleton_append] at ih

theorem nesting_dropEmptyGroups_le (t : Text) : nesting 0 (dropEmptyGroups t) ≤ nesting 0 t :=
  nesting_keepGroups_le [] t

/-- The depth of a text that leaves groups, by its parts inside and behind these. -/
theorem nesting_of_cutClose {level : Nat} {t a b : Text} (h : cutClose level t = some (a, b))
    (hlevel : 0 < level) (depth : Nat) :
    nesting (depth + level) t = max (nesting (depth + level - 1) a + 1) (nesting depth b) := by
  fun_induction cutClose level t generalizing a b with
  | case1 => cases h
  | case2 level t ih =>
    obtain ⟨⟨x, y⟩, hcut, heq⟩ := Option.map_eq_some_iff.mp h
    cases heq
    have hnext := ih hcut (Nat.succ_pos level)
    rw [← Nat.add_assoc, Nat.add_sub_cancel] at hnext
    rw [nesting, nesting, hnext, Nat.sub_add_cancel (by omega)]
  | case3 level t hd =>
    cases h
    obtain rfl : level = 1 := by omega
    rw [nesting, nesting, Nat.add_sub_cancel]
  | case4 level t hd ih =>
    obtain ⟨⟨x, y⟩, hcut, heq⟩ := Option.map_eq_some_iff.mp h
    cases heq
    have hnext := ih hcut (by omega)
    rw [← Nat.add_sub_assoc (by omega)] at hnext
    rw [nesting, nesting, hnext]
    dsimp only
    omega
  | case5 level c t hopen hclose ih =>
    obtain ⟨⟨x, y⟩, hcut, heq⟩ := Option.map_eq_some_iff.mp h
    cases heq
    rw [nesting.eq_4 _ _ _ hopen hclose, nesting.eq_4 _ _ _ hopen hclose]
    exact ih hcut hlevel

/-- A group is one deeper than its inside. -/
theorem nesting_group {inner : Text} (h : Closed inner) (rest : Text) :
    nesting 0 ('(' :: inner ++ [')'] ++ rest) = max (nesting 0 inner + 1) (nesting 0 rest) := by
  rw [List.append_assoc, List.cons_append, List.singleton_append]
  exact nesting_of_cutClose (h rest) Nat.one_pos 0

theorem nesting_plain {t : Text} (h : ∀ c ∈ t, isPlain c = true) (depth : Nat) (rest : Text) :
    nesting depth (t ++ rest) = nesting depth rest := by
  induction t with
  | nil => rfl
  | cons c t ih =>
    have hc := isPlain_iff.mp (h c List.mem_cons_self)
    rw [List.cons_append, nesting]
    · exact ih fun c hc => h c (List.mem_cons_of_mem _ hc)
    · exact hc.1
    · exact hc.2

/-- **A group of a text is not as deep as the text.** -/
theorem Orderly.nesting_lt {ps : List Part} (h : Orderly ps) {inner : Text}
    (hmem : .group inner ∈ ps) : nesting 0 inner < nesting 0 (ps.flatMap Part.text) := by
  induction ps with
  | nil => exact absurd hmem List.not_mem_nil
  | cons p ps ih =>
    obtain ⟨hp, hps⟩ := h.tail
    rw [List.flatMap_cons]
    cases p with
    | plain t =>
      have hmem : Part.group inner ∈ ps := (List.mem_cons.mp hmem).resolve_left fun h => nomatch h
      rw [Part.text, nesting_plain hp.2]
      exact ih hps hmem
    | group first =>
      rw [Part.text, nesting_group hp]
      rcases List.mem_cons.mp hmem with heq | hmem
      · obtain rfl := Part.group.inj heq
        exact Nat.le_max_left _ _
      · exact Nat.lt_of_lt_of_le (ih hps hmem) (Nat.le_max_right _ _)

end Group

/-! ## The depth of defines -/

/-- What the value of a name adds to the depth of a text, unless the name is in use. -/
def Defines.entryNesting (used : List Text) (e : Text × Text) : Nat :=
  if used.contains e.1 then 0 else Group.nesting 0 e.2

/-- What the values of all names add to the depth of a text. -/
def Defines.nesting (d : Defines) (used : List Text) : Nat :=
  d.entries.foldr (fun e depth => entryNesting used e + depth) 0

/-- **A define in use takes its depth away.** -/
theorem Defines.nesting_cons_le {d : Defines} {used : List Text} {name value : Text}
    (hused : used.contains name = false) (hvalue : d.get? name = some value) :
    Group.nesting 0 value + d.nesting (name :: used) ≤ d.nesting used := by
  have hperm := List.perm_cons_erase (mem_entries_of_get? hvalue)
  have hfewer : ∀ e ∈ d.entries.erase (name, value),
      entryNesting (name :: used) e ≤ entryNesting used e := by
    intro e _
    unfold entryNesting
    rw [List.contains_cons]
    by_cases he : used.contains e.1 = true
    · rw [he, Bool.or_true]
    · rw [if_neg he]
      split
      · exact Nat.zero_le _
      · exact Nat.le_refl _
  have hfirst : entryNesting (name :: used) (name, value) = 0 :=
    if_pos (List.contains_iff_mem.mpr List.mem_cons_self)
  have hbefore : entryNesting used (name, value) = Group.nesting 0 value :=
    if_neg (Bool.eq_false_iff.mp hused)
  have hsum : ∀ used : List Text, d.nesting used = (d.entries.map (entryNesting used)).sum := by
    intro used
    rw [List.sum_eq_foldr, List.foldr_map]
    rfl
  have hrest := List.sum_le_sum hfewer
  rw [hsum, hsum, (hperm.map _).sum_eq, (hperm.map _).sum_eq, List.map_cons, List.map_cons,
    List.sum_cons, List.sum_cons, hfirst, hbefore]
  omega

/-! ## The depth of pieces -/

theorem Atom.mem_of_group_mem_ofParts {parts : List Group.Part} {inner : Text}
    (h : .group inner ∈ ofParts parts) : .group inner ∈ parts := by
  obtain ⟨part, hpart, h⟩ := List.mem_flatMap.mp h
  cases part with
  | plain t =>
    obtain ⟨run, -, hrun⟩ := List.mem_map.mp h
    exact absurd hrun (ofRun_ne_group run inner)
  | group first =>
    obtain rfl := Atom.group.inj (List.mem_singleton.mp h)
    exact hpart

namespace Resolution

variable {c : Config} {d : Defines}

/-- The pieces of atoms nest no deeper than the groups and the values of the defines among them. -/
theorem nesting_le_of_run_assembled {down : Nat → List Text → Text → Tallying Pieces}
    {depth n bound : Nat} {used : List Text} {atoms : List Atom} {p : Pieces × Nat}
    (hgroup : ∀ inner, .group inner ∈ atoms → ∀ m q,
      (down (depth + 1) used inner).run m = .ok q → q.1.nesting < bound)
    (hdefine : ∀ name value, used.contains name = false → d.get? name = some value → ∀ m q,
      (down depth (name :: used) value).run m = .ok q → q.1.nesting ≤ bound)
    (h : (assembled c d down depth used atoms).run n = .ok p) : p.1.nesting ≤ bound := by
  induction atoms generalizing n p with
  | nil =>
    obtain rfl : (.nil, n) = p := Except.ok.inj h
    exact Nat.zero_le bound
  | cons a atoms ih =>
    have hrest : ∀ {r m k}, (assembled c d down depth used atoms).run m = .ok (r, k) →
        r.nesting ≤ bound :=
      ih fun inner hmem => hgroup inner (List.mem_cons_of_mem _ hmem)
    cases a with
    | group inner =>
      obtain ⟨q, m, hq, h⟩ := Tallying.exists_of_run_bind_eq_ok h
      obtain ⟨r, k, hr, h⟩ := Tallying.exists_of_run_bind_eq_ok h
      obtain rfl : (.group q r, k) = p := Except.ok.inj h
      exact max_le (hgroup inner List.mem_cons_self n _ hq) (hrest hr)
    | other t =>
      obtain ⟨r, k, hr, h⟩ := Tallying.exists_of_run_bind_eq_ok h
      obtain rfl : (.text t r, k) = p := Except.ok.inj h
      show r.nesting ≤ bound
      exact hrest hr
    | name name =>
      unfold assembled at h
      split at h
      · obtain ⟨r, k, hr, h⟩ := Tallying.exists_of_run_bind_eq_ok h
        obtain rfl : (.text name r, k) = p := Except.ok.inj h
        show r.nesting ≤ bound
        exact hrest hr
      · next value hvalue =>
        split at hvalue
        · exact nomatch hvalue
        · next hused =>
          obtain ⟨-, l, -, h⟩ := Tallying.exists_of_run_bind_eq_ok h
          obtain ⟨q, m, hq, h⟩ := Tallying.exists_of_run_bind_eq_ok h
          obtain ⟨r, k, hr, h⟩ := Tallying.exists_of_run_bind_eq_ok h
          obtain rfl : (.define q r, k) = p := Except.ok.inj h
          exact max_le (hdefine name value (Bool.not_eq_true _ ▸ hused) hvalue l _ hq) (hrest hr)

/-- **Pieces nest no deeper than their text** and the values of defines that are not in use. -/
theorem nesting_le_of_run_apart {path depth n : Nat} {used : List Text} {t : Text}
    {p : Pieces × Nat} (h : (apart c d path depth used t).run n = .ok p) :
    p.1.nesting ≤ Group.nesting 0 t + d.nesting used := by
  induction path generalizing depth n used t p with
  | zero => exact nomatch h
  | succ path ih =>
    obtain ⟨_, atoms, ⟨⟩, -, hatoms, h⟩ := exists_of_run_apart h
    obtain ⟨ps, hparts, rfl⟩ := atoms?_eq_ok_iff.mp hatoms
    obtain ⟨horderly, htext⟩ := Group.orderly_of_partsFrom? hparts
    have hflat := Group.nesting_dropEmptyGroups_le t
    refine nesting_le_of_run_assembled (fun inner hmem m q hq => ?_)
      (fun name value hused hvalue m q hq => ?_) h
    · have hlt := horderly.nesting_lt (Atom.mem_of_group_mem_ofParts hmem)
      have hle := ih hq
      rw [htext] at hlt
      omega
    · have hle := ih hq
      have hfewer := Defines.nesting_cons_le hused hvalue
      omega

end Resolution

end DiceNotation
