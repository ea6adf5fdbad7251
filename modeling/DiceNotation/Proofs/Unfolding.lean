import DiceNotation.Proofs.Nesting
import DiceNotation.Roller.Scripted

/-!
# Unfolding defines

Where neither a text nor any define holds triggers or groups, all that resolving the text does is to
put the values of defines in the place of their names.  A value can hold further names, its own
among them, so this is done again within the value.  What comes of it is a tree, the *unfolding*: it
has a node for every whole word that is the name of a define, unless that define is already being
expanded above the word.

## What is shown

The unfolding is made from the table and the text alone, and it ends because one name fewer can be
expanded within each expansion (`Defines.unused_cons_lt`), whatever the defines refer to.  It can be
of any size, though, and the expansions of one resolution are counted.  The count is shared by all
that is expanded so far, and `Resolution.run_apart_of_flat` shows that it is exceeded exactly if the
unfolding has more expansions than are left; the pieces are those of the unfolding otherwise.

* `Text.IsFlat`, `Defines.IsFlat`.
* `Unfolding`, with `size`, `paths`, `pieces` and `value`; `Defines.unfold`.
* `Defines.nodup_of_mem_paths`: no name is expanded within its own expansion.
* `flat_resolution_ends`: what resolving comes to.
-/

namespace DiceNotation

/-- A text holds neither triggers nor groups. -/
def Text.IsFlat (t : Text) : Prop := '&' ∉ t ∧ '(' ∉ t ∧ ')' ∉ t

instance (t : Text) : Decidable t.IsFlat := inferInstanceAs (Decidable (_ ∧ _ ∧ _))

/-- All defines stand for texts without triggers and groups. -/
def Defines.IsFlat (d : Defines) : Prop := ∀ e ∈ d.entries, Text.IsFlat e.2

instance (d : Defines) : Decidable d.IsFlat := inferInstanceAs (Decidable (∀ e ∈ d.entries, _))

theorem Text.IsFlat.isPlain {t : Text} (h : t.IsFlat) : ∀ c ∈ t, Group.isPlain c = true := by
  intro c hc
  refine Group.isPlain_iff.mpr ⟨?_, ?_⟩
  · rintro rfl
    exact h.2.1 hc
  · rintro rfl
    exact h.2.2 hc

theorem Defines.IsFlat.macros_eq_nil {d : Defines} (h : d.IsFlat) : d.macros = [] :=
  List.eq_nil_iff_forall_not_mem.mpr fun e he =>
    (h e (Defines.mem_macros.mp he).1).1 (Defines.mem_macros.mp he).2

/-! ## Unfoldings -/

/-- A text with the defines in it expanded. -/
inductive Unfolding where
  | nil
  /-- Text that stands as it is. -/
  | text (t : Text) (rest : Unfolding)
  /-- A name, and the unfolding of what it stands for. -/
  | expanded (name : Text) (inside rest : Unfolding)
  deriving DecidableEq, Repr

namespace Unfolding

/-- How many names are expanded. -/
def size : Unfolding → Nat
  | nil => 0
  | text _ rest => rest.size
  | expanded _ inside rest => inside.size + 1 + rest.size

/-- The names that are expanded on the way to each end of the tree, from the top. -/
def paths : Unfolding → List (List Text)
  | nil => [[]]
  | text _ rest => rest.paths
  | expanded name inside rest => inside.paths.map (name :: ·) ++ rest.paths

/-- The pieces that an unfolding is made of. -/
def pieces : Unfolding → Pieces
  | nil => .nil
  | text t rest => .text t rest.pieces
  | expanded _ inside rest => .define inside.pieces rest.pieces

/-- The text of an unfolding, in which the value of each define is folded. -/
def value : Unfolding → Except ArithError Text
  | nil => .ok []
  | text t rest => do
    let rest ← rest.value
    return t ++ rest
  | expanded _ inside rest => do
    let value ← inside.value
    let value ← NumberRun.foldNumbers value
    let rest ← rest.value
    return value ++ rest

end Unfolding

namespace Defines

variable {d : Defines} {above : List Text}

/-- The name that a run is, and what it stands for, unless it is being expanded. -/
def expansion? (d : Defines) (above : List Text) : Text.Run → Option (Text × Text)
  | .word w => if Text.isName w ∧ w ∉ above then (d.get? w).map fun value => (w, value) else none
  | .gap _ => none

theorem expansion?_eq_some_iff {r : Text.Run} {name value : Text} :
    d.expansion? above r = some (name, value) ↔
      r = .word name ∧ Text.isName name = true ∧ name ∉ above ∧ d.get? name = some value := by
  cases r with
  | gap g => simp [expansion?]
  | word w =>
    by_cases hw : Text.isName w = true ∧ w ∉ above
    · rw [expansion?, if_pos hw]
      constructor
      · intro h
        obtain ⟨v, hv, heq⟩ := Option.map_eq_some_iff.mp h
        obtain ⟨rfl, rfl⟩ := Prod.mk.inj heq
        exact ⟨rfl, hw.1, hw.2, hv⟩
      · rintro ⟨heq, -, -, hv⟩
        obtain rfl := Text.Run.word.inj heq
        rw [hv]
        rfl
    · rw [expansion?, if_neg hw]
      constructor
      · exact nofun
      · rintro ⟨heq, hname, habove, -⟩
        obtain rfl := Text.Run.word.inj heq
        exact absurd ⟨hname, habove⟩ hw

/-- How many defines are not being expanded. -/
def unused (d : Defines) (above : List Text) : Nat :=
  (d.entries.filter fun e => e.1 ∉ above).length

/-- **One define fewer can be expanded within an expansion.** -/
theorem unused_cons_lt {name value : Text} (habove : name ∉ above)
    (hvalue : d.get? name = some value) : d.unused (name :: above) < d.unused above := by
  have hfilter : d.entries.filter (fun e => e.1 ∉ name :: above) =
      (d.entries.filter fun e => e.1 ∉ above).filter fun e => e.1 ≠ name := by
    simp [List.filter_filter, not_or]
  unfold unused
  rw [hfilter]
  refine List.length_filter_lt_length_iff_exists.mpr ⟨(name, value), ?_, by simp⟩
  exact List.mem_filter.mpr ⟨mem_entries_of_get? hvalue, by simpa using habove⟩

/-- The unfolding of runs, where some names are being expanded above them. -/
def unfold (d : Defines) (above : List Text) : List Text.Run → Unfolding
  | [] => .nil
  | r :: rs =>
    match _h : d.expansion? above r with
    | none => .text r.text (d.unfold above rs)
    | some (name, value) =>
      .expanded name (d.unfold (name :: above) (Text.runs value)) (d.unfold above rs)
termination_by rs => (d.unused above, rs.length)
decreasing_by
  · exact Prod.Lex.right _ (Nat.lt_succ_self _)
  · obtain ⟨-, -, habove, hvalue⟩ := expansion?_eq_some_iff.mp _h
    exact Prod.Lex.left _ _ (unused_cons_lt habove hvalue)
  · exact Prod.Lex.right _ (Nat.lt_succ_self _)

/-- The unfolding of a text. -/
def unfolding (d : Defines) (t : Text) : Unfolding := d.unfold [] (Text.runs t)

theorem unfold_cons_of_none {r : Text.Run} {rs : List Text.Run}
    (h : d.expansion? above r = none) :
    d.unfold above (r :: rs) = .text r.text (d.unfold above rs) := by
  rw [unfold]
  split
  · rfl
  · next heq => exact nomatch h.symm.trans heq

theorem unfold_cons_of_some {r : Text.Run} {rs : List Text.Run} {name value : Text}
    (h : d.expansion? above r = some (name, value)) :
    d.unfold above (r :: rs) =
      .expanded name (d.unfold (name :: above) (Text.runs value)) (d.unfold above rs) := by
  rw [unfold]
  split
  · next heq => exact nomatch h.symm.trans heq
  · next heq =>
    obtain ⟨rfl, rfl⟩ := Prod.mk.inj (Option.some.inj (h.symm.trans heq))
    rfl

/-- **No name is expanded within its own expansion.** -/
theorem nodup_of_mem_paths {rs : List Text.Run} {path : List Text}
    (h : path ∈ (d.unfold above rs).paths) : path.Nodup ∧ ∀ name ∈ path, name ∉ above := by
  fun_induction unfold d above rs generalizing path with
  | case1 above =>
    obtain rfl := List.mem_singleton.mp h
    exact ⟨List.nodup_nil, fun _ hname => nomatch hname⟩
  | case2 above r rs hnone ih => exact ih h
  | case3 above r rs name value hsome ihinside ihrest =>
    rcases List.mem_append.mp h with h | h
    · obtain ⟨path, hpath, rfl⟩ := List.mem_map.mp h
      obtain ⟨hnodup, hfresh⟩ := ihinside hpath
      obtain ⟨-, -, habove, -⟩ := expansion?_eq_some_iff.mp hsome
      refine ⟨List.nodup_cons.mpr ⟨fun hname => hfresh name hname List.mem_cons_self, hnodup⟩, ?_⟩
      refine List.forall_mem_cons.mpr ⟨habove, fun other hother hmem => ?_⟩
      exact hfresh other hother (List.mem_cons_of_mem name hmem)
    · exact ihrest h

end Defines

/-! ## Taking texts apart -/

namespace Resolution

open Tallying

variable {c : Config} {d : Defines} {down : Nat → List Text → Text → Tallying Pieces}
  {depth n : Nat} {used : List Text}

/-- The pieces of an unfolding and the count after it, if its expansions are within the limit. -/
def counted (c : Config) (n : Nat) (u : Unfolding) : Except Halt (Pieces × Nat) :=
  if n + u.size ≤ c.maxExpansions then .ok (u.pieces, n + u.size)
  else .error (.failed (.expansionLimit c.maxExpansions))

theorem counted_of_le {u : Unfolding} (h : n + u.size ≤ c.maxExpansions) :
    counted c n u = .ok (u.pieces, n + u.size) := if_pos h

theorem counted_of_lt {u : Unfolding} (h : c.maxExpansions < n + u.size) :
    counted c n u = .error (.failed (.expansionLimit c.maxExpansions)) := if_neg (Nat.not_le.mpr h)

/-- A run that is not expanded is text. -/
theorem assembled_of_none {r : Text.Run} (h : d.expansion? used r = none) (atoms : List Atom) :
    assembled c d down depth used (Atom.ofRun r :: atoms) =
      assembled c d down depth used atoms >>= fun rest => pure (.text r.text rest) := by
  cases r with
  | gap g => rfl
  | word w =>
    by_cases hw : Text.isName w = true
    · have hfound : (if used.contains w then none else d.get? w) = none := by
        simpa [Defines.expansion?, hw, imp_iff_not_or] using h
      rw [Atom.ofRun_of_isName hw, assembled, hfound]
      rfl
    · rw [Atom.ofRun_of_not_isName hw]
      rfl

/-- A run that is expanded is counted, and its value is taken apart. -/
theorem assembled_of_some {r : Text.Run} {name value : Text}
    (h : d.expansion? used r = some (name, value)) (atoms : List Atom) :
    assembled c d down depth used (Atom.ofRun r :: atoms) =
      tally c >>= fun _ => down depth (name :: used) value >>= fun inner =>
        assembled c d down depth used atoms >>= fun rest => pure (.define inner rest) := by
  obtain ⟨rfl, hname, hused, hvalue⟩ := Defines.expansion?_eq_some_iff.mp h
  have hfound : (if used.contains name then none else d.get? name) = some value := by
    simpa [hused] using hvalue
  rw [Atom.ofRun_of_isName hname, assembled, hfound]

section Steps

variable {x y : Tallying Pieces} {u v : Unfolding}

/-- Text before pieces that are counted. -/
theorem counted_text (h : x.run n = counted c n u) (t : Text) :
    (x >>= fun rest => pure (.text t rest)).run n = counted c n (.text t u) := by
  by_cases hle : n + u.size ≤ c.maxExpansions
  · rw [counted_of_le hle] at h
    rw [run_bind_of_ok h]
    exact (counted_of_le (u := .text t u) hle).symm
  · have hlt := Nat.not_le.mp hle
    rw [counted_of_lt hlt] at h
    rw [run_bind_of_error h]
    exact (counted_of_lt (u := .text t u) hlt).symm

/-- A define, which has been counted, before pieces that are counted. -/
theorem counted_expanded (name : Text) (hinside : x.run (n + 1) = counted c (n + 1) u)
    (hrest : ∀ m, n < m → m ≤ c.maxExpansions → y.run m = counted c m v) :
    (x >>= fun inner => y >>= fun rest => pure (.define inner rest)).run (n + 1) =
      counted c n (.expanded name u v) := by
  have hsize : n + (Unfolding.expanded name u v).size = n + 1 + u.size + v.size := by
    simp only [Unfolding.size]
    omega
  by_cases hle : n + 1 + u.size ≤ c.maxExpansions
  · have hrest := hrest _ (by omega) hle
    rw [counted_of_le hle] at hinside
    rw [run_bind_of_ok hinside]
    by_cases hle' : n + 1 + u.size + v.size ≤ c.maxExpansions
    · rw [counted_of_le hle'] at hrest
      rw [run_bind_of_ok hrest, counted_of_le (hsize ▸ hle'), hsize]
      rfl
    · have hlt := Nat.not_le.mp hle'
      rw [counted_of_lt hlt] at hrest
      rw [run_bind_of_error hrest, counted_of_lt (hsize ▸ hlt)]
  · have hlt := Nat.not_le.mp hle
    rw [counted_of_lt hlt] at hinside
    rw [run_bind_of_error hinside, counted_of_lt (by omega)]

end Steps

/-- **The pieces of runs are those of their unfolding**, and the limit is exceeded exactly if the
unfolding has more expansions than are left, when this is known of the values of defines. -/
theorem run_assembled_of_flat (hn : n ≤ c.maxExpansions) (rs : List Text.Run)
    (hdown : ∀ m name value, n < m → m ≤ c.maxExpansions → d.get? name = some value →
      (down depth (name :: used) value).run m =
        counted c m (d.unfold (name :: used) (Text.runs value))) :
    (assembled c d down depth used (rs.map Atom.ofRun)).run n = counted c n (d.unfold used rs) := by
  induction rs generalizing n with
  | nil =>
    rw [Defines.unfold, counted_of_le hn]
    rfl
  | cons r rs ih =>
    rw [List.map_cons]
    cases hr : d.expansion? used r with
    | none =>
      rw [assembled_of_none hr, Defines.unfold_cons_of_none hr]
      exact counted_text (ih hn hdown) r.text
    | some found =>
      obtain ⟨name, value⟩ := found
      obtain ⟨-, -, -, hvalue⟩ := Defines.expansion?_eq_some_iff.mp hr
      rw [assembled_of_some hr, Defines.unfold_cons_of_some hr]
      have htally := run_tally c n
      by_cases hroom : n + 1 ≤ c.maxExpansions
      · rw [if_neg (Nat.not_lt.mpr hroom)] at htally
        rw [run_bind_of_ok htally]
        refine counted_expanded name (hdown _ name value (Nat.lt_succ_self n) hroom hvalue)
          fun m hnm hm => ih hm fun k name value hmk => ?_
        exact hdown k name value (Nat.lt_trans hnm hmk)
      · have hlt := Nat.not_le.mp hroom
        rw [if_pos hlt] at htally
        rw [run_bind_of_error htally, counted_of_lt (by simp only [Unfolding.size]; omega)]

/-- **A text without triggers and groups is taken apart into the pieces of its unfolding**, or the
limit is exceeded. -/
theorem run_apart_of_flat (hd : d.IsFlat) {path : Nat} {t : Text} (ht : t.IsFlat)
    (hn : n ≤ c.maxExpansions) (hpath : c.maxExpansions - n < path) :
    (apart c d path 0 used t).run n = counted c n (d.unfold used (Text.runs t)) := by
  induction path generalizing n used t with
  | zero => exact absurd hpath (Nat.not_lt_zero _)
  | succ path ih =>
    rw [run_apart (Nat.zero_le c.maxDepth) (atoms?_of_plain ht.isPlain)]
    refine run_assembled_of_flat hn (Text.runs t) fun m name value hnm hm hvalue => ?_
    have hflat : value.IsFlat := hd _ (Defines.mem_entries_of_get? hvalue)
    exact ih hflat hm (by omega)

variable {ρ : Type} {s : Session ρ}

/-- The tree of a text without triggers and groups. -/
theorem run_tree_of_flat (again : Reentry ρ) (hd : s.defines.IsFlat) {t : Text} (ht : t.IsFlat) :
    tree again t s =
      Turn.ofExcept (if s.config.maxExpansions < (s.defines.unfolding t).size then
        .error (.expansionLimit s.config.maxExpansions)
      else .ok (s.defines.unfolding t).pieces) s := by
  have hrun : (apart s.config s.defines (pathBound s.config) 0 [] t).run 0 =
      counted s.config 0 (s.defines.unfolding t) :=
    run_apart_of_flat hd ht (Nat.zero_le _) (by unfold pathBound; omega)
  rw [run_tree_of_plain again hd.macros_eq_nil ht.1, hrun]
  by_cases hle : (s.defines.unfolding t).size ≤ s.config.maxExpansions
  · rw [counted_of_le (by omega), if_neg (Nat.not_lt.mpr hle)]
    rfl
  · have hlt := Nat.not_le.mp hle
    rw [counted_of_lt (by omega), if_pos hlt]
    rfl

end Resolution

/-! ## What resolving comes to -/

variable {ρ : Type}

/-- A turn that only answers fails if its answer is an error. -/
theorem Turn.ofExcept_eq_error_iff {α : Type} {x : Except RollError α} {e : RollError}
    {s s' : Session ρ} :
    Turn.ofExcept x s = .error (.failed e) s' ↔ x = .error e ∧ s' = s := by
  cases x with
  | ok a => exact ⟨nofun, nofun⟩
  | error e' =>
    constructor
    · intro h
      obtain ⟨he, rfl⟩ := EStateM.Result.error.inj h
      exact ⟨congrArg Except.error (Halt.failed.inj he), rfl⟩
    · rintro ⟨h, rfl⟩
      obtain rfl := Except.error.inj h
      rfl

/-- Steps that fail for arithmetic alone, one after another. -/
theorem Turn.bind_of_arith {α β : Type} {s : Session ρ} {x : Turn ρ α} {y : Except ArithError α}
    {f : α → Turn ρ β} {g : α → Except ArithError β}
    (hx : x s = Turn.ofExcept (y.mapError .arith) s)
    (hf : ∀ a, f a s = Turn.ofExcept ((g a).mapError .arith) s) :
    (x >>= f) s = Turn.ofExcept ((y >>= g).mapError .arith) s := by
  cases y with
  | ok a => exact (Turn.bind_of_ok f hx).trans (hf a)
  | error e => exact Turn.bind_of_error f hx

variable [Roller ρ]

/-- Unfolded text is only folded. -/
theorem Resolution.flatten_pieces (u : Unfolding) (s : Session ρ) :
    flatten u.pieces s = Turn.ofExcept (u.value.mapError .arith) s := by
  induction u with
  | nil => rfl
  | text t rest ih => exact Turn.bind_of_arith ih fun _ => rfl
  | expanded name inside rest ihinside ihrest =>
    exact Turn.bind_of_arith ihinside fun _ => Turn.bind_of_arith rfl fun _ =>
      Turn.bind_of_arith ihrest fun _ => rfl

/-- What an unfolding comes to, when so many expansions are allowed. -/
def Unfolding.resolved (maxExpansions : Nat) (u : Unfolding) : Except RollError Text :=
  if maxExpansions < u.size then .error (.expansionLimit maxExpansions)
  else (u.value >>= NumberRun.foldNumbers).mapError .arith

theorem Unfolding.resolved_eq_expansionLimit_iff {u : Unfolding} {maxExpansions : Nat} :
    (∃ limit, u.resolved maxExpansions = .error (.expansionLimit limit)) ↔
      maxExpansions < u.size := by
  unfold resolved
  split
  · next h => exact ⟨fun _ => h, fun _ => ⟨_, rfl⟩⟩
  · next h =>
    refine ⟨?_, fun hlt => absurd hlt h⟩
    rintro ⟨limit, heq⟩
    cases hvalue : u.value >>= NumberRun.foldNumbers with
    | ok v => exact nomatch hvalue ▸ heq
    | error e => exact nomatch hvalue ▸ heq

/-- **Resolving a text without triggers and groups ends**, with what its unfolding comes to, and
leaves the session as it is, if no define holds triggers or groups either.  It fails with
`ExpansionLimit` exactly if the unfolding has more expansions than are allowed, and no name is
expanded within its own expansion. -/
theorem flat_resolution_ends {s : Session ρ} {t : Text} (hd : s.defines.IsFlat) (ht : t.IsFlat) :
    Turn.resolve t s =
      Turn.ofExcept ((s.defines.unfolding t).resolved s.config.maxExpansions) s ∧
    ((∃ limit s', Turn.resolve t s = .error (.failed (.expansionLimit limit)) s') ↔
      s.config.maxExpansions < (s.defines.unfolding t).size) ∧
    ∀ path ∈ (s.defines.unfolding t).paths, path.Nodup := by
  have hresolve : Turn.resolve t s =
      Turn.ofExcept ((s.defines.unfolding t).resolved s.config.maxExpansions) s := by
    have htree := Resolution.run_tree_of_flat (reentry (reach s.config)) hd ht
    rw [Turn.resolve_eq]
    unfold Resolution.resolve Unfolding.resolved
    split
    · next hlt =>
      rw [if_pos hlt] at htree
      exact Turn.bind_of_error _ htree
    · next hle =>
      rw [if_neg hle] at htree
      rw [Turn.bind_of_ok _ htree]
      exact Turn.bind_of_arith (Resolution.flatten_pieces _ s) fun _ => rfl
  refine ⟨hresolve, ?_, fun path hpath => (Defines.nodup_of_mem_paths hpath).1⟩
  rw [← Unfolding.resolved_eq_expansionLimit_iff, hresolve]
  simp only [Turn.ofExcept_eq_error_iff, exists_and_left, exists_eq, and_true]

/-- A name that stands for itself and for another one, which stands for the first one twice: the
unfolding has three expansions, and with two allowed this is too many. -/
theorem flat_resolution_ends_of_cycle :
    let s := (Session.start { maxExpansions := 2 } (Scripted.mk [])).define
      [("a".toList, "a + b".toList), ("b".toList, "a + c + a".toList), ("c".toList, "1".toList)]
    s.defines.IsFlat ∧ Text.IsFlat "2 * a".toList ∧
    (s.defines.unfolding "2 * a".toList).size = 3 ∧
    Turn.resolve "2 * a".toList s = .error (.failed (.expansionLimit 2)) s := by
  intro s
  have hd : s.defines.IsFlat := by decide
  have ht : Text.IsFlat "2 * a".toList := by decide
  have hsize : (s.defines.unfolding "2 * a".toList).size = 3 := by cbv
  refine ⟨hd, ht, hsize, ?_⟩
  rw [(flat_resolution_ends hd ht).1]
  unfold Unfolding.resolved
  rw [hsize]
  rfl

end DiceNotation
