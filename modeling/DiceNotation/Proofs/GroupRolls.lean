import Mathlib
import DiceNotation.Proofs.Arenas
import DiceNotation.Proofs.Fallible

/-!
# Groups are rolled once

The groups of a text are the pieces of its tree that are rolled, and resolution rolls nothing else.
Ids are followed along the tree, so the inside of a group is put together and the group is rolled
when its id is followed, which is once.

Rolls are recorded as they are made.  `Arena.Rolls` says which they are for the links of a node: in
the order of the links, and those of the inside of a group before the one of the group, which is
rolled from what the inside comes to.

* `Session.Recorded`: a session in which rolls have been recorded and nothing else was done.
* `Arena.Rolls`, `Arena.exists_rolls_of_linearize`: the rolls of any arena.
* `Arena.Rolls.length_eq`: as many as there are groups, if the arena is laid out pieces.
* `groups_rolled_once`.
-/

namespace DiceNotation

variable {ρ : Type}

/-! ## Recording rolls -/

/-- The session after some rolls were recorded, in their order.  The cup may be another one. -/
def Session.Recorded (s : Session ρ) (rs : List Roll) (s' : Session ρ) : Prop :=
  s' = { s with cup := s'.cup, history := rs.foldl History.push s.history }

namespace Session.Recorded

variable {s u s' : Session ρ} {rs rs' : List Roll}

theorem refl (s : Session ρ) : s.Recorded [] s := rfl

theorem append (h : s.Recorded rs u) (h' : u.Recorded rs' s') : s.Recorded (rs ++ rs') s' := by
  unfold Recorded at h h' ⊢
  rw [h', h, List.foldl_append]

end Session.Recorded

variable [Roller ρ]

/-- Dice bear the code that asked for them. -/
theorem Dice.code_of_roll {code : Text} {spec : Spec} {c : Cup ρ} {d : Dice}
    (h : (roll code spec c).1 = .ok d) : d.code = code := by
  unfold roll rollCount at h
  split at h
  · split at h
    · cases h
    · dsimp only at h
      split at h
      · rw [← Except.ok.inj h]
        rfl
      · split at h
        · cases h
        · rw [← Except.ok.inj h]
          rfl
  · rw [← Except.ok.inj h]
    rfl
  · cases h

/-- **Rolling a code records the roll of this code**, and nothing else. -/
theorem recorded_of_rollCode {code : Text} {r : Roll} {s s' : Session ρ}
    (h : Turn.rollCode code s = .ok r s') :
    r.dice.code = Text.trim code ∧ s.Recorded [r] s' := by
  have hends := rollEnds_rollCode code s
  rw [h] at hends
  refine ⟨?_, by cases hends with | recorded => rfl⟩
  obtain ⟨p, spec, -, -, ⟨-, hdice⟩ | ⟨-, hdice⟩⟩ := exists_of_rollCode_eq_ok h
  · rw [hdice]
    rfl
  · exact Dice.code_of_roll hdice

/-! ## The rolls of an arena -/

namespace Arena

/-- The rolls of the groups in links and under them, and the text that the links come to. -/
inductive Rolls (a : Arena) : List Link → List Roll → Text → Prop where
  | nil : Rolls a [] [] []
  | text {t u : Text} {links : List Link} {rs : List Roll} (rest : Rolls a links rs u) :
    Rolls a (.text t :: links) rs (t ++ u)
  | define {child : Nat} {node : Node} {links : List Link} {rs rs' : List Roll} {t value u : Text}
    (hnode : a[child]? = some node) (inside : Rolls a node.links rs t)
    (hvalue : NumberRun.foldNumbers t = .ok value) (rest : Rolls a links rs' u) :
    Rolls a (.define child :: links) (rs ++ rs') (value ++ u)
  | group {child : Nat} {node : Node} {links : List Link} {rs rs' : List Roll} {r : Roll}
    {t code u : Text} (hnode : a[child]? = some node) (inside : Rolls a node.links rs t)
    (hcode : NumberRun.foldNumbers t = .ok code) (hr : r.dice.code = Text.trim code)
    (rest : Rolls a links rs' u) :
    Rolls a (.group child :: links) (rs ++ r :: rs') (Whole.render r.value ++ u)

/-- A node comes to a flat dice code, and these are the rolls of the groups under it. -/
def NodeRolls (a : Arena) (id : Nat) (rs : List Roll) (code : Text) : Prop :=
  ∃ node t, a[id]? = some node ∧ Rolls a node.links rs t ∧ NumberRun.foldNumbers t = .ok code

omit [Roller ρ] in
theorem exists_of_fold_eq_ok {t code : Text} {s s' : Session ρ}
    (h : Resolution.fold t s = .ok code s') : NumberRun.foldNumbers t = .ok code ∧ s' = s := by
  unfold Resolution.fold at h
  cases hfold : NumberRun.foldNumbers t with
  | error e =>
    rw [hfold] at h
    exact nomatch h
  | ok u =>
    rw [hfold] at h
    obtain ⟨rfl, rfl⟩ := EStateM.Result.ok.inj h
    exact ⟨rfl, rfl⟩

variable {a : Arena}

/-- Putting links together records the rolls of the groups in them and under them, if this is so
for every node. -/
theorem exists_rolls_of_spell {down : Nat → Turn ρ Text}
    (hdown : ∀ {id s code s'}, down id s = .ok code s' →
      ∃ rs, NodeRolls a id rs code ∧ s.Recorded rs s') {links : List Link} {u : Text}
    {s s' : Session ρ} (h : spell down links s = .ok u s') :
    ∃ rs, Rolls a links rs u ∧ s.Recorded rs s' := by
  induction links generalizing u s s' with
  | nil =>
    obtain ⟨rfl, rfl⟩ := EStateM.Result.ok.inj h
    exact ⟨[], .nil, .refl s⟩
  | cons link links ih =>
    cases link with
    | text t =>
      obtain ⟨rest, v, hrest, h⟩ := Turn.exists_of_bind_eq_ok h
      obtain ⟨rfl, rfl⟩ := EStateM.Result.ok.inj h
      obtain ⟨rs, hrolls, hrecorded⟩ := ih hrest
      exact ⟨rs, .text hrolls, hrecorded⟩
    | define child =>
      obtain ⟨value, v, hvalue, h⟩ := Turn.exists_of_bind_eq_ok h
      obtain ⟨rest, w, hrest, h⟩ := Turn.exists_of_bind_eq_ok h
      obtain ⟨rfl, rfl⟩ := EStateM.Result.ok.inj h
      obtain ⟨rs, ⟨node, t, hnode, hinside, hfold⟩, hrecorded⟩ := hdown hvalue
      obtain ⟨rs', hrolls, hrecorded'⟩ := ih hrest
      exact ⟨rs ++ rs', .define hnode hinside hfold hrolls, hrecorded.append hrecorded'⟩
    | group child =>
      obtain ⟨code, v, hcode, h⟩ := Turn.exists_of_bind_eq_ok h
      obtain ⟨r, w, hr, h⟩ := Turn.exists_of_bind_eq_ok h
      obtain ⟨rest, x, hrest, h⟩ := Turn.exists_of_bind_eq_ok h
      obtain ⟨rfl, rfl⟩ := EStateM.Result.ok.inj h
      obtain ⟨rs, ⟨node, t, hnode, hinside, hfold⟩, hrecorded⟩ := hdown hcode
      obtain ⟨hshown, hrecorded'⟩ := recorded_of_rollCode hr
      obtain ⟨rs', hrolls, hrecorded''⟩ := ih hrest
      exact ⟨rs ++ r :: rs', .group hnode hinside hfold hshown hrolls,
        hrecorded.append (hrecorded'.append hrecorded'')⟩

/-- **Putting a node together records the rolls of the groups under it**, inner groups before the
one around them and left before right. -/
theorem exists_rolls_of_linearize {bound id : Nat} {code : Text} {s s' : Session ρ}
    (h : linearize a bound id s = .ok code s') :
    ∃ rs, NodeRolls a id rs code ∧ s.Recorded rs s' := by
  induction bound generalizing id code s s' with
  | zero => cases h
  | succ bound ih =>
    cases hnode : a[id]? with
    | none =>
      rw [linearize, hnode] at h
      cases h
    | some node =>
      rw [linearize_eq hnode] at h
      obtain ⟨t, u, hspell, hfold⟩ := Turn.exists_of_bind_eq_ok h
      obtain ⟨hcode, rfl⟩ := exists_of_fold_eq_ok hfold
      obtain ⟨rs, hrolls, hrecorded⟩ := exists_rolls_of_spell ih hspell
      exact ⟨rs, ⟨node, t, hnode, hrolls, hcode⟩, hrecorded⟩

/-! ## How many there are -/

theorem countP_addText (t : Text) (links : List Link) :
    (Link.addText t links).countP Link.isGroup = links.countP Link.isGroup := by
  unfold Link.addText
  split
  · rfl
  · split <;> rfl

/-- Text before links is not rolled. -/
theorem Rolls.of_addText {t u : Text} {links : List Link} {rs : List Roll}
    (h : Rolls a (Link.addText t links) rs u) : ∃ u', Rolls a links rs u' := by
  have hempty : ∀ {links : List Link},
      Rolls a (if t.isEmpty then links else .text t :: links) rs u → ∃ u', Rolls a links rs u' := by
    intro links h
    cases ht : t.isEmpty with
    | true =>
      rw [ht, if_pos rfl] at h
      exact ⟨u, h⟩
    | false =>
      rw [ht, if_neg Bool.false_ne_true] at h
      cases h with
      | text rest => exact ⟨_, rest⟩
  cases links with
  | nil => exact hempty h
  | cons link links =>
    cases link with
    | text t' =>
      cases h with
      | text rest => exact ⟨_, .text rest⟩
    | group child => exact hempty h
    | define child => exact hempty h

omit [Roller ρ] in
theorem groups_append_cons (nodes nodes' : Arena) (node : Node) :
    groups (nodes ++ node :: nodes') =
      groups nodes + (node.links.countP Link.isGroup + groups nodes') := by
  unfold groups
  rw [List.flatMap_append, List.flatMap_cons, List.countP_append, List.countP_append]

/-- **Laid out pieces have as many rolls as groups.** -/
theorem Rolls.length_eq (p : Pieces) {depth start : Nat} {rs : List Roll} {u : Text}
    (hsits : Sits a start (p.lay depth start).2) (h : Rolls a (p.lay depth start).1 rs u) :
    rs.length = (p.lay depth start).1.countP Link.isGroup + groups (p.lay depth start).2 := by
  induction p generalizing depth start rs u with
  | nil =>
    cases h
    rfl
  | text t rest ih =>
    obtain ⟨u', h⟩ := Rolls.of_addText h
    rw [Pieces.lay, countP_addText]
    exact ih hsits h
  | group inner rest ihi ihr =>
    rw [Pieces.lay] at hsits h ⊢
    cases h with
    | group hnode inside hcode hr after =>
      obtain rfl := Option.some.inj (hnode.symm.trans hsits.right.getElem?)
      rw [groups_append_cons, List.countP_cons_of_pos rfl, List.length_append, List.length_cons,
        ihi hsits.left inside, ihr hsits.right.tail after]
      dsimp only
      omega
  | define inner rest ihi ihr =>
    rw [Pieces.lay] at hsits h ⊢
    cases h with
    | define hnode inside hvalue after =>
      obtain rfl := Option.some.inj (hnode.symm.trans hsits.right.getElem?)
      rw [groups_append_cons, List.countP_cons_of_neg Bool.false_ne_true, List.length_append,
        ihi hsits.left inside, ihr hsits.right.tail after]
      dsimp only
      omega

/-- The root of planted pieces has as many rolls as there are groups. -/
theorem NodeRolls.length_eq {depth : Nat} {p : Pieces} {rs : List Roll} {code : Text}
    (h : NodeRolls (p.plant depth []).2 (p.plant depth []).1 rs code) :
    rs.length = groups (p.plant depth []).2 := by
  obtain ⟨node, t, hnode, hrolls, -⟩ := h
  have hsits := sits_plant depth p
  have hroot := hsits.right.getElem?
  rw [show (p.plant depth []).1 = 0 + (p.lay depth 0).2.length from rfl] at hnode
  obtain rfl := Option.some.inj (hnode.symm.trans hroot)
  rw [Rolls.length_eq p hsits.left hrolls]
  show _ = groups ((p.lay depth 0).2 ++ [_])
  rw [groups_append_cons]
  exact Nat.add_comm _ _

end Arena

/-- **Each group is rolled once, and nothing else is done.**  When neither a text nor any define
holds triggers, taking the text apart leaves the session as it is, and what it comes to is a tree:
a node refers to earlier ones only, and every node but the root is referred to by one piece of one
node.  When the text resolves, as many rolls have been recorded as there are groups among the pieces
of all nodes, inner groups before the one around them and left before right; and apart from the
history and the cup the session is as it was. -/
theorem groups_rolled_once {s : Session ρ} {t : Text} (hmacros : s.defines.macros = [])
    (ht : '&' ∉ t) :
    let again := reentry (reach s.config)
    (∀ {root a s'}, Arena.tree again t s = .ok (root, a) s' → s' = s ∧ a.IsTree root) ∧
    ∀ {code s'}, Turn.resolve t s = .ok code s' →
      ∃ root a rs, Arena.tree again t s = .ok (root, a) s ∧ a.IsTree root ∧
        a.NodeRolls root rs code ∧ rs.length = a.groups ∧ s.Recorded rs s' := by
  intro again
  have htree : ∀ {root a s'}, Arena.tree again t s = .ok (root, a) s' →
      s' = s ∧ ∃ p : Pieces, (root, a) = p.plant 0 [] := by
    intro root a s' h
    rw [Arena.tree_eq, map_eq_pure_bind] at h
    obtain ⟨p, u, hp, h⟩ := Turn.exists_of_bind_eq_ok h
    obtain ⟨hplant, rfl⟩ := EStateM.Result.ok.inj h
    exact ⟨(Resolution.exists_of_tree_eq_ok hmacros ht hp).2, p, hplant.symm⟩
  refine ⟨fun h => ?_, fun {code s'} h => ?_⟩
  · obtain ⟨hs, p, hp⟩ := htree h
    obtain ⟨rfl, rfl⟩ := Prod.mk.inj hp
    exact ⟨hs, Arena.isTree_plant 0 p⟩
  · rw [Turn.resolve_eq, ← Arena.resolve_eq] at h
    obtain ⟨⟨root, a⟩, u, hgrown, hlinearize⟩ := Turn.exists_of_bind_eq_ok h
    obtain ⟨hs, p, hp⟩ := htree hgrown
    obtain rfl := hs
    obtain ⟨rs, hrolls, hrecorded⟩ := Arena.exists_rolls_of_linearize hlinearize
    obtain ⟨rfl, rfl⟩ := Prod.mk.inj hp
    exact ⟨_, _, rs, hgrown, Arena.isTree_plant 0 p, hrolls, hrolls.length_eq, hrecorded⟩

/-- A group in a group, and a group in a define after them, are rolled one after another. -/
theorem groups_rolled_once_in_define :
    let s := (Session.start {} (Scripted.mk [3, 5])).define [("x".toList, "(1d8g)".toList)]
    let t := "(2+(1d4g))d6 x".toList
    s.defines.macros = [] ∧ '&' ∉ t ∧
    ∃ s' root rs, ∃ a : Arena, Turn.resolve t s = .ok "5d6 5".toList s' ∧ a.IsTree root ∧
      a.NodeRolls root rs "5d6 5".toList ∧ rs.length = a.groups ∧ s.Recorded rs s' ∧
      s'.history.rolls.map (fun r => r.dice.code) = ["1d4g", "5", "1d8g"].map String.toList := by
  intro s t
  have hmacros : s.defines.macros = [] := by cbv
  have ht : '&' ∉ t := by decide
  have houtcome : (Turn.resolve t).outcome s = .ok "5d6 5".toList := by decide +kernel
  have hcodes : (Turn.after (Turn.resolve t) s).history.rolls.map (fun r => r.dice.code) =
      ["1d4g", "5", "1d8g"].map String.toList := by
    decide +kernel
  obtain ⟨code, s', hresolve, rfl⟩ :=
    Turn.exists_of_map_outcome_eq_ok (f := id) (by rw [houtcome]; rfl)
  obtain ⟨root, a, rs, -, htree, hrolls, hlength, hrecorded⟩ :=
    (groups_rolled_once hmacros ht).2 hresolve
  rw [Turn.after, hresolve] at hcodes
  exact ⟨hmacros, ht, s', root, rs, a, hresolve, htree, hrolls, hlength, hrecorded, hcodes⟩

end DiceNotation
