import DiceNotation.Proofs.Dismantling
import DiceNotation.Resolution.Arena

/-!
# The tree of a text as an arena

Taking a text apart into an arena gives the nodes that its pieces are laid out as, and putting the
arena together again is flattening the pieces (`Arena.resolve_eq`).  So what holds of laid out
pieces holds of resolution.

Laid out pieces are a tree.  The nodes of the inside of a piece come first, then the node of the
inside itself, and the nodes of the pieces after it come last; so the nodes of pieces are a stretch
of the arena, and each node of the stretch is referred to once, by a later one or by the pieces
themselves (`Arena.perm_children_lay`).

* `Pieces.lay`, `Pieces.plant`, `Arena.run_grow`, `Arena.tree_eq`: the arena of a text.
* `Arena.Sits`, `Arena.spell_lay`, `Arena.resolve_eq`: what an arena is put together to.
* `Arena.IsTree`, `Arena.PointsBack`, `Arena.isTree_plant`: the ids of laid out pieces.
-/

namespace DiceNotation

variable {ρ : Type}

/-! ## Laying pieces out -/

/-- The links of pieces at a depth, and the nodes under them when the first of these is at `start`. -/
def Pieces.lay (depth : Nat) : Pieces → (start : Nat) → List Link × Arena
  | .nil, _ => ([], [])
  | .text t rest, start => (Link.addText t (lay depth rest start).1, (lay depth rest start).2)
  | .group inner rest, start =>
    let below := lay (depth + 1) inner start
    let child := start + below.2.length
    let after := lay depth rest (child + 1)
    (.group child :: after.1, below.2 ++ ⟨depth + 1, below.1⟩ :: after.2)
  | .define inner rest, start =>
    let below := lay depth inner start
    let child := start + below.2.length
    let after := lay depth rest (child + 1)
    (.define child :: after.1, below.2 ++ ⟨depth, below.1⟩ :: after.2)

/-- The root of pieces in an arena, and the arena with their nodes. -/
def Pieces.plant (depth : Nat) (p : Pieces) (a : Arena) : Nat × Arena :=
  let laid := p.lay depth a.length
  (a.length + laid.2.length, a ++ (laid.2 ++ [⟨depth, laid.1⟩]))

/-- The inside of a group is planted before the pieces after it are laid out. -/
theorem Pieces.lay_group (depth : Nat) (inner rest : Pieces) (a : Arena) :
    let planted := inner.plant (depth + 1) a
    ((group inner rest).lay depth a.length).1 =
        .group planted.1 :: (rest.lay depth planted.2.length).1 ∧
      a ++ ((group inner rest).lay depth a.length).2 =
        planted.2 ++ (rest.lay depth planted.2.length).2 := by
  simp only [lay, plant, List.length_append, List.length_singleton, List.append_assoc,
    List.singleton_append, Nat.add_assoc, and_self]

theorem Pieces.lay_define (depth : Nat) (inner rest : Pieces) (a : Arena) :
    let planted := inner.plant depth a
    ((define inner rest).lay depth a.length).1 =
        .define planted.1 :: (rest.lay depth planted.2.length).1 ∧
      a ++ ((define inner rest).lay depth a.length).2 =
        planted.2 ++ (rest.lay depth planted.2.length).2 := by
  simp only [lay, plant, List.length_append, List.length_singleton, List.append_assoc,
    List.singleton_append, Nat.add_assoc, and_self]

namespace Arena

section Growing

variable {α β γ : Type} {a : Arena}

theorem run_liftM_bind (x : Expanding ρ α) (f : α → Growing ρ β) (a : Arena) :
    (liftM x >>= f).run a = x >>= fun v => (f v).run a := by
  rw [StateT.run_bind, StateT.run_monadLift, bind_assoc]
  exact bind_congr fun v => pure_bind _ _

/-- A step that only adds to the arena what a computation without an arena comes to. -/
theorem run_bind_of_eq_map {x : Growing ρ β} {y : Expanding ρ α} {add : α → β × Arena}
    (h : x.run a = add <$> y) (f : β → Growing ρ γ) :
    (x >>= f).run a = y >>= fun v => (f (add v).1).run (add v).2 := by
  rw [StateT.run_bind, h, bind_map_left]

theorem run_push (node : Node) (a : Arena) :
    (push node : Growing ρ Nat).run a = pure (a.length, a ++ [node]) := rfl

end Growing

/-- The links of atoms are those of their pieces. -/
theorem run_attach {grow : Nat → List Text → Text → Growing ρ Nat}
    {build : Nat → List Text → Text → Expanding ρ Pieces}
    (hgrow : ∀ depth used t a, (grow depth used t).run a =
      (fun p => Pieces.plant depth p a) <$> build depth used t)
    (depth : Nat) (used : List Text) (atoms : List Atom) (a : Arena) :
    (attach grow depth used atoms).run a =
      (fun p => ((Pieces.lay depth p a.length).1, a ++ (Pieces.lay depth p a.length).2)) <$>
        Resolution.assemble build depth used atoms := by
  induction atoms generalizing a with
  | nil =>
    rw [attach, Resolution.assemble, StateT.run_pure, map_pure, Pieces.lay, List.append_nil]
  | cons atom atoms ih =>
    have htext : ∀ t : Text,
        (attach grow depth used atoms >>= fun rest => pure (Link.addText t rest)).run a =
          (fun p => ((Pieces.lay depth p a.length).1, a ++ (Pieces.lay depth p a.length).2)) <$>
            (Resolution.assemble build depth used atoms >>= fun rest => pure (.text t rest)) := by
      intro t
      rw [run_bind_of_eq_map (ih a), map_bind]
      refine bind_congr fun rest => ?_
      rw [StateT.run_pure, map_pure, Pieces.lay]
    cases atom with
    | group inner =>
      rw [attach, Resolution.assemble, run_bind_of_eq_map (hgrow _ _ _ _), map_bind]
      refine bind_congr fun p => ?_
      rw [run_bind_of_eq_map (ih _), map_bind]
      refine bind_congr fun rest => ?_
      obtain ⟨hlinks, hnodes⟩ := Pieces.lay_group depth p rest a
      rw [StateT.run_pure, map_pure, hlinks, hnodes]
    | other t => exact htext t
    | name n =>
      rw [attach, Resolution.assemble, run_liftM_bind, map_bind]
      refine bind_congr fun s => ?_
      dsimp only
      cases (if used.contains n then none else s.defines.get? n) with
      | none => exact htext n
      | some value =>
        dsimp only
        rw [run_liftM_bind, map_bind]
        refine bind_congr fun _ => ?_
        rw [run_bind_of_eq_map (hgrow _ _ _ _), map_bind]
        refine bind_congr fun p => ?_
        rw [run_bind_of_eq_map (ih _), map_bind]
        refine bind_congr fun rest => ?_
        obtain ⟨hlinks, hnodes⟩ := Pieces.lay_define depth p rest a
        rw [StateT.run_pure, map_pure, hlinks, hnodes]

/-- **The node of a text is that of its pieces**, which are planted once they are known. -/
theorem run_grow (again : Reentry ρ) (path depth : Nat) (used : List Text) (t : Text) (a : Arena) :
    (grow again path depth used t).run a =
      (fun p => Pieces.plant depth p a) <$> Resolution.build again path depth used t := by
  induction path generalizing depth used t a with
  | zero =>
    rw [grow, Resolution.build, StateT.run_monadLift]
    rfl
  | succ path ih =>
    rw [grow, Resolution.build, run_liftM_bind, map_bind]
    refine bind_congr fun s => ?_
    split
    · rw [StateT.run_monadLift]
      rfl
    rw [run_liftM_bind, map_bind]
    refine bind_congr fun atoms => ?_
    rw [run_liftM_bind, map_bind]
    refine bind_congr fun s => ?_
    cases Atom.splice? s.defines used atoms with
    | some found =>
      dsimp only
      rw [run_liftM_bind, map_bind]
      refine bind_congr fun _ => ?_
      rw [ih]
    | none =>
      dsimp only
      rw [run_bind_of_eq_map (run_attach ih depth used atoms a), map_eq_pure_bind]
      refine bind_congr fun p => ?_
      rw [run_push, Pieces.plant, List.length_append, List.append_assoc]

/-- The arena of a text is that of its tree. -/
theorem tree_eq (again : Reentry ρ) (t : Text) :
    tree again t = (fun p => Pieces.plant 0 p []) <$> Resolution.tree again t := by
  rw [tree, Resolution.tree, map_bind]
  refine bind_congr fun s => ?_
  rw [run_grow, StateT.run_map, bind_map_left, map_bind]
  refine bind_congr fun p => ?_
  rw [map_pure]

/-! ## Putting arenas together -/

/-- Nodes are found in an arena, the first of them at a place. -/
def Sits (a : Arena) (start : Nat) (nodes : Arena) : Prop :=
  ∃ front back, a = front ++ (nodes ++ back) ∧ front.length = start

section Sits

variable {a nodes nodes' : Arena} {start : Nat} {node : Node}

theorem Sits.left (h : Sits a start (nodes ++ nodes')) : Sits a start nodes := by
  obtain ⟨front, back, rfl, hfront⟩ := h
  exact ⟨front, nodes' ++ back, by rw [List.append_assoc], hfront⟩

theorem Sits.right (h : Sits a start (nodes ++ nodes')) :
    Sits a (start + nodes.length) nodes' := by
  obtain ⟨front, back, rfl, rfl⟩ := h
  exact ⟨front ++ nodes, back, by simp only [List.append_assoc], List.length_append⟩

theorem Sits.tail (h : Sits a start (node :: nodes)) : Sits a (start + 1) nodes := by
  have hcons : Sits a start ([node] ++ nodes) := h
  exact hcons.right

theorem Sits.getElem? (h : Sits a start (node :: nodes)) : a[start]? = some node := by
  obtain ⟨front, back, rfl, rfl⟩ := h
  rw [List.getElem?_append_right (Nat.le_refl _), Nat.sub_self]
  rfl

end Sits

section Spelling

variable [Roller ρ] {a : Arena}

theorem spell_addText (down : Nat → Turn ρ Text) (t : Text) (links : List Link) :
    spell down (Link.addText t links) = (t ++ ·) <$> spell down links := by
  have hempty : ∀ links : List Link,
      spell down (if t.isEmpty then links else .text t :: links) =
        (t ++ ·) <$> spell down links := by
    intro links
    split
    · next h =>
      rw [List.isEmpty_iff.mp h]
      exact (id_map _).symm
    · rw [spell, map_eq_pure_bind]
  cases links with
  | nil => exact hempty []
  | cons link links =>
    cases link with
    | text u =>
      rw [Link.addText, spell, spell, map_bind]
      refine bind_congr fun rest => ?_
      rw [map_pure, List.append_assoc]
    | group child => exact hempty _
    | define child => exact hempty _

theorem linearize_eq {bound id : Nat} {node : Node} (h : a[id]? = some node) :
    (linearize a (bound + 1) id : Turn ρ Text) =
      spell (linearize a bound) node.links >>= Resolution.fold := by
  rw [linearize, h]

/-- **The links of pieces are put together as the pieces are**, if all of the nodes can be
followed. -/
theorem spell_lay (p : Pieces) {depth start bound : Nat} (hsits : Sits a start (p.lay depth start).2)
    (hbound : start + (p.lay depth start).2.length ≤ bound) :
    (spell (linearize a bound) (p.lay depth start).1 : Turn ρ Text) = Resolution.flatten p := by
  induction p generalizing depth start bound with
  | nil => rfl
  | text t rest ih =>
    rw [Pieces.lay, spell_addText, ih hsits hbound, Resolution.flatten, map_eq_pure_bind]
  | group inner rest ihi ihr =>
    rw [Pieces.lay] at hsits hbound ⊢
    simp only [List.length_append, List.length_cons] at hbound
    obtain ⟨bound, rfl⟩ : ∃ n, bound = n + 1 := ⟨bound - 1, by omega⟩
    dsimp only
    rw [spell, Resolution.flatten, linearize_eq hsits.right.getElem?,
      ihi hsits.left (by omega), bind_assoc]
    refine bind_congr fun code => bind_congr fun code => bind_congr fun roll => ?_
    rw [ihr hsits.right.tail (by omega)]
  | define inner rest ihi ihr =>
    rw [Pieces.lay] at hsits hbound ⊢
    simp only [List.length_append, List.length_cons] at hbound
    obtain ⟨bound, rfl⟩ : ∃ n, bound = n + 1 := ⟨bound - 1, by omega⟩
    dsimp only
    rw [spell, Resolution.flatten, linearize_eq hsits.right.getElem?,
      ihi hsits.left (by omega), bind_assoc]
    refine bind_congr fun value => bind_congr fun value => ?_
    rw [ihr hsits.right.tail (by omega)]

theorem sits_plant (depth : Nat) (p : Pieces) :
    Sits (p.plant depth []).2 0 ((p.lay depth 0).2 ++ [⟨depth, (p.lay depth 0).1⟩]) :=
  ⟨[], [], (List.append_nil _).symm, rfl⟩

/-- The root of planted pieces is put together as the pieces are. -/
theorem linearize_plant (depth : Nat) (p : Pieces) :
    (linearize (p.plant depth []).2 (p.plant depth []).2.length (p.plant depth []).1 :
      Turn ρ Text) = Resolution.flatten p >>= Resolution.fold := by
  have hsits := sits_plant depth p
  have hlength : (p.plant depth []).2.length = (p.lay depth 0).2.length + 1 := by
    show ((p.lay depth 0).2 ++ [_]).length = _
    exact List.length_append
  rw [hlength]
  show linearize _ _ ((0 : Nat) + (p.lay depth 0).2.length) = _
  rw [linearize_eq hsits.right.getElem?, spell_lay p hsits.left (by rw [Nat.zero_add])]

/-- **Resolving by way of an arena is resolving.** -/
theorem resolve_eq (again : Reentry ρ) (t : Text) : resolve again t = Resolution.resolve again t := by
  rw [resolve, Resolution.resolve, tree_eq, bind_map_left]
  exact bind_congr fun p => linearize_plant 0 p

end Spelling

/-! ## Ids -/

/-- The nodes that a node refers to, once for each of its pieces that does. -/
def Node.children (node : Node) : List Nat := node.links.filterMap Link.child?

/-- How many pieces of nodes are groups. -/
def groups (a : Arena) : Nat := (a.flatMap Node.links).countP Link.isGroup

/-- An arena with its last node as a root: every node refers to earlier ones only, and of the
references in all pieces of all nodes one is to each node but the root, and none is to anything
else. -/
structure IsTree (a : Arena) (root : Nat) : Prop where
  length : a.length = root + 1
  child_lt : ∀ {id : Nat} {node : Node}, a[id]? = some node → ∀ child ∈ node.children, child < id
  references : ∀ id, (a.flatMap Node.children).count id = if id < root then 1 else 0

/-- Text before links refers to nothing. -/
theorem filterMap_addText (t : Text) (links : List Link) :
    (Link.addText t links).filterMap Link.child? = links.filterMap Link.child? := by
  unfold Link.addText
  split
  · rfl
  · split <;> rfl

/-- The nodes from a place on refer to nodes before them only. -/
def PointsBack : (start : Nat) → Arena → Prop
  | _, [] => True
  | start, node :: nodes => (∀ child ∈ node.children, child < start) ∧ PointsBack (start + 1) nodes

theorem PointsBack.append {start : Nat} {nodes nodes' : Arena} (h : PointsBack start nodes)
    (h' : PointsBack (start + nodes.length) nodes') : PointsBack start (nodes ++ nodes') := by
  induction nodes generalizing start with
  | nil => exact h'
  | cons node nodes ih =>
    refine ⟨h.1, ih h.2 ?_⟩
    rw [List.length_cons] at h'
    rwa [Nat.add_assoc, Nat.add_comm 1]

theorem PointsBack.child_lt {start : Nat} {nodes : Arena} (h : PointsBack start nodes) {i : Nat}
    {node : Node} (hnode : nodes[i]? = some node) : ∀ child ∈ node.children, child < start + i := by
  induction nodes generalizing start i with
  | nil => exact nomatch hnode
  | cons first nodes ih =>
    cases i with
    | zero =>
      obtain rfl := Option.some.inj hnode
      exact h.1
    | succ i =>
      rw [List.getElem?_cons_succ] at hnode
      intro child hchild
      have := ih h.2 hnode child hchild
      omega

/-- **The references of laid out pieces** are to each of their nodes, once. -/
theorem perm_children_lay (p : Pieces) (depth start : Nat) :
    ((p.lay depth start).2.flatMap Node.children ++
      (p.lay depth start).1.filterMap Link.child?).Perm
        (List.range' start (p.lay depth start).2.length) := by
  -- a piece with an inside refers to its node, which has the references that are left of the inside
  have hstep : ∀ {below after : List Link × Arena} {start depth : Nat},
      (below.2.flatMap Node.children ++ below.1.filterMap Link.child?).Perm
        (List.range' start below.2.length) →
      (after.2.flatMap Node.children ++ after.1.filterMap Link.child?).Perm
        (List.range' (start + below.2.length + 1) after.2.length) →
      ((below.2 ++ ⟨depth, below.1⟩ :: after.2).flatMap Node.children ++
        (start + below.2.length) :: after.1.filterMap Link.child?).Perm
          (List.range' start (below.2 ++ ⟨depth, below.1⟩ :: after.2).length) := by
    intro below after start depth hbelow hafter
    rw [List.flatMap_append, List.flatMap_cons, List.length_append, List.length_cons,
      ← List.range'_append_1, List.range'_succ]
    refine List.perm_middle.trans ?_
    rw [List.append_assoc, List.append_assoc, ← List.append_assoc (below.2.flatMap _)]
    refine List.Perm.trans ?_ List.perm_middle.symm
    exact (hbelow.append hafter).cons _
  induction p generalizing depth start with
  | nil => exact List.Perm.refl _
  | text t rest ih =>
    rw [Pieces.lay, filterMap_addText]
    exact ih depth start
  | group inner rest ihi ihr => exact hstep (ihi _ _) (ihr _ _)
  | define inner rest ihi ihr => exact hstep (ihi _ _) (ihr _ _)

/-- The links of laid out pieces refer to nodes before whatever comes next. -/
theorem child_lt_of_mem_lay {p : Pieces} {depth start child : Nat}
    (h : child ∈ (p.lay depth start).1.filterMap Link.child?) :
    child < start + (p.lay depth start).2.length := by
  have hmem := (perm_children_lay p depth start).subset (List.mem_append_right _ h)
  exact (List.mem_range'_1.mp hmem).2

theorem pointsBack_lay (p : Pieces) (depth start : Nat) :
    PointsBack start (p.lay depth start).2 := by
  induction p generalizing depth start with
  | nil => trivial
  | text t rest ih => exact ih depth start
  | group inner rest ihi ihr =>
    exact (ihi _ _).append ⟨fun _ hchild => child_lt_of_mem_lay hchild, ihr _ _⟩
  | define inner rest ihi ihr =>
    exact (ihi _ _).append ⟨fun _ hchild => child_lt_of_mem_lay hchild, ihr _ _⟩

/-- **Planted pieces are a tree.** -/
theorem isTree_plant (depth : Nat) (p : Pieces) :
    IsTree (p.plant depth []).2 (p.plant depth []).1 := by
  let nodes : Arena := (p.lay depth 0).2 ++ [⟨depth, (p.lay depth 0).1⟩]
  have hback : PointsBack 0 nodes :=
    (pointsBack_lay p depth 0).append ⟨fun _ hchild => child_lt_of_mem_lay hchild, trivial⟩
  have hperm : (nodes.flatMap Node.children).Perm (List.range' 0 (p.lay depth 0).2.length) := by
    rw [List.flatMap_append, List.flatMap_singleton]
    exact perm_children_lay p depth 0
  have hroot : (p.plant depth []).1 = (p.lay depth 0).2.length := Nat.zero_add _
  refine ⟨?_, fun hnode child hchild => ?_, fun id => ?_⟩
  · rw [hroot]
    show nodes.length = _
    exact List.length_append
  · have hlt := hback.child_lt hnode child hchild
    rwa [Nat.zero_add] at hlt
  · rw [show (p.plant depth []).2 = nodes from rfl, hperm.count_eq, hroot,
      List.Nodup.count List.nodup_range']
    simp only [List.mem_range'_1, Nat.zero_le, Nat.zero_add, true_and]

end Arena

end DiceNotation
