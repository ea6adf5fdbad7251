import DiceNotation.Proofs.Dismantling
import DiceNotation.Proofs.Splices

/-!
# A text in one more group

A text can be put in parentheses.  Its empty groups vanish as they did before
(`Group.parts?_group`), so that what is taken apart is one group with the same text inside,
and all of it is one level deeper.  The pieces do not change with the depth, unless a group is now
too deep: then taking the text apart ends with the limit (`Resolution.follows_apart`).  Which of the
two it is can be read off the pieces, by how deep groups nest in them; groups in the values of
defines count for this like those of the text.

* `Group.keepGroups_append`, `Group.dropEmptyGroups_append`: empty groups can vanish at any time.
* `Group.Orderly.closed`, `Group.parts?_group`, `Resolution.atoms?_group`: a text with parts as the
  inside of a group.
* `Pieces.nesting`, `Resolution.within`, `Resolution.Follows`; `Resolution.follows_apart`.
-/

namespace DiceNotation

/-! ## Empty groups in a part of a text -/

namespace Group

theorem keepGroups_append (kept a b : Text) :
    keepGroups kept (a ++ b) = keepGroups (keepGroups kept a).reverse b := by
  fun_induction keepGroups kept a with
  | case1 kept => rw [List.nil_append, List.reverse_reverse]
  | case2 t kept ih => exact ih
  | case3 t c kept hpair ih =>
    rw [List.cons_append, keepGroups]
    · exact ih
    · exact hpair

/-- What is kept of a text is kept as it would be if the whole text came at once. -/
theorem keepGroups_keepGroups (kept inner t : Text) :
    keepGroups kept (keepGroups inner t) =
      keepGroups (keepGroups kept inner.reverse).reverse t := by
  fun_induction keepGroups inner t with
  | case1 inner => rw [keepGroups, List.reverse_reverse]
  | case2 t inner ih =>
    have hopen : ∀ kept, keepGroups kept ['('] = ('(' :: kept).reverse := fun kept => by
      rw [Spliced.keepGroups_cons fun h => absurd h (by decide), keepGroups]
    rw [ih, List.reverse_cons, keepGroups_append, hopen, List.reverse_reverse, keepGroups]
  | case3 t c inner hpair ih =>
    rw [ih, List.reverse_cons, keepGroups_append, ← keepGroups_append, List.singleton_append]

/-- **Empty groups may vanish in a part of a text first.** -/
theorem dropEmptyGroups_append (a t b : Text) :
    dropEmptyGroups (a ++ (dropEmptyGroups t ++ b)) = dropEmptyGroups (a ++ (t ++ b)) := by
  unfold dropEmptyGroups
  rw [keepGroups_append [] a, keepGroups_append _ (keepGroups [] t), keepGroups_keepGroups,
    keepGroups_append [] a, keepGroups_append _ t, List.reverse_nil, keepGroups,
    List.reverse_reverse]

/-! ## The inside of a group -/

/-- A group that is left early is left later from further inside. -/
theorem cutClose_add {depth : Nat} {t a b : Text} (h : cutClose depth t = some (a, b))
    (hdepth : 0 < depth) (level : Nat) :
    cutClose (depth + (level + 1)) t =
      (cutClose (level + 1) b).map fun cut => (a ++ ')' :: cut.1, cut.2) := by
  fun_induction cutClose depth t generalizing a b with
  | case1 => cases h
  | case2 depth t ih =>
    obtain ⟨⟨x, y⟩, hcut, heq⟩ := Option.map_eq_some_iff.mp h
    cases heq
    have hnext := ih hcut (Nat.succ_pos depth)
    rw [Nat.add_right_comm] at hnext
    rw [cutClose, hnext, Option.map_map]
    rfl
  | case3 depth t hd =>
    cases h
    have hdeeper : ¬ depth + (level + 1) ≤ 1 := by omega
    have hlevel : depth + (level + 1) - 1 = level + 1 := by omega
    rw [cutClose, if_neg hdeeper, hlevel]
    rfl
  | case4 depth t hd ih =>
    obtain ⟨⟨x, y⟩, hcut, heq⟩ := Option.map_eq_some_iff.mp h
    cases heq
    have hdeeper : ¬ depth + (level + 1) ≤ 1 := by omega
    have hlevel : depth + (level + 1) - 1 = depth - 1 + (level + 1) := by omega
    rw [cutClose, if_neg hdeeper, hlevel, ih hcut (by omega), Option.map_map]
    rfl
  | case5 depth c t hopen hclose ih =>
    obtain ⟨⟨x, y⟩, hcut, heq⟩ := Option.map_eq_some_iff.mp h
    cases heq
    rw [cutClose, ih hcut hdepth, Option.map_map]
    · rfl
    · exact hopen
    · exact hclose

/-- A text with parts leaves the groups around it open. -/
theorem Orderly.cutClose_append {ps : List Part} (h : Orderly ps) (level : Nat) (rest : Text) :
    cutClose (level + 1) (ps.flatMap Part.text ++ rest) =
      (cutClose (level + 1) rest).map fun cut => (ps.flatMap Part.text ++ cut.1, cut.2) := by
  induction ps with
  | nil => simp
  | cons p ps ih =>
    obtain ⟨hp, hps⟩ := h.tail
    rw [List.flatMap_cons, List.append_assoc]
    cases p with
    | plain t =>
      show cutClose _ (t ++ _) = _
      rw [Spliced.cutClose_plain hp.2, ih hps, Option.map_map]
      simp only [Function.comp_def, Part.text, List.append_assoc]
    | group inner =>
      have hclosed : Closed inner := hp
      show cutClose (level + 1) ('(' :: inner ++ [')'] ++ _) = _
      rw [List.append_assoc, List.cons_append, List.singleton_append, cutClose,
        Nat.add_comm (level + 1), cutClose_add (hclosed _) Nat.one_pos, ih hps, Option.map_map,
        Option.map_map]
      simp [Function.comp_def, Part.text]

/-- **A text with parts can be the inside of a group.** -/
theorem Orderly.closed {ps : List Part} (h : Orderly ps) : Closed (ps.flatMap Part.text) := by
  intro rest
  rw [h.cutClose_append 0, cutClose, if_pos (Nat.le_refl 1), Option.map_some, List.append_nil]

/-- A text with parts does not begin with a `)`. -/
theorem Orderly.head?_ne {ps : List Part} (h : Orderly ps) :
    ∀ c ∈ (ps.flatMap Part.text).head?, c ≠ ')' := by
  intro c hc
  cases ps with
  | nil => exact nomatch hc
  | cons p ps =>
    have hp := h.tail.1
    cases p with
    | plain t =>
      obtain ⟨hne, ht⟩ := hp
      rw [List.flatMap_cons, Part.text, List.head?_append_of_ne_nil _ hne] at hc
      exact (isPlain_iff.mp (ht c (List.mem_of_head? hc))).2
    | group inner =>
      obtain rfl : '(' = c := Option.some.inj hc
      decide

/-- A text with parts does not end with a `(`. -/
theorem Orderly.getLast?_ne {ps : List Part} (h : Orderly ps) :
    ∀ c ∈ (ps.flatMap Part.text).getLast?, c ≠ '(' := by
  induction ps with
  | nil => exact fun c hc => nomatch hc
  | cons p ps ih =>
    obtain ⟨hp, hps⟩ := h.tail
    intro c hc
    rw [List.flatMap_cons, List.getLast?_append] at hc
    rcases Option.or_eq_some_iff.mp hc with hc | ⟨-, hc⟩
    · exact ih hps c hc
    · cases p with
      | plain t => exact (isPlain_iff.mp (hp.2 c (List.mem_of_getLast? hc))).1
      | group inner =>
        rw [Part.text, List.getLast?_concat] at hc
        obtain rfl := Option.some.inj hc
        decide

/-- **A group around a text with parts**, of which something is left without empty groups. -/
theorem parts?_group {t : Text} {ps : List Part} (h : parts? (dropEmptyGroups t) = .ok ps)
    (hne : dropEmptyGroups t ≠ []) :
    parts? (dropEmptyGroups ('(' :: t ++ [')'])) = .ok [.group (dropEmptyGroups t)] := by
  obtain ⟨horderly, htext⟩ := orderly_of_partsFrom? h
  have hgroup : Orderly [.group (dropEmptyGroups t)] :=
    Orderly.group_cons (htext ▸ horderly.closed) ⟨fun _ hp => absurd hp List.not_mem_nil,
      List.isChain_nil⟩
  have hnoempty : HasNoEmpty ('(' :: (dropEmptyGroups t ++ [')'])) := by
    refine List.isChain_cons.mpr ⟨fun c hc => ?_, ?_⟩
    · rw [List.head?_append_of_ne_nil _ hne, ← htext] at hc
      exact fun hpair => horderly.head?_ne c hc hpair.2
    · refine (hasNoEmpty_dropEmptyGroups t).append (List.isChain_singleton _) fun c hc d _ => ?_
      rw [← htext] at hc
      exact fun hpair => horderly.getLast?_ne c hc hpair.1
  have hdrop : dropEmptyGroups ('(' :: t ++ [')']) = '(' :: dropEmptyGroups t ++ [')'] := by
    have happend := dropEmptyGroups_append ['('] t [')']
    rw [List.singleton_append, List.singleton_append] at happend
    rw [List.cons_append, ← happend, dropEmptyGroups_of_hasNoEmpty hnoempty, List.cons_append]
  have hparts := partsFrom?_flatMap_text hgroup 0
  rw [List.flatMap_singleton] at hparts
  rw [hdrop]
  exact hparts

end Group

namespace Resolution

/-- Dropping empty groups once more changes nothing. -/
theorem atoms?_dropEmptyGroups (t : Text) : atoms? (Group.dropEmptyGroups t) = atoms? t := by
  unfold atoms?
  rw [Group.dropEmptyGroups_of_hasNoEmpty (Group.hasNoEmpty_dropEmptyGroups t)]

/-- A text in parentheses is one group. -/
theorem atoms?_group {t : Text} {atoms : List Atom} (h : atoms? t = .ok atoms) (hne : atoms ≠ []) :
    atoms? ('(' :: t ++ [')']) = .ok [.group (Group.dropEmptyGroups t)] := by
  obtain ⟨ps, hparts, rfl⟩ := atoms?_eq_ok_iff.mp h
  have htext := (Group.orderly_of_partsFrom? hparts).2
  have hdrop : Group.dropEmptyGroups t ≠ [] := by
    intro hnil
    rw [hnil] at hparts
    obtain rfl : [] = ps := Except.ok.inj ((Group.partsFrom?_of_plain (p := [])
      (fun c hc => absurd hc List.not_mem_nil) 0).symm.trans hparts)
    exact hne rfl
  exact atoms?_eq_ok_iff.mpr ⟨_, Group.parts?_group hparts hdrop, rfl⟩

end Resolution

/-! ## One level deeper -/

/-- How deep groups nest in pieces, those in the values of defines among them. -/
def Pieces.nesting : Pieces → Nat
  | nil => 0
  | text _ rest => rest.nesting
  | group inner rest => max (inner.nesting + 1) rest.nesting
  | define inner rest => max inner.nesting rest.nesting

namespace Tallying

variable {α β : Type} {x : Tallying α} {f : α → Tallying β} {n m : Nat}

theorem exists_of_run_bind_eq_ok {b : β × Nat} (h : (x >>= f).run n = .ok b) :
    ∃ a m, x.run n = .ok (a, m) ∧ (f a).run m = .ok b := by
  rw [StateT.run_bind] at h
  obtain ⟨⟨a, m⟩, ha, h⟩ := exists_of_bind_eq_ok h
  exact ⟨a, m, ha, h⟩

theorem run_bind_of_ok {a : α} (h : x.run n = .ok (a, m)) : (x >>= f).run n = (f a).run m := by
  rw [StateT.run_bind, h]
  rfl

theorem run_bind_of_error {e : Halt} (h : x.run n = .error e) : (x >>= f).run n = .error e := by
  rw [StateT.run_bind, h]
  rfl

/-- The count does not fall. -/
def Grows (x : Tallying α) : Prop := ∀ n p, x.run n = .ok p → n ≤ p.2

theorem grows_pure (a : α) : Grows (pure a) := by
  intro n p h
  obtain rfl := Except.ok.inj h
  exact Nat.le_refl n

theorem Grows.bind (hx : Grows x) (hf : ∀ a, Grows (f a)) : Grows (x >>= f) := by
  intro n p h
  obtain ⟨a, m, ha, h⟩ := exists_of_run_bind_eq_ok h
  exact Nat.le_trans (hx n _ ha) (hf a m p h)

end Tallying

namespace Resolution

open Tallying

variable {c : Config} {d : Defines}

theorem grows_tally (c : Config) : Grows (tally c) := by
  intro n p h
  rw [run_tally] at h
  split at h
  · exact nomatch h
  · obtain rfl := Except.ok.inj h
    exact Nat.le_succ n

theorem grows_assembled {down : Nat → List Text → Text → Tallying Pieces}
    (hdown : ∀ depth used t, Grows (down depth used t)) (depth : Nat) (used : List Text)
    (atoms : List Atom) : Grows (assembled c d down depth used atoms) := by
  induction atoms with
  | nil => exact grows_pure _
  | cons a atoms ih =>
    cases a with
    | group inner => exact (hdown _ _ _).bind fun _ => ih.bind fun _ => grows_pure _
    | other t => exact ih.bind fun _ => grows_pure _
    | name n =>
      unfold assembled
      split
      · exact ih.bind fun _ => grows_pure _
      · exact (grows_tally c).bind fun _ => (hdown _ _ _).bind fun _ => ih.bind fun _ =>
          grows_pure _

/-- Taking a text apart, when its atoms are known. -/
theorem run_apart {path depth n : Nat} {used : List Text} {t : Text} {atoms : List Atom}
    (hdepth : depth ≤ c.maxDepth) (hatoms : atoms? t = .ok atoms) :
    (apart c d (path + 1) depth used t).run n =
      (assembled c d (apart c d path) depth used atoms).run n := by
  unfold apart
  rw [if_neg (Nat.not_lt.mpr hdepth), hatoms]
  rfl

theorem run_apart_of_lt {path depth n : Nat} {used : List Text} {t : Text}
    (hdepth : c.maxDepth < depth) :
    (apart c d (path + 1) depth used t).run n =
      .error (.failed (.recursionLimit c.maxDepth)) := by
  unfold apart
  rw [if_pos hdepth]
  rfl

/-- A text that can be taken apart has atoms, and they make up its pieces. -/
theorem exists_of_run_apart {path depth n : Nat} {used : List Text} {t : Text} {p : Pieces × Nat}
    (h : (apart c d path depth used t).run n = .ok p) :
    ∃ below atoms, path = below + 1 ∧ depth ≤ c.maxDepth ∧ atoms? t = .ok atoms ∧
      (assembled c d (apart c d below) depth used atoms).run n = .ok p := by
  cases path with
  | zero => cases h
  | succ path =>
    by_cases hdepth : c.maxDepth < depth
    · rw [run_apart_of_lt hdepth] at h
      cases h
    · have hdepth := Nat.not_lt.mp hdepth
      cases hatoms : atoms? t with
      | error e =>
        unfold apart at h
        rw [if_neg (Nat.not_lt.mpr hdepth), hatoms] at h
        cases h
      | ok atoms =>
        rw [run_apart hdepth hatoms] at h
        exact ⟨path, atoms, rfl, hdepth, rfl, h⟩

theorem grows_apart (path depth : Nat) (used : List Text) (t : Text) :
    Grows (apart c d path depth used t) := by
  induction path generalizing depth used t with
  | zero => exact fun _ _ h => nomatch h
  | succ path ih =>
    intro n p h
    obtain ⟨_, atoms, ⟨⟩, -, -, h⟩ := exists_of_run_apart h
    exact grows_assembled ih depth used atoms n p h

/-- Pieces at a depth, if no group in them is too deep there. -/
def within (c : Config) (depth : Nat) (p : Pieces × Nat) : Except Halt (Pieces × Nat) :=
  if depth + p.1.nesting ≤ c.maxDepth then .ok p else .error (.failed (.recursionLimit c.maxDepth))

theorem within_of_le {depth : Nat} {p : Pieces × Nat} (h : depth + p.1.nesting ≤ c.maxDepth) :
    within c depth p = .ok p := if_pos h

theorem within_of_lt {depth : Nat} {p : Pieces × Nat} (h : c.maxDepth < depth + p.1.nesting) :
    within c depth p = .error (.failed (.recursionLimit c.maxDepth)) := if_neg (Nat.not_le.mpr h)

/-- What one computation makes, another one makes as well at a depth where it is not too deep. -/
def Follows (c : Config) (depth n : Nat) (x y : Tallying Pieces) : Prop :=
  ∀ p, x.run n = .ok p → y.run n = within c depth p

section Steps

variable {depth depth' n : Nat} {x x' y y' : Tallying Pieces}

theorem follows_pure {p : Pieces} (h : depth + p.nesting ≤ c.maxDepth) :
    Follows c depth n (pure p) (pure p) := by
  intro q hq
  obtain rfl : (p, n) = q := Except.ok.inj hq
  exact (within_of_le h).symm

/-- Pieces before others. -/
theorem Follows.bind {f : Pieces → Pieces → Pieces} (hx : Follows c depth' n x y)
    (hrest : ∀ p m, x.run n = .ok (p, m) → Follows c depth m x' y')
    (hf : ∀ p q, depth + (f p q).nesting = max (depth' + p.nesting) (depth + q.nesting)) :
    Follows c depth n (x >>= fun p => x' >>= fun q => pure (f p q))
      (y >>= fun p => y' >>= fun q => pure (f p q)) := by
  intro b hb
  obtain ⟨p, m, hp, hb⟩ := exists_of_run_bind_eq_ok hb
  obtain ⟨q, k, hq, hb⟩ := exists_of_run_bind_eq_ok hb
  obtain rfl : (f p q, k) = b := Except.ok.inj hb
  have hfirst := hx _ hp
  have hsecond := hrest p m hp _ hq
  have hdepth := hf p q
  by_cases hle : depth' + p.nesting ≤ c.maxDepth
  · rw [within_of_le hle] at hfirst
    rw [run_bind_of_ok hfirst]
    by_cases hle' : depth + q.nesting ≤ c.maxDepth
    · rw [within_of_le hle'] at hsecond
      rw [run_bind_of_ok hsecond, within_of_le (by dsimp only; omega)]
      rfl
    · rw [within_of_lt (Nat.not_le.mp hle')] at hsecond
      rw [run_bind_of_error hsecond, within_of_lt (by dsimp only; omega)]
  · rw [within_of_lt (Nat.not_le.mp hle)] at hfirst
    rw [run_bind_of_error hfirst, within_of_lt (by dsimp only; omega)]

/-- Text before pieces. -/
theorem Follows.text (h : Follows c depth n x y) (t : Text) :
    Follows c depth n (x >>= fun p => pure (.text t p)) (y >>= fun p => pure (.text t p)) := by
  intro b hb
  obtain ⟨p, m, hp, hb⟩ := exists_of_run_bind_eq_ok hb
  obtain rfl : (.text t p, m) = b := Except.ok.inj hb
  have hpieces := h _ hp
  by_cases hle : depth + p.nesting ≤ c.maxDepth
  · rw [within_of_le hle] at hpieces
    rw [run_bind_of_ok hpieces, within_of_le hle]
    rfl
  · rw [within_of_lt (Nat.not_le.mp hle)] at hpieces
    rw [run_bind_of_error hpieces, within_of_lt (Nat.not_le.mp hle)]

theorem follows_tally (h : n + 1 ≤ c.maxExpansions → Follows c depth (n + 1) x y) :
    Follows c depth n (tally c >>= fun _ => x) (tally c >>= fun _ => y) := by
  intro p hp
  have htally := run_tally c n
  split at htally
  · rw [run_bind_of_error htally] at hp
    exact nomatch hp
  · next hlimit =>
    rw [run_bind_of_ok htally] at hp ⊢
    exact h (Nat.not_lt.mp hlimit) p hp

end Steps

/-- **The pieces of atoms one level deeper**, when it is known of groups and defines. -/
theorem follows_assembled {down down' : Nat → List Text → Text → Tallying Pieces} {depth n : Nat}
    (hdepth : depth + 1 ≤ c.maxDepth) (hgrows : ∀ depth used t, Grows (down depth used t))
    (hgroup : ∀ m used t, n ≤ m →
      Follows c (depth + 2) m (down (depth + 1) used t) (down' (depth + 2) used t))
    (hdefine : ∀ m used t, n < m → m ≤ c.maxExpansions →
      Follows c (depth + 1) m (down depth used t) (down' (depth + 1) used t))
    (used : List Text) (atoms : List Atom) :
    Follows c (depth + 1) n (assembled c d down depth used atoms)
      (assembled c d down' (depth + 1) used atoms) := by
  induction atoms generalizing n with
  | nil => exact follows_pure hdepth
  | cons a atoms ih =>
    have hrest : ∀ m, n ≤ m → Follows c (depth + 1) m (assembled c d down depth used atoms)
        (assembled c d down' (depth + 1) used atoms) := fun m hm =>
      ih (fun k used t hk => hgroup k used t (Nat.le_trans hm hk))
        fun k used t hk => hdefine k used t (Nat.lt_of_le_of_lt hm hk)
    cases a with
    | group inner =>
      refine (hgroup n used inner (Nat.le_refl n)).bind
        (fun p m hp => hrest m (hgrows _ _ _ n _ hp)) fun p q => ?_
      show depth + 1 + max (p.nesting + 1) q.nesting = _
      omega
    | other t => exact (hrest n (Nat.le_refl n)).text t
    | name name =>
      unfold assembled
      split
      · exact (hrest n (Nat.le_refl n)).text name
      · next value _ =>
        refine follows_tally fun hlimit => ?_
        refine (hdefine (n + 1) _ value (Nat.lt_succ_self n) hlimit).bind
          (fun p m hp => hrest m (Nat.le_of_succ_le (hgrows _ _ _ _ _ hp))) fun p q => ?_
        show depth + 1 + max p.nesting q.nesting = _
        omega

/-- **A text is taken apart into the same pieces one level deeper**, unless a group is too deep
there. -/
theorem follows_apart {path path' depth n : Nat} (used : List Text) (t : Text)
    (hpath : room c (depth + 1) n < path') :
    Follows c (depth + 1) n (apart c d path depth used t) (apart c d path' (depth + 1) used t) := by
  induction path generalizing path' depth n used t with
  | zero => exact fun _ h => nomatch h
  | succ path ih =>
    intro p h
    obtain ⟨_, atoms, ⟨⟩, -, hatoms, h⟩ := exists_of_run_apart h
    obtain ⟨below, rfl⟩ := Nat.exists_eq_succ_of_ne_zero (Nat.ne_zero_of_lt hpath)
    by_cases hdepth : depth + 1 ≤ c.maxDepth
    · rw [run_apart hdepth hatoms]
      unfold room at hpath
      refine follows_assembled hdepth (grows_apart path) (fun m used t hm => ?_)
        (fun m used t hm hlimit => ?_) used atoms p h
      · refine ih used t ?_
        unfold room
        omega
      · refine ih used t ?_
        unfold room
        omega
    · rw [run_apart_of_lt (Nat.not_le.mp hdepth), within_of_lt (by omega)]

end Resolution

end DiceNotation
