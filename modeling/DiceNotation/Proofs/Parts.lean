import DiceNotation.Group
import Mathlib.Data.List.Chain
import Mathlib.Data.List.TakeWhile

/-!
# Lists of parts that are the parts of a text

Splitting a text at its groups and putting the parts together again are inverse to one another,
where a list of parts has to be *orderly*: plain parts have characters and no parentheses and
are never next to each other, and the inside of a group is closed where it ends.

* `Closed`, `Part.Uniform`, `Orderly`.
* `orderly_of_partsFrom?`, `partsFrom?_flatMap_text`.
* `parts?_replace`: the plain text of one part can be replaced.
-/

namespace DiceNotation.Group

/-- A text is closed by a `)` at its end and by nothing before. -/
def Closed (inner : Text) : Prop := ∀ rest, cutClose 1 (inner ++ ')' :: rest) = some (inner, rest)

/-- What is cut off is cut off wherever it stands. -/
theorem cutClose_append {depth : Nat} {t a b : Text} (h : cutClose depth t = some (a, b))
    (rest : Text) : cutClose depth (a ++ ')' :: rest) = some (a, rest) := by
  fun_induction cutClose depth t generalizing a b with
  | case1 => cases h
  | case2 depth t ih =>
    obtain ⟨⟨x, y⟩, hcut, heq⟩ := Option.map_eq_some_iff.mp h
    cases heq
    rw [List.cons_append, cutClose, ih hcut]
    rfl
  | case3 depth t hd =>
    cases h
    rw [List.nil_append, cutClose, if_pos hd]
  | case4 depth t hd ih =>
    obtain ⟨⟨x, y⟩, hcut, heq⟩ := Option.map_eq_some_iff.mp h
    cases heq
    rw [List.cons_append, cutClose, if_neg hd, ih hcut]
    rfl
  | case5 depth c t hopen hclose ih =>
    obtain ⟨⟨x, y⟩, hcut, heq⟩ := Option.map_eq_some_iff.mp h
    cases heq
    rw [List.cons_append, cutClose, ih hcut]
    · rfl
    · exact hopen
    · exact hclose

theorem closed_of_cutClose {t a b : Text} (h : cutClose 1 t = some (a, b)) : Closed a :=
  cutClose_append h

namespace Part

/-- Whether a part is a group. -/
def isGroup : Part → Bool
  | .plain _ => false
  | .group _ => true

/-- A part is plain text without parentheses, or a group that ends where it is closed. -/
def Uniform : Part → Prop
  | .plain t => t ≠ [] ∧ ∀ c ∈ t, isPlain c = true
  | .group inner => Closed inner

end Part

/-- Plain parts are not next to each other, and all parts are uniform. -/
structure Orderly (ps : List Part) : Prop where
  uniform : ∀ p ∈ ps, p.Uniform
  turns : (ps.map Part.isGroup).IsChain fun a b => a = true ∨ b = true

theorem orderly_plainPart {t : Text} (h : ∀ c ∈ t, isPlain c = true) : Orderly (plainPart t) := by
  unfold plainPart
  cases t with
  | nil => exact ⟨fun _ hp => absurd hp List.not_mem_nil, List.isChain_nil⟩
  | cons c t =>
    refine ⟨?_, List.isChain_singleton _⟩
    intro p hp
    rw [List.mem_singleton.mp hp]
    exact ⟨List.cons_ne_nil c t, h⟩

/-- Parts go on after a group. -/
theorem Orderly.group_cons {inner : Text} {ps : List Part} (hinner : Closed inner)
    (h : Orderly ps) :
    Orderly (.group inner :: ps) := by
  refine ⟨?_, ?_⟩
  · intro p hp
    rcases List.mem_cons.mp hp with rfl | hp
    · exact hinner
    · exact h.uniform p hp
  · rw [List.map_cons, List.isChain_cons]
    exact ⟨fun _ _ => Or.inl rfl, h.turns⟩

/-- Plain text comes before a group. -/
theorem Orderly.plainPart_append {t inner : Text} {ps : List Part}
    (ht : ∀ c ∈ t, isPlain c = true) (h : Orderly (.group inner :: ps)) :
    Orderly (plainPart t ++ .group inner :: ps) := by
  unfold plainPart
  cases t with
  | nil => exact h
  | cons c t =>
    refine ⟨?_, ?_⟩
    · intro p hp
      rcases List.mem_cons.mp hp with rfl | hp
      · exact ⟨List.cons_ne_nil c t, ht⟩
      · exact h.uniform p hp
    · show ((Part.plain (c :: t) :: .group inner :: ps).map Part.isGroup).IsChain _
      rw [List.map_cons, List.isChain_cons]
      refine ⟨?_, h.turns⟩
      intro b hb
      cases hb
      exact Or.inr rfl

/-- A text is plain up to its first parenthesis. -/
theorem exists_of_dropWhile_isPlain {t rest : Text} {c : Char} (h : t.dropWhile isPlain = c :: rest)
    (hc : c ≠ ')') : t = t.takeWhile isPlain ++ '(' :: rest := by
  have hnot := List.head?_dropWhile_not isPlain t
  rw [h] at hnot
  have hopen : c = '(' := by
    by_contra hne
    simp [isPlain, hne, hc] at hnot
  have hsplit := List.takeWhile_append_dropWhile (p := isPlain) (l := t)
  rw [h, hopen] at hsplit
  exact hsplit.symm

/-- **The parts of a text are orderly, and make up the text.** -/
theorem orderly_of_partsFrom? {position : Nat} {t : Text} {ps : List Part}
    (h : partsFrom? position t = .ok ps) : Orderly ps ∧ ps.flatMap Part.text = t := by
  have hplain : ∀ t : Text, ∀ c ∈ t.takeWhile isPlain, isPlain c = true :=
    fun t c hc => List.mem_takeWhile_imp hc
  fun_induction partsFrom? position t generalizing ps with
  | case1 position t plain =>
    rename_i hrest
    cases h
    have hall := List.takeWhile_append_dropWhile (p := isPlain) (l := t)
    rw [hrest, List.append_nil] at hall
    refine ⟨orderly_plainPart (hplain t), ?_⟩
    rw [flatMap_text_plainPart]
    exact hall
  | case2 => exact nomatch h
  | case3 => exact nomatch h
  | case4 position t plain start c rest hrest hclose inner after hcut =>
    rename_i ih
    cases hafter : partsFrom? (start + Text.byteLength inner + 2) after with
    | error e =>
      rw [hafter] at h
      exact nomatch h
    | ok parts =>
      rw [hafter] at h
      cases h
      obtain ⟨horderly, htext⟩ := ih hafter
      have hinner := closed_of_cutClose hcut
      refine ⟨Orderly.plainPart_append (hplain t) (horderly.group_cons hinner), ?_⟩
      have ht := exists_of_dropWhile_isPlain hrest hclose
      rw [eq_append_of_cutClose hcut] at ht
      rw [List.flatMap_append, List.flatMap_cons, flatMap_text_plainPart, htext]
      show t.takeWhile isPlain ++ ('(' :: inner ++ [')'] ++ after) = t
      rw [List.append_assoc, List.cons_append, List.singleton_append]
      exact ht.symm

/-- The parts of a text without parentheses. -/
theorem partsFrom?_of_plain {p : Text} (hp : ∀ c ∈ p, isPlain c = true) (position : Nat) :
    partsFrom? position p = .ok (plainPart p) := by
  have htake : p.takeWhile isPlain = p := by
    rw [← List.append_nil p, List.takeWhile_append_of_pos hp, List.takeWhile_nil]
  have hdrop : p.dropWhile isPlain = [] := by
    rw [← List.append_nil p, List.dropWhile_append_of_pos hp, List.dropWhile_nil]
  rw [partsFrom?]
  split
  · rw [htake]
  · next c rest hrest =>
    rw [hdrop] at hrest
    cases hrest

/-- The parts of a text up to its first group are the plain text before and the group. -/
theorem partsFrom?_group {p inner after : Text} {ps : List Part} (hp : ∀ c ∈ p, isPlain c = true)
    (hinner : Closed inner) (h : ∀ position, partsFrom? position after = .ok ps) (position : Nat) :
    partsFrom? position (p ++ '(' :: (inner ++ ')' :: after)) =
      .ok (plainPart p ++ .group inner :: ps) := by
  have hopen : isPlain '(' = false := by decide
  have htake : (p ++ '(' :: (inner ++ ')' :: after)).takeWhile isPlain = p := by
    rw [List.takeWhile_append_of_pos hp, List.takeWhile_cons_of_neg (by simp [hopen]),
      List.append_nil]
  have hdrop : (p ++ '(' :: (inner ++ ')' :: after)).dropWhile isPlain =
      '(' :: (inner ++ ')' :: after) := by
    rw [List.dropWhile_append_of_pos hp, List.dropWhile_cons_of_neg (by simp [hopen])]
  rw [partsFrom?]
  split
  · next hrest =>
    rw [hdrop] at hrest
    cases hrest
  · next c rest hrest =>
    rw [hdrop] at hrest
    obtain ⟨rfl, rfl⟩ := List.cons.inj hrest
    rw [if_neg (by decide)]
    split
    · next hcut =>
      rw [hinner after] at hcut
      cases hcut
    · next inner' after' hcut =>
      rw [hinner after] at hcut
      cases hcut
      rw [h, htake]
      rfl

/-- What is left of orderly parts without the first one. -/
theorem Orderly.tail {p : Part} {ps : List Part} (h : Orderly (p :: ps)) :
    p.Uniform ∧ Orderly ps := by
  obtain ⟨huniform, hturns⟩ := h
  rw [List.map_cons, List.isChain_cons] at hturns
  refine ⟨huniform p List.mem_cons_self, ?_, hturns.2⟩
  exact fun q hq => huniform q (List.mem_cons_of_mem p hq)

theorem plainPart_of_ne_nil {t : Text} (h : t ≠ []) : plainPart t = [.plain t] := by
  unfold plainPart
  rw [if_neg]
  exact fun he => h (List.isEmpty_iff.mp he)

/-- **Orderly parts are the parts of their text.** -/
theorem partsFrom?_flatMap_text {ps : List Part} (h : Orderly ps) (position : Nat) :
    partsFrom? position (ps.flatMap Part.text) = .ok ps := by
  induction hn : ps.length using Nat.strongRecOn generalizing ps position with
  | ind n ih =>
    -- plain text and the group after it are one step of the splitting
    cases ps with
    | nil => exact partsFrom?_of_plain (fun c hc => absurd hc List.not_mem_nil) position
    | cons p ps =>
      obtain ⟨hp, hps⟩ := h.tail
      cases p with
      | group inner =>
        have hrest : ∀ position, partsFrom? position (ps.flatMap Part.text) = .ok ps :=
          fun position => ih ps.length (by rw [← hn, List.length_cons]; omega) hps position rfl
        have hgroup := partsFrom?_group (p := []) (fun c hc => absurd hc List.not_mem_nil) hp hrest
          position
        rw [List.flatMap_cons]
        show partsFrom? position (('(' :: inner ++ [')']) ++ ps.flatMap Part.text) = _
        rw [List.append_assoc, List.cons_append, List.singleton_append]
        exact hgroup
      | plain t =>
        obtain ⟨hne, ht⟩ := hp
        cases ps with
        | nil =>
          show partsFrom? position (t ++ []) = _
          rw [List.append_nil, partsFrom?_of_plain ht, plainPart_of_ne_nil hne]
        | cons q ps =>
          obtain ⟨hq, hqs⟩ := hps.tail
          cases q with
          | plain u =>
            have hturn := h.turns
            rw [List.map_cons, List.map_cons, List.isChain_cons_cons] at hturn
            rcases hturn.1 with hfalse | hfalse
            · exact nomatch hfalse
            · exact nomatch hfalse
          | group inner =>
            have hrest : ∀ position, partsFrom? position (ps.flatMap Part.text) = .ok ps :=
              fun position =>
                ih ps.length (by rw [← hn, List.length_cons, List.length_cons]; omega) hqs
                  position rfl
            rw [List.flatMap_cons, List.flatMap_cons]
            show partsFrom? position (t ++ (('(' :: inner ++ [')']) ++ ps.flatMap Part.text)) = _
            rw [List.append_assoc, List.cons_append, List.singleton_append,
              partsFrom?_group ht hq hrest, plainPart_of_ne_nil hne]
            rfl

/-- Orderly parts with one plain part in the place of another. -/
theorem Orderly.replace {ps qs : List Part} {t u : Text} (h : Orderly (ps ++ .plain t :: qs))
    (hu : (Part.plain u).Uniform) : Orderly (ps ++ .plain u :: qs) := by
  refine ⟨?_, ?_⟩
  · intro p hp
    rcases List.mem_append.mp hp with hp | hp
    · exact h.uniform p (List.mem_append_left _ hp)
    · rcases List.mem_cons.mp hp with rfl | hp
      · exact hu
      · exact h.uniform p (List.mem_append_right ps (List.mem_cons_of_mem _ hp))
  · have hturns := h.turns
    rw [List.map_append, List.map_cons] at hturns ⊢
    exact hturns

/-- **The plain text of one part can be replaced**, and the other parts stay what they are. -/
theorem parts?_replace {t p q : Text} {ps qs : List Part}
    (h : parts? t = .ok (ps ++ .plain p :: qs))
    (hq : (Part.plain q).Uniform) :
    parts? (ps.flatMap Part.text ++ (q ++ qs.flatMap Part.text)) = .ok (ps ++ .plain q :: qs) := by
  have horderly := (orderly_of_partsFrom? h).1.replace hq
  have hparts := partsFrom?_flatMap_text horderly 0
  rw [List.flatMap_append, List.flatMap_cons] at hparts
  exact hparts

end DiceNotation.Group
