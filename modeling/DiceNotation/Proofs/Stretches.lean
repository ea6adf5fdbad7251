import DiceNotation.Proofs.Origins

/-!
# Taking words from the text around a trigger

The text around a trigger lies in stretches, and words are taken from the end of the last stretch
that has one.  The stretches before the trigger are listed backward and those after it forward, so
that there are two ways to look for this stretch.  Here all of them are put in the order of the text
(`Surroundings.stretches`), and then there is one way (`Surroundings.takeWord?_eq`).

However many words are taken, no stretch is lost and none is moved: one word after another, some
stretch loses its last word (`Shortened`).  Such steps can be made as well in a longer list of
stretches, which has others in between.

* `takeFromLast?_append`, `takeFromFirst?_eq`, `exists_of_takeFromLast?`.
* `Surroundings.stretches`, `Surroundings.refill`, `Surroundings.takeWord?_eq`,
  `Surroundings.takeWords?`.
* `Shortened`, `weave`, `shortened_of_takeWords?`.
-/

namespace DiceNotation

/-! ## Lists of stretches -/

/-- A word is taken from the later stretches if they have one, and otherwise from the others. -/
theorem takeFromLast?_append (ts us : List Text) :
    takeFromLast? (ts ++ us) =
      match takeFromLast? us with
      | some (word, us) => some (word, ts ++ us)
      | none => (takeFromLast? ts).map fun taken => (taken.1, taken.2 ++ us) := by
  induction ts with
  | nil =>
    rw [List.nil_append]
    cases takeFromLast? us with
    | some taken => rfl
    | none => rfl
  | cons t ts ih =>
    rw [List.cons_append, takeFromLast?, ih]
    cases takeFromLast? us with
    | some taken => rfl
    | none =>
      rw [takeFromLast?]
      cases takeFromLast? ts with
      | some taken => rfl
      | none => cases lastWord? t <;> rfl

/-- The first of the stretches that has a word is the last one when they are read backward. -/
theorem takeFromFirst?_eq (ts : List Text) :
    takeFromFirst? ts =
      (takeFromLast? ts.reverse).map fun taken => (taken.1, taken.2.reverse) := by
  induction ts with
  | nil => rfl
  | cons t ts ih =>
    have hlast : takeFromLast? [t] = (lastWord? t).map fun taken => (taken.1, [taken.2]) := rfl
    rw [takeFromFirst?, List.reverse_cons, takeFromLast?_append, hlast, ih]
    cases lastWord? t with
    | some taken =>
      obtain ⟨word, rest⟩ := taken
      simp
    | none => simp [Function.comp_def]

/-- A word that is taken was the last one of some stretch, and no later stretch has any. -/
theorem exists_of_takeFromLast? {ts ts' : List Text} {word : Text}
    (h : takeFromLast? ts = some (word, ts')) :
    ∃ a t rest b, ts = a ++ t :: b ∧ ts' = a ++ rest :: b ∧ lastWord? t = some (word, rest) := by
  induction ts generalizing ts' with
  | nil => exact nomatch h
  | cons t ts ih =>
    unfold takeFromLast? at h
    split at h
    · next htaken =>
      obtain ⟨rfl, rfl⟩ := Prod.mk.inj (Option.some.inj h)
      obtain ⟨a, u, rest, b, rfl, rfl, hword⟩ := ih htaken
      exact ⟨t :: a, u, rest, b, rfl, rfl, hword⟩
    · obtain ⟨⟨x, rest⟩, hlast, heq⟩ := Option.map_eq_some_iff.mp h
      obtain ⟨rfl, rfl⟩ := Prod.mk.inj heq
      exact ⟨[], t, rest, ts, rfl, rfl, hlast⟩

theorem length_of_takeFromLast? {ts ts' : List Text} {word : Text}
    (h : takeFromLast? ts = some (word, ts')) : ts'.length = ts.length := by
  obtain ⟨a, t, rest, b, rfl, rfl, -⟩ := exists_of_takeFromLast? h
  rw [List.length_append, List.length_append, List.length_cons, List.length_cons]

/-! ## The text around a trigger -/

namespace Surroundings

/-- The stretches in the order of the text. -/
def stretches (s : Surroundings) : List Text := s.before.reverse ++ s.after

/-- As many stretches before and after, with other texts. -/
def refill (s : Surroundings) (ts : List Text) : Surroundings :=
  ⟨(ts.take s.before.length).reverse, ts.drop s.before.length⟩

theorem text_eq_flatten (s : Surroundings) : s.text = s.stretches.flatten := by
  unfold text stretches
  rw [List.flatten_append]

@[simp] theorem stretches_refill (s : Surroundings) (ts : List Text) :
    (s.refill ts).stretches = ts := by
  unfold stretches refill
  rw [List.reverse_reverse, List.take_append_drop]

theorem refill_append (s : Surroundings) {before : List Text} (after : List Text)
    (h : before.length = s.before.length) :
    s.refill (before ++ after) = ⟨before.reverse, after⟩ := by
  unfold refill
  rw [← h, List.take_left, List.drop_left]

@[simp] theorem refill_stretches (s : Surroundings) : s.refill s.stretches = s := by
  unfold stretches
  rw [refill_append s s.after List.length_reverse, List.reverse_reverse]

theorem refill_refill (s : Surroundings) (ts us : List Text)
    (h : s.before.length ≤ ts.length) : (s.refill ts).refill us = s.refill us := by
  have hlength : (s.refill ts).before.length = s.before.length := by
    unfold refill
    rw [List.length_reverse, List.length_take, Nat.min_eq_left h]
  rw [refill, hlength, refill]

/-- **A word is taken from the last stretch of the text that has one**, whether this comes before
the trigger or after it. -/
theorem takeWord?_eq (s : Surroundings) :
    s.takeWord? =
      (takeFromLast? s.stretches).map fun taken => (taken.1, s.refill taken.2) := by
  unfold takeWord? stretches
  rw [takeFromLast?_append, takeFromFirst?_eq]
  cases takeFromLast? s.after with
  | some taken =>
    rw [Option.map_some, refill_append s _ List.length_reverse, List.reverse_reverse]
  | none =>
    cases hbefore : takeFromLast? s.before.reverse with
    | none => rfl
    | some taken =>
      have hlength := length_of_takeFromLast? hbefore
      rw [List.length_reverse] at hlength
      simp only [Option.map_some]
      rw [refill_append s _ hlength]

/-- Takes so many words, of which the last in the text comes first. -/
def takeWords? : Nat → Surroundings → Option (List Text × Surroundings)
  | 0, s => some ([], s)
  | n + 1, s => do
    let (word, s) ← s.takeWord?
    let (words, s) ← takeWords? n s
    return (word :: words, s)

theorem takeWords?_succ_eq_some_iff {n : Nat} {s left : Surroundings} {ws : List Text} :
    takeWords? (n + 1) s = some (ws, left) ↔
      ∃ word rest words, s.takeWord? = some (word, rest) ∧
        takeWords? n rest = some (words, left) ∧ ws = word :: words := by
  constructor
  · intro h
    obtain ⟨⟨word, rest⟩, hword, h⟩ := Option.bind_eq_some_iff.mp h
    obtain ⟨⟨words, left'⟩, hwords, h⟩ := Option.bind_eq_some_iff.mp h
    obtain ⟨rfl, rfl⟩ := Prod.mk.inj (Option.some.inj h)
    exact ⟨word, rest, words, hword, hwords, rfl⟩
  · rintro ⟨word, rest, words, hword, hwords, rfl⟩
    rw [takeWords?, hword]
    show (takeWords? n rest).bind _ = _
    rw [hwords]
    rfl

theorem length_of_takeWords? {n : Nat} {s left : Surroundings} {ws : List Text}
    (h : takeWords? n s = some (ws, left)) : ws.length = n := by
  induction n generalizing s ws with
  | zero =>
    obtain ⟨rfl, -⟩ := Prod.mk.inj (Option.some.inj h)
    rfl
  | succ n ih =>
    obtain ⟨word, rest, words, -, hwords, rfl⟩ := takeWords?_succ_eq_some_iff.mp h
    rw [List.length_cons, ih hwords]

end Surroundings

/-! ## Stretches that have lost words -/

/-- One after another, so many times a stretch has lost its last word, with the blanks after it. -/
inductive Shortened : Nat → List Text → List Text → Prop
  | refl (ts : List Text) : Shortened 0 ts ts
  | step {n : Nat} {ts a b : List Text} {t word rest : Text} (h : Shortened n ts (a ++ t :: b))
      (hword : lastWord? t = some (word, rest)) : Shortened (n + 1) ts (a ++ rest :: b)

theorem Shortened.one {a b : List Text} {t word rest : Text}
    (h : lastWord? t = some (word, rest)) : Shortened 1 (a ++ t :: b) (a ++ rest :: b) :=
  .step (.refl _) h

theorem Shortened.trans {n m : Nat} {ts us vs : List Text} (h : Shortened n ts us)
    (h' : Shortened m us vs) : Shortened (n + m) ts vs := by
  induction h' with
  | refl => exact h
  | step _ hword ih => exact .step (ih h) hword

/-- Texts that take turns. -/
def weave (outs texts : List Text) : List Text :=
  (outs.zip texts).flatMap fun pair => [pair.1, pair.2]

theorem weave_cons (out text : Text) (outs texts : List Text) :
    weave (out :: outs) (text :: texts) = out :: text :: weave outs texts := rfl

theorem weave_append {outs texts : List Text} (h : outs.length = texts.length)
    (outs' texts' : List Text) :
    weave (outs ++ outs') (texts ++ texts') = weave outs texts ++ weave outs' texts' := by
  unfold weave
  rw [List.zip_append h, List.flatMap_append]

namespace Surroundings

/-- The stretches around a trigger, with the outputs to come in front of those after it. -/
def woven (s : Surroundings) (outs : List Text) : List Text :=
  s.before.reverse ++ weave outs s.after

/-- Where a word is taken, some stretch loses its last word. -/
theorem shortened_of_takeWord? {s rest : Surroundings} {word : Text} {outs : List Text}
    (h : s.takeWord? = some (word, rest)) (houts : outs.length = s.after.length) :
    Shortened 1 (s.woven outs) (rest.woven outs) ∧ rest.after.length = s.after.length := by
  unfold takeWord? at h
  split at h
  · next htaken =>
    obtain ⟨rfl, rfl⟩ := Prod.mk.inj (Option.some.inj h)
    obtain ⟨a, t, rest, b, hafter, rfl, hword⟩ := exists_of_takeFromLast? htaken
    refine ⟨?_, length_of_takeFromLast? htaken⟩
    -- the outputs in front of the stretches up to this one, the one in front of it, and the others
    have hlt : a.length < outs.length := by
      rw [houts, hafter, List.length_append, List.length_cons]
      omega
    have hsplit : outs = outs.take a.length ++ outs[a.length] :: outs.drop (a.length + 1) := by
      rw [← List.drop_eq_getElem_cons hlt, List.take_append_drop]
    have htake : (outs.take a.length).length = a.length := by
      rw [List.length_take, Nat.min_eq_left hlt.le]
    have hwoven : ∀ u : Text, s.before.reverse ++ weave outs (a ++ u :: b) =
        (s.before.reverse ++ (weave (outs.take a.length) a ++ [outs[a.length]])) ++
          u :: weave (outs.drop (a.length + 1)) b := by
      intro u
      conv_lhs => rw [hsplit, weave_append htake, weave_cons]
      simp only [List.append_assoc, List.singleton_append]
    unfold woven
    rw [hafter, hwoven, hwoven]
    exact .one hword
  · obtain ⟨⟨x, before⟩, htaken, heq⟩ := Option.map_eq_some_iff.mp h
    obtain ⟨rfl, rfl⟩ := Prod.mk.inj heq
    rw [takeFromFirst?_eq] at htaken
    obtain ⟨⟨y, back⟩, hback, heq⟩ := Option.map_eq_some_iff.mp htaken
    obtain ⟨rfl, rfl⟩ := Prod.mk.inj heq
    obtain ⟨a, t, rest, b, hbefore, rfl, hword⟩ := exists_of_takeFromLast? hback
    refine ⟨?_, rfl⟩
    unfold woven
    rw [hbefore, List.reverse_reverse, List.append_assoc, List.append_assoc, List.cons_append,
      List.cons_append]
    exact .one hword

/-- **Where so many words are taken, stretches lose so many words.** -/
theorem shortened_of_takeWords? {n : Nat} {s left : Surroundings} {ws outs : List Text}
    (h : takeWords? n s = some (ws, left)) (houts : outs.length = s.after.length) :
    Shortened n (s.woven outs) (left.woven outs) ∧ left.after.length = s.after.length := by
  induction n generalizing s ws with
  | zero =>
    obtain ⟨-, rfl⟩ := Prod.mk.inj (Option.some.inj h)
    exact ⟨.refl _, rfl⟩
  | succ n ih =>
    obtain ⟨word, rest, words, hword, hwords, rfl⟩ := takeWords?_succ_eq_some_iff.mp h
    obtain ⟨hfirst, hlength⟩ := shortened_of_takeWord? hword houts
    obtain ⟨hrest, hlength'⟩ := ih hwords (houts.trans hlength.symm)
    rw [Nat.add_comm]
    exact ⟨hfirst.trans hrest, hlength'.trans hlength⟩

end Surroundings

end DiceNotation
