import DiceNotation.Proofs.Runs.Folds
import Mathlib

/-!
# Texts that folding leaves alone

A text of which every run is a single number that is folded to itself is left alone.  There are no
others: runs that become longer or shorter cannot make up for one another.

To see this, take the first run of a text that is left alone.  If its value were shorter than it is,
what stands behind would be folded to something longer, of which it is the end.  But folding puts no
digit before a text: in front of the first run of such a text stands a character that does not glue,
and all characters of a value glue, except for a minus at its start.  If the value were longer, it
would go on where the run ends, and there no number goes on.

* `Fixed`, `Fixed.folds`: texts that are left alone.
* `Folds.eq_nil_of_append`: folding puts no digit before a text.
* `fixed_iff`: there are no other texts that are left alone.
-/

namespace DiceNotation.NumberRun

open Text

/-- A text of which every run is a single number that is folded to itself. -/
inductive Fixed : Bool → Text → Prop
  | stop {g : Bool} : Fixed g []
  | copy {g : Bool} {c : Char} {t : Text} (hc : g = true ∨ operand? (c :: t) = none)
    (h : Fixed (follows g c t) t) : Fixed g (c :: t)
  | run {t rest : Text} {tokens : List Text} (hoperand : operand? t = some (tokens, rest))
    (hnext : next? rest = none) (hfold : fold tokens = .ok tokens.flatten) (h : Fixed true rest) :
    Fixed false t

theorem Fixed.folds {g : Bool} {t : Text} (h : Fixed g t) : Folds g t t := by
  induction h with
  | stop => exact .stop
  | copy hc _ ih => exact .copy hc ih
  | run hoperand hnext hfold _ ih =>
    have hcontinuation := Strung.continuation_of_none hnext
    have hrun := Folds.run hoperand (by rw [hcontinuation, List.append_nil, hfold])
      (by rw [hcontinuation]; exact ih)
    rwa [← (flatten_of_operand? hoperand).1] at hrun

section Steps

variable {g : Bool} {c : Char} {t rest w : Text} {tokens : List Text}

theorem fixed_cons_iff (hc : g = true ∨ operand? (c :: t) = none) :
    Fixed g (c :: t) ↔ Fixed (follows g c t) t := by
  refine ⟨fun h => ?_, .copy hc⟩
  cases h with
  | copy _ h => exact h
  | run hoperand _ _ _ => cases (hc.resolve_left Bool.false_ne_true).symm.trans hoperand

/-- A sign that no number follows is copied, and glues nothing. -/
theorem fixed_sign_iff (hc : isSign c = true) (ht : number? t = none) :
    Fixed g (c :: t) ↔ Fixed false t := by
  have hnone : operand? (c :: t) = none := by rwa [operand?_eq_none_iff, if_pos hc]
  rw [fixed_cons_iff (Or.inr hnone), follows_of_operand?_eq_none hnone, not_glues_of_isSign hc]

theorem fixed_operand?_iff (h : operand? t = some (tokens, rest)) :
    Fixed false t ↔ next? rest = none ∧ fold tokens = .ok tokens.flatten ∧ Fixed true rest := by
  refine ⟨fun hfixed => ?_, fun ⟨hnext, hfold, hrest⟩ => .run h hnext hfold hrest⟩
  cases hfixed with
  | stop => cases h
  | copy hc _ => cases (hc.resolve_left Bool.false_ne_true).symm.trans h
  | run hoperand hnext hfold hrest =>
    cases h.symm.trans hoperand
    exact ⟨hnext, hfold, hrest⟩

/-- What glues and digits are copied where a word may go on. -/
theorem fixed_true_append_iff (hw : ∀ c ∈ w, glues c = true ∨ isDecimalDigit c = true) :
    Fixed true (w ++ t) ↔ Fixed true t := by
  induction w with
  | nil => rfl
  | cons c w ih =>
    have hfollows : follows true c (w ++ t) = true := by
      rcases hw c List.mem_cons_self with hglues | hdigit
      · rw [follows, hglues, Bool.true_or]
      · refine follows_of_operand? fun hnone => ?_
        cases (head_of_operand?_eq_none hnone c rfl).symm.trans hdigit
    rw [List.cons_append, fixed_cons_iff (Or.inl rfl), hfollows]
    exact ih fun d hd => hw d (List.mem_cons_of_mem c hd)

end Steps

/-! ## What stands before and behind a value -/

/-- Before a text whose end does not glue, no value makes up for a digit. -/
theorem RunValue.eq_nil_of_append {p q w y : Text} (hv : RunValue (q ++ w)) (h : y ++ p = p ++ q)
    (hp : p ≠ []) (hlast : ∀ c ∈ p.getLast?, glues c = false)
    (hy : ∀ c ∈ y.getLast?, isDecimalDigit c = true) : y = [] := by
  have hlength := congrArg List.length h
  rw [List.length_append, List.length_append] at hlength
  obtain rfl | ⟨q, c, rfl⟩ := List.eq_nil_or_concat' q
  · exact List.length_eq_zero_iff.mp (by simpa using hlength)
  have hglues : glues c = false := by
    refine hlast c ?_
    have hend := congrArg List.getLast? h
    rwa [List.getLast?_append_of_ne_nil y hp, ← List.append_assoc, List.getLast?_concat] at hend
  rw [List.append_assoc] at hv
  cases q with
  | cons d q =>
    have hmem : c ∈ (d :: q ++ ([c] ++ w)).tail := List.mem_append_right q List.mem_cons_self
    cases hglues.symm.trans (hv.glues_of_mem_tail c hmem)
  | nil =>
    -- what does not glue is the minus of the value, and `y` consists of it
    have hcount := congrArg (List.count c) h
    rw [List.count_append, List.count_append, List.nil_append, List.count_singleton_self] at hcount
    rw [List.nil_append, List.length_singleton] at hlength
    obtain ⟨a, rfl⟩ := List.length_eq_one_iff.mp (show y.length = 1 by omega)
    obtain rfl : c = a := List.mem_singleton.mp (List.count_pos_iff.mp (by omega))
    have hdigits := hv.forall_mem (p := fun c => isDecimalDigit c = true → glues c = true)
      (by decide) c List.mem_cons_self
    cases hglues.symm.trans (hdigits (hy c rfl))

/-- **Folding puts no digit before a text.** -/
theorem Folds.eq_nil_of_append {t y : Text} (h : Folds true t (y ++ t))
    (hy : ∀ c ∈ y.getLast?, isDecimalDigit c = true) : y = [] := by
  induction hn : t.length using Nat.strongRecOn generalizing t y with
  | ind n ih =>
    subst hn
    rcases h.eq_or_exists with
      heq | ⟨p, s, v, u, rest, tokens, rfl, heq, hoperand, hfold, hrest, hp, hlast⟩
    · exact List.self_eq_append_left.mp heq
    have hvalue := runValue_of_fold hoperand hfold
    have hshort := Nat.lt_of_le_of_lt (length_continuation_le rest) (length_operand?_lt hoperand)
    obtain ⟨x, hx, ⟨e, he, hdigit⟩, -⟩ := exists_run hoperand
    have hpne : p ≠ [] := fun hnil => nomatch hp hnil
    have htexts : y ++ (p ++ x) ++ (continuation rest).2 = p ++ v ++ u := by
      rw [List.append_assoc y, List.append_assoc, List.append_assoc, ← hx]
      exact heq
    -- nothing comes to stand behind the value, as it would have to end with a digit of the run
    obtain ⟨z, hz⟩ : ∃ z, p ++ v = y ++ (p ++ x) ++ z := by
      rcases List.append_eq_append_iff.mp htexts with ⟨z, hz, -⟩ | ⟨z, hz, hu⟩
      · exact ⟨z, hz⟩
      have hnil : z = [] := by
        refine ih (continuation rest).2.length ?_ (hu ▸ hrest) (fun c hc => ?_) rfl
        · rw [List.length_append]
          omega
        · have hend := congrArg List.getLast? hz
          rw [List.getLast?_append, List.getLast?_append, List.getLast?_append,
            Option.mem_def.mp he, Option.mem_def.mp hc] at hend
          cases hend
          exact hdigit
      exact ⟨[], by rw [hz, hnil, List.append_nil, List.append_nil]⟩
    by_contra hyne
    obtain ⟨q, hq, hvq⟩ : ∃ q, y ++ p = p ++ q ∧ v = q ++ (x ++ z) := by
      rw [List.append_assoc, List.append_assoc p, ← List.append_assoc y] at hz
      rcases List.append_eq_append_iff.mp hz with ⟨q, hq, hv⟩ | ⟨q, hq, -⟩
      · exact ⟨q, hq, hv⟩
      · have hlength := congrArg List.length hq
        have hpos := List.length_pos_iff.mpr hyne
        rw [List.length_append, List.length_append] at hlength
        omega
    exact hyne (RunValue.eq_nil_of_append (hvq ▸ hvalue) hq hpne hlast hy)

/-! ## The texts that are left alone -/

/-- A number stops before the beginning of what it stops before. -/
theorem Stops.of_append {n z u : Text} (h : Stops n (z ++ u)) : Stops n z := by
  cases z with
  | nil => exact ⟨nofun, fun _ => nofun⟩
  | cons c z =>
    refine ⟨h.digit, fun hn w hw => ?_⟩
    obtain ⟨rfl, rfl⟩ := List.cons.inj hw
    cases z with
    | nil => nofun
    | cons d z => exact h.fraction hn (d :: z ++ u) rfl

/-- A value does not go on where a number in it stops. -/
theorem RunValue.eq_nil_of_operand? {tokens : List Text} {z u : Text}
    (hv : RunValue (tokens.flatten ++ z))
    (h : operand? (tokens.flatten ++ (z ++ u)) = some (tokens, z ++ u)) : z = [] := by
  have hunique : ∀ {n : Text}, Unsigned n → Stops n (z ++ u) → Unsigned (n ++ z) → z = [] := by
    intro n hn hstops hnz
    have hfirst : number? (n ++ z) = some (n, z) :=
      number?_eq_some_iff.mpr ⟨hn, hstops.of_append, rfl⟩
    have hsecond : number? (n ++ z) = some (n ++ z, []) :=
      number?_eq_some_iff.mpr ⟨hnz, ⟨nofun, fun _ => nofun⟩, (List.append_nil _).symm⟩
    exact congrArg Prod.snd (Option.some.inj (hfirst.symm.trans hsecond))
  have hwords : ∀ {n : Text}, Unsigned n → n ++ z ∉ words ∧ ∀ c, c :: (n ++ z) ∉ words :=
    fun hn => notMem_words (List.append_ne_nil_of_left_ne_nil hn.ne_nil z) (by
      rw [List.head?_append_of_ne_nil _ hn.ne_nil]
      exact hn.head)
  obtain ⟨n, hn, hstops, ⟨rfl, -⟩ | ⟨c, hc, rfl, -⟩⟩ := operand?_eq_some_iff.mp h
  · rw [List.flatten_singleton] at hv
    rcases hv.mem_words_or_unsigned with hmem | hunsigned | ⟨m, heq, -⟩
    · exact absurd hmem (hwords hn).1
    · exact hunique hn hstops hunsigned
    · obtain ⟨d, n, rfl⟩ := List.exists_cons_of_ne_nil hn.ne_nil
      obtain ⟨rfl, -⟩ := List.cons.inj heq
      exact absurd (hn.head '-' rfl) (by decide)
  · rw [List.flatten_cons, List.flatten_singleton, List.append_assoc] at hv
    rcases hv.mem_words_or_unsigned with hmem | hunsigned | ⟨m, heq, hm⟩
    · exact absurd hmem ((hwords hn).2 c)
    · exact absurd (hunsigned.head c rfl)
        (forall_of_isSign (p := fun c => ¬ isDecimalDigit c = true) (by decide) hc)
    · obtain ⟨-, rfl⟩ := List.cons.inj heq
      exact hunique hn hstops hm

theorem Folds.fixed {g : Bool} {t u : Text} (h : Folds g t u) (htu : t = u) : Fixed g t := by
  induction h with
  | stop => exact .stop
  | copy hc _ ih => exact .copy hc (ih (List.cons.inj htu).2)
  | @run t rest u v tokens hoperand hfold hrest ih =>
    have hvalue := runValue_of_fold hoperand hfold
    obtain ⟨x, hx, ⟨e, he, hdigit⟩, hsingle⟩ := exists_run hoperand
    obtain ⟨z, rfl, hz⟩ : ∃ z, v = x ++ z ∧ (continuation rest).2 = z ++ u := by
      rcases List.append_eq_append_iff.mp (hx.symm.trans htu) with hlong | ⟨z, rfl, rfl⟩
      · exact hlong
      have hnil : z = [] := by
        refine hrest.eq_nil_of_append fun c hc => ?_
        rw [List.getLast?_append, Option.mem_def.mp hc] at he
        cases he
        exact hdigit
      exact ⟨[], by simp [hnil], by simp [hnil]⟩
    have hne : x ≠ [] := by
      rintro rfl
      cases he
    obtain ⟨hnext, rfl⟩ := hsingle fun c hc => hvalue.glues_of_mem_tail c (by
      rw [List.tail_append_of_ne_nil hne]
      exact List.mem_append_left z hc)
    rw [Strung.continuation_of_none hnext] at hx hz hfold ih
    obtain rfl : z = [] := by
      refine hvalue.eq_nil_of_operand? (u := u) ?_
      rw [← hz, ← hx]
      exact hoperand
    rw [List.append_nil, List.append_nil] at hfold
    exact .run hoperand hnext hfold (ih hz)

/-- **A text is left alone** exactly if every run of it is a single number that is folded to
itself. -/
theorem fixed_iff {g : Bool} {t : Text} : Fixed g t ↔ foldFrom g t = .ok t :=
  ⟨fun h => folds_iff.mp h.folds, fun h => (folds_iff.mpr h).fixed rfl⟩

end DiceNotation.NumberRun
