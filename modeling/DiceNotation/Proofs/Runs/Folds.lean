import DiceNotation.Proofs.Runs.Neat
import DiceNotation.Proofs.Runs.Values
import Mathlib

/-!
# The way through a text

Folding copies the characters of a text one by one, also those of a number that is glued to a word,
and where a run begins it writes the value of the run.  Whether a number may begin a run depends on
the character before it alone, unless this is a sign, which is glued or not like what it stands
behind.

* `follows`: whether what follows a character belongs to a word.
* `Folds`, `folds_iff`: the way through a text.
* `Folds.eq_or_exists`: the first run of a text.
* `Folds.neat`: single spaces stay single.
-/

namespace DiceNotation.NumberRun

open Text

/-- Whether what follows a character that is copied belongs to a word: the character glues, or it
is one of a number that does. -/
def follows (glued : Bool) (c : Char) (t : Text) : Bool :=
  glues c || glued && (operand? (c :: t)).isSome

theorem follows_of_operand?_eq_none {g : Bool} {c : Char} {t : Text}
    (h : operand? (c :: t) = none) : follows g c t = glues c := by
  rw [follows, h]
  simp

theorem follows_of_operand? {c : Char} {t : Text} (h : operand? (c :: t) ≠ none) :
    follows true c t = true := by
  rw [follows, Option.isSome_iff_ne_none.mpr h, Bool.true_and, Bool.or_true]

section Copying

variable {β : Type} {F : Text → β} {k : Char → β → β}

/-- **A number that is copied at once is copied character by character**, whatever is made of the
characters. -/
theorem cons_of_operand? (hpoint : ∀ t, F ('.' :: t) = k '.' (F t))
    (hF : ∀ {t rest : Text} {tokens : List Text}, operand? t = some (tokens, rest) →
      F t = tokens.flatten.foldr k (F rest)) {c : Char} {t : Text}
    (h : operand? (c :: t) ≠ none) : F (c :: t) = k c (F t) := by
  induction hn : t.length using Nat.strongRecOn generalizing c t with
  | ind n ih =>
    subst hn
    have hdigits : ∀ {w s : Text}, (∀ d ∈ w, isDecimalDigit d = true) →
        (w ++ s).length ≤ t.length → F (w ++ s) = w.foldr k (F s) := by
      intro w s hw hlength
      induction w with
      | nil => rfl
      | cons d w ihw =>
        have hd := hw d List.mem_cons_self
        rw [List.cons_append, List.length_cons] at hlength
        have hsome : operand? (d :: (w ++ s)) ≠ none := fun hnone => by
          cases (head_of_operand?_eq_none hnone d rfl).symm.trans hd
        rw [List.cons_append, ih _ (by omega) hsome rfl, List.foldr_cons,
          ihw (fun e he => hw e (List.mem_cons_of_mem d he)) (by omega)]
    obtain ⟨⟨tokens, s⟩, hoperand⟩ := Option.ne_none_iff_exists'.mp h
    rw [hF hoperand]
    obtain ⟨n, hn, hstops, ⟨rfl, ht⟩ | ⟨d, -, rfl, ht⟩⟩ := operand?_eq_some_iff.mp hoperand
    · rw [List.flatten_singleton]
      cases hn with
      | whole hne hw =>
        obtain ⟨d, w, rfl⟩ := List.exists_cons_of_ne_nil hne
        rw [List.cons_append] at ht
        obtain ⟨rfl, rfl⟩ := List.cons.inj ht
        rw [List.foldr_cons, hdigits (fun e he => hw e (List.mem_cons_of_mem c he)) le_rfl]
      | @fraction w f hne hw _ hf =>
        obtain ⟨d, w, rfl⟩ := List.exists_cons_of_ne_nil hne
        rw [List.append_assoc, List.cons_append, List.cons_append] at ht
        obtain ⟨rfl, rfl⟩ := List.cons.inj ht
        rw [List.cons_append, List.foldr_cons, List.foldr_append, List.foldr_cons,
          hdigits (fun e he => hw e (List.mem_cons_of_mem c he)) le_rfl, hpoint, hdigits hf]
        simp only [List.length_append, List.length_cons]
        omega
    · obtain ⟨rfl, rfl⟩ := List.cons.inj ht
      have hnumber : operand? (n ++ s) = some ([n], s) :=
        operand?_eq_some_iff.mpr ⟨n, hn, hstops, Or.inl ⟨rfl, rfl⟩⟩
      rw [hF hnumber, List.flatten_cons, List.foldr_append]
      rfl

end Copying

/-- **Characters are copied one by one.** -/
theorem foldFrom_cons {g : Bool} {c : Char} {t : Text} (hc : g = true ∨ operand? (c :: t) = none) :
    foldFrom g (c :: t) = foldFrom (follows g c t) t >>= fun u => .ok (c :: u) := by
  by_cases hnone : operand? (c :: t) = none
  · rw [foldFrom_of_operand?_eq_none hnone, follows_of_operand?_eq_none hnone]
  · obtain rfl := hc.resolve_right hnone
    rw [follows_of_operand? hnone]
    refine cons_of_operand? (F := foldFrom true) (k := fun c out => out >>= fun u => .ok (c :: u))
      (fun t => foldFrom_of_operand?_eq_none (operand?_eq_none rfl (by decide) t) true) ?_ hnone
    intro t rest tokens hoperand
    rw [foldFrom_of_operand? hoperand, if_pos rfl]
    induction tokens.flatten with
    | nil => cases foldFrom true rest with | _ => rfl
    | cons d w ih =>
      rw [List.foldr_cons, ← ih]
      cases foldFrom true rest with | _ => rfl

/-! ## Folding as a relation -/

/-- A text is folded: it is copied, and runs are replaced by their values. -/
inductive Folds : Bool → Text → Text → Prop
  | stop {g : Bool} : Folds g [] []
  | copy {g : Bool} {c : Char} {t u : Text} (hc : g = true ∨ operand? (c :: t) = none)
    (h : Folds (follows g c t) t u) : Folds g (c :: t) (c :: u)
  | run {t rest u v : Text} {tokens : List Text} (hoperand : operand? t = some (tokens, rest))
    (hfold : fold (tokens ++ (continuation rest).1) = .ok v)
    (h : Folds true (continuation rest).2 u) : Folds false t (v ++ u)

/-- **The way through a text.** -/
theorem folds_iff {g : Bool} {t u : Text} : Folds g t u ↔ foldFrom g t = .ok u := by
  constructor
  · intro h
    induction h with
    | stop => rw [foldFrom]
    | copy hc _ ih =>
      rw [foldFrom_cons hc, ih]
      rfl
    | run hoperand hfold _ ih =>
      rw [foldFrom_of_operand? hoperand, if_neg Bool.false_ne_true, hfold, ih]
      rfl
  · intro h
    induction hn : t.length using Nat.strongRecOn generalizing g t u with
    | ind n ih =>
      subst hn
      cases t with
      | nil =>
        rw [foldFrom] at h
        cases h
        exact .stop
      | cons c t =>
        by_cases hc : g = true ∨ operand? (c :: t) = none
        · rw [foldFrom_cons hc] at h
          obtain ⟨u, hu, h⟩ := exists_of_bind_eq_ok h
          cases h
          exact .copy hc (ih _ (Nat.lt_succ_self _) hu rfl)
        · obtain ⟨hg, hsome⟩ := not_or.mp hc
          obtain rfl := Bool.eq_false_iff.mpr hg
          obtain ⟨⟨tokens, rest⟩, hoperand⟩ := Option.ne_none_iff_exists'.mp hsome
          rw [foldFrom_of_operand? hoperand, if_neg Bool.false_ne_true] at h
          obtain ⟨v, hv, h⟩ := exists_of_bind_eq_ok h
          obtain ⟨u, hu, h⟩ := exists_of_bind_eq_ok h
          cases h
          refine .run hoperand hv (ih _ ?_ hu rfl)
          exact Nat.lt_of_le_of_lt (length_continuation_le rest) (length_operand?_lt hoperand)

namespace Folds

variable {g : Bool} {t u : Text}

/-- Where a word may go on at the start of a text, it begins as before. -/
theorem head?_eq (h : Folds true t u) : u.head? = t.head? := by
  cases h with
  | stop => rfl
  | copy _ _ => rfl

/-- What begins with no blank does so after folding. -/
theorem exists_head? (h : Folds g t u) (ht : ∃ c ∈ t.head?, isBlank c = false) :
    ∃ c ∈ u.head?, isBlank c = false := by
  cases h with
  | stop => exact ht
  | copy _ _ => exact ht
  | run hoperand hfold _ =>
    have hv := runValue_of_fold hoperand hfold
    obtain ⟨c, v, rfl⟩ := List.exists_cons_of_ne_nil hv.ne_nil
    exact ⟨c, rfl, hv.not_isBlank c List.mem_cons_self⟩

theorem not_isBlank_head? (h : Folds g t u) (ht : ∀ c ∈ t.head?, isBlank c = false) :
    ∀ c ∈ u.head?, isBlank c = false := by
  intro c hc
  cases t with
  | nil =>
    cases h with
    | stop => cases hc
    | run hoperand _ _ => cases hoperand
  | cons d t =>
    obtain ⟨e, he, hblank⟩ := h.exists_head? ⟨d, rfl, ht d rfl⟩
    cases hc.symm.trans he
    exact hblank

/-- **Folding leaves single spaces.** -/
theorem neat (h : Folds g t u) (ht : Neat t) : Neat u := by
  induction h with
  | stop => exact ht
  | copy _ h ih => exact ⟨fun hc => ⟨(ht.1 hc).1, h.exists_head? (ht.1 hc).2⟩, ih ht.2⟩
  | @run t rest u v tokens hoperand hfold _ ih =>
    refine (neat_append_iff (runValue_of_fold hoperand hfold).not_isBlank).mpr (ih ?_)
    obtain ⟨rfl, -, -⟩ := flatten_of_operand? hoperand
    obtain ⟨front, hfront⟩ := continuation_suffix rest
    have hrest : Neat rest := ht.of_append
    rw [← hfront] at hrest
    exact hrest.of_append

/-- **A text is left alone, or it has a first run.**  Where that one begins, nothing glues. -/
theorem eq_or_exists (h : Folds g t u) :
    t = u ∨ ∃ p s v u' rest tokens, t = p ++ s ∧ u = p ++ (v ++ u') ∧
      operand? s = some (tokens, rest) ∧ fold (tokens ++ (continuation rest).1) = .ok v ∧
      Folds true (continuation rest).2 u' ∧ (p = [] → g = false) ∧
      ∀ c ∈ p.getLast?, glues c = false := by
  induction h with
  | stop => exact Or.inl rfl
  | @copy g c t u _ _ ih =>
    rcases ih with rfl | ⟨p, s, v, u', rest, tokens, rfl, rfl, hoperand, hfold, hrest, hp, hlast⟩
    · exact Or.inl rfl
    · refine Or.inr ⟨c :: p, s, v, u', rest, tokens, rfl, rfl, hoperand, hfold, hrest, nofun, ?_⟩
      cases p with
      | nil =>
        rintro d ⟨⟩
        exact (Bool.or_eq_false_iff.mp (hp rfl)).1
      | cons d p =>
        rw [List.getLast?_cons_cons]
        exact hlast
  | @run t rest u v tokens hoperand hfold h _ =>
    exact Or.inr ⟨[], t, v, u, rest, tokens, rfl, rfl, hoperand, hfold, h, fun _ => rfl, nofun⟩

end Folds

end DiceNotation.NumberRun
