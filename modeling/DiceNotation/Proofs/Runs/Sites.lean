import DiceNotation.Proofs.Runs.Folds
import Mathlib

/-!
# Runs and what stands around them

When a run is folded, its value comes to stand where the run stood, and what was a number there may
become part of another one.  Before the run this is a sign that was copied, because no digit stood
behind it: in `++3` the second plus belongs to the run, and the first one then stands before its
value.  Behind the run it is a fraction, as in `4.0.50`, or a number that goes on a run, because it
came to stand behind a sign that was none of a number, as in `5 *-+3`.

A value is quiet where it stays what it is.  A plus may stand before it only if the value is a word
or has a sign itself, and a minus not before zero.  With a fraction behind it, a whole value must
make up the text of a double, and without one no further number may come to stand behind it.  A sign
that is glued to a word is no matter, because with its number it is copied.

Apart from this, the digits of a value may be out of range for a whole number, as they are read
without the minus.  Nothing is said of such values here.

* `Site`, `sites`: the runs of a text.
* `TakesFraction`, `rejoins`: what may come to stand behind a value.
* `Site.Quiet`, `Quiet`: that values stay what they are.
* `Site.InRange`, `InRange`: that their digits can be read.
* `sitesFrom_cons`: the runs behind a character that is copied.
* `exists_lead`: what stands behind a run, up to the character that decides that it ends.
* `next?_eq_none_iff_rejoins`: where a run goes on once the text is folded.
-/

namespace DiceNotation.NumberRun

open Text

/-! ## The runs of a text -/

/-- What stands directly before a place of a text. -/
inductive Before
  | nothing
  | sign (c : Char)
  | gluedSign (c : Char)
  deriving DecidableEq

/-- What stands before the text behind a character that is copied. -/
def Before.of (glued : Bool) (c : Char) : Before :=
  if isSign c then if glued then .gluedSign c else .sign c else .nothing

/-- A run of a text, with what stands around it. -/
structure Site where
  /-- The sign that is copied directly before the run. -/
  before : Before
  /-- The tokens of the run. -/
  tokens : List Text
  /-- The text behind the run. -/
  after : Text

/-- The runs of a text that are folded, with what stands before the text. -/
def sitesFrom (glued : Bool) (before : Before) (t : Text) : List Site :=
  match t with
  | [] => []
  | c :: t =>
    match _h : operand? (c :: t) with
    | none => sitesFrom (glues c) (Before.of glued c) t
    | some (tokens, rest) =>
      if glued then sitesFrom true .nothing rest
      else ⟨before, tokens ++ (continuation rest).1, (continuation rest).2⟩ ::
        sitesFrom true .nothing (continuation rest).2
termination_by t.length
decreasing_by
  · exact Nat.lt_succ_self _
  · exact length_operand?_lt _h
  · exact Nat.lt_of_le_of_lt (length_continuation_le _) (length_operand?_lt _h)

/-- The runs of a text that are folded. -/
def sites (t : Text) : List Site := sitesFrom false .nothing (squeeze (trim t))

/-! ## Quiet values -/

/-- The fraction at the start of a text, which may be none, and what follows it. -/
def fraction : Text → Text × Text
  | '.' :: t => if (digits t).isEmpty then ([], '.' :: t) else ('.' :: digits t, afterDigits t)
  | t => ([], t)

/-- Whether the value `v` is a whole number that gets the fraction at the start of `w`. -/
def TakesFraction (v w : Text) : Prop :=
  (Whole.readInt? v).isSome = true ∧ (fraction w).1 ≠ []

instance (v w : Text) : Decidable (TakesFraction v w) :=
  inferInstanceAs (Decidable (_ ∧ _))

/-- A value without its minus. -/
def magnitude : Text → Text
  | '-' :: n => n
  | n => n

/-- Whether a run that ended before a text goes on with it once the text is folded: behind blanks
and an operator stands a sign that is copied, and a number comes to stand directly behind it. -/
def rejoins (t : Text) : Bool :=
  match trimStart (operator (trimStart t)).2 with
  | [] => false
  | c :: t => isSign c && (foldFrom false t).toOption.any fun u => (number? u).isSome

/-- The value `v` of a run becomes the number of a sign that is glued to a word. -/
def Site.Glued (x : Site) (v : Text) : Prop :=
  (∃ c, x.before = .gluedSign c) ∧ number? v ≠ none

/-- The value `v` of a run stays what it is, where `w` is what stands behind the run, folded. -/
structure Site.Quiet (x : Site) (v w : Text) : Prop where
  /-- It does not become the number of a plus. -/
  plus : x.before = .sign '+' → number? v = none
  /-- It does not become the number of a minus if it is zero. -/
  minus : x.before = .sign '-' → v = ['0'] → TakesFraction v w
  /-- With a fraction it is the text of a double, and a run ends behind the fraction. -/
  fraction : TakesFraction v w →
    Number.floatText (Expr.decimalValue (magnitude v ++ (fraction w).1)) =
        magnitude v ++ (fraction w).1 ∧
      next? (NumberRun.fraction w).2 = none
  /-- Without a fraction no number comes to stand behind it. -/
  alone : ¬ TakesFraction v w → v ∉ words → rejoins x.after = false

/-- The value `v` of a run is copied with a sign that is glued to a word, or stays what it is. -/
def Site.Stays (x : Site) (v w : Text) : Prop := x.Glued v ∨ x.Quiet v w

/-- The digits of the value `v` of a run can be read as those of a whole number, with the minus that
is written with it or comes to stand before it. -/
def Site.InRange (x : Site) (v w : Text) : Prop :=
  ¬ TakesFraction v w → ∀ n ∈ Whole.readInt? v,
    (n < 0 → Whole.lowest < n) ∧ (x.before = .sign '-' → n ≤ Whole.highest)

/-- A property of the runs of a text, their values and what stands behind them, folded. -/
def ForValues (P : Site → Text → Text → Prop) (xs : List Site) : Prop :=
  ∀ x ∈ xs, ∀ v w, fold x.tokens = .ok v → foldFrom true x.after = .ok w → P x v w

/-- The values of all runs stay what they are. -/
def Quiet : List Site → Prop := ForValues Site.Stays

/-- The digits of the values of all runs can be read. -/
def InRange : List Site → Prop := ForValues Site.InRange

instance (x : Site) (v : Text) : Decidable (x.Glued v) :=
  match hx : x.before with
  | .gluedSign c => decidable_of_iff (number? v ≠ none) ⟨fun h => ⟨⟨c, hx⟩, h⟩, fun h => h.2⟩
  | .nothing => isFalse fun ⟨⟨_, h⟩, _⟩ => by cases hx.symm.trans h
  | .sign _ => isFalse fun ⟨⟨_, h⟩, _⟩ => by cases hx.symm.trans h

instance (v : Text) : Decidable (v ∈ words) := decidable_of_iff _ mem_words_iff.symm

instance (x : Site) (v w : Text) : Decidable (x.Quiet v w) :=
  decidable_of_iff ((x.before = .sign '+' → number? v = none) ∧
      (x.before = .sign '-' → v = ['0'] → TakesFraction v w) ∧
      (TakesFraction v w →
        Number.floatText (Expr.decimalValue (magnitude v ++ (fraction w).1)) =
            magnitude v ++ (fraction w).1 ∧
          next? (fraction w).2 = none) ∧
      (¬ TakesFraction v w → v ∉ words → rejoins x.after = false))
    ⟨fun h => ⟨h.1, h.2.1, h.2.2.1, h.2.2.2⟩, fun h => ⟨h.plus, h.minus, h.fraction, h.alone⟩⟩

instance (x : Site) (v w : Text) : Decidable (x.Stays v w) :=
  inferInstanceAs (Decidable (_ ∨ _))

instance (x : Site) (v w : Text) : Decidable (x.InRange v w) :=
  inferInstanceAs (Decidable (¬ _ → ∀ n ∈ _, _))

/-- What is said of the value of a run can be decided if it can be of every value. -/
instance (P : Site → Text → Text → Prop) [∀ x v w, Decidable (P x v w)] (x : Site) :
    Decidable (∀ v w, fold x.tokens = .ok v → foldFrom true x.after = .ok w → P x v w) :=
  match hv : fold x.tokens, hw : foldFrom true x.after with
  | .ok v, .ok w =>
    decidable_of_iff (P x v w)
      ⟨fun h v' w' hv' hw' => by cases hv'; cases hw'; exact h, fun h => h v w rfl rfl⟩
  | .error _, _ => isTrue fun _ _ hv' => by cases hv'
  | _, .error _ => isTrue fun _ _ _ hw' => by cases hw'

instance (P : Site → Text → Text → Prop) [∀ x v w, Decidable (P x v w)] (xs : List Site) :
    Decidable (ForValues P xs) :=
  inferInstanceAs (Decidable (∀ x ∈ xs, ∀ v w, _ → _ → P x v w))

instance (xs : List Site) : Decidable (Quiet xs) :=
  inferInstanceAs (Decidable (ForValues Site.Stays xs))

instance (xs : List Site) : Decidable (InRange xs) :=
  inferInstanceAs (Decidable (ForValues Site.InRange xs))

/-! ## Runs from one character to the next -/

theorem sitesFrom_of_operand?_eq_none {c : Char} {t : Text} (h : operand? (c :: t) = none)
    (g : Bool) (b : Before) :
    sitesFrom g b (c :: t) = sitesFrom (glues c) (Before.of g c) t := by
  rw [sitesFrom]
  split
  · rfl
  · next hsome => cases h.symm.trans hsome

theorem sitesFrom_of_operand? {t rest : Text} {tokens : List Text}
    (h : operand? t = some (tokens, rest)) (g : Bool) (b : Before) :
    sitesFrom g b t = if g then sitesFrom true .nothing rest
      else ⟨b, tokens ++ (continuation rest).1, (continuation rest).2⟩ ::
        sitesFrom true .nothing (continuation rest).2 := by
  cases t with
  | nil => cases h
  | cons c t =>
    rw [sitesFrom]
    split
    · next hnone => cases h.symm.trans hnone
    · next hsome =>
      cases h.symm.trans hsome
      rfl

/-- Where a word may go on no run begins, and so it does not matter what stands before. -/
theorem sitesFrom_true (b b' : Before) (t : Text) : sitesFrom true b t = sitesFrom true b' t := by
  cases hoperand : operand? t with
  | some cut => rw [sitesFrom_of_operand? hoperand, sitesFrom_of_operand? hoperand]; rfl
  | none =>
    cases t with
    | nil => rw [sitesFrom, sitesFrom]
    | cons c t =>
      rw [sitesFrom_of_operand?_eq_none hoperand, sitesFrom_of_operand?_eq_none hoperand]

/-- **The runs behind a character that is copied.** -/
theorem sitesFrom_cons {g : Bool} {c : Char} {t : Text}
    (hc : g = true ∨ operand? (c :: t) = none) (b : Before) :
    sitesFrom g b (c :: t) = sitesFrom (follows g c t) (Before.of g c) t := by
  by_cases hnone : operand? (c :: t) = none
  · rw [sitesFrom_of_operand?_eq_none hnone, follows_of_operand?_eq_none hnone]
  · obtain rfl := hc.resolve_right hnone
    rw [follows_of_operand? hnone, sitesFrom_true b .nothing,
      sitesFrom_true (Before.of true c) .nothing]
    refine cons_of_operand? (F := sitesFrom true .nothing) (k := fun _ xs => xs) (fun t => ?_)
      (fun hoperand => ?_) hnone
    · rw [sitesFrom_of_operand?_eq_none (operand?_eq_none rfl (by decide) t)]
      exact sitesFrom_true _ _ t
    · rw [sitesFrom_of_operand? hoperand, if_pos rfl]
      induction (List.flatten _ : Text) with
      | nil => rfl
      | cons d w ih => exact ih

/-! ## Where a run goes on -/

/-- An operator is read again before a text that begins as the one behind it did. -/
theorem operator_append_of_head?_eq {t u : Text} (h : u.head? = (operator t).2.head?) :
    operator ((operator t).1.flatten ++ u) = ((operator t).1, u) := by
  revert h
  fun_cases operator t with
  | case2 t hstars =>
    intro h
    have hjoins : Token.star.joins = true := rfl
    refine Strung.operator_append hjoins rfl fun c hc => ?_
    rintro rfl
    rw [h] at hc
    obtain ⟨t, rfl⟩ := List.head?_eq_some_iff.mp hc
    exact hstars t rfl
  | case6 t _ hstar hslash hplus hminus =>
    intro h
    cases u with
    | nil => rfl
    | cons c u =>
      obtain ⟨t, rfl⟩ := List.head?_eq_some_iff.mp h.symm
      refine operator_of_notMem (fun hc => ?_) u
      have hall : c = '+' ∨ c = '-' ∨ c = '*' ∨ c = '/' := by simpa using hc
      rcases hall with rfl | rfl | rfl | rfl
      · exact hplus t rfl
      · exact hminus t rfl
      · exact hstar t rfl
      · exact hslash t rfl
  | _ => exact fun _ => rfl

theorem flatten_operator_append (t : Text) : (operator t).1.flatten ++ (operator t).2 = t := by
  fun_cases operator t <;> rfl

theorem not_isDecimalDigit_of_mem_operator (t : Text) :
    ∀ c ∈ (operator t).1.flatten, isDecimalDigit c = false := by
  fun_cases operator t
  all_goals
    dsimp only
    decide

theorem exists_blanks_append_trimStart (t : Text) :
    ∃ b, (∀ c ∈ b, isBlank c = true) ∧ b ++ trimStart t = t :=
  ⟨_, fun _ hc => List.mem_takeWhile_imp hc, List.takeWhile_append_dropWhile⟩

/-- Where a run ends, what decides that it does is a character that is no digit.  Before it no digit
stands, and whatever stands behind it, a run goes on there or nowhere. -/
theorem exists_lead {t : Text} (h : next? t = none) :
    ∃ p, (∀ c ∈ p, isDecimalDigit c = false) ∧
      p ++ trimStart (operator (trimStart t)).2 = t ∧
      ∀ c t', trimStart (operator (trimStart t)).2 = c :: t' → isDecimalDigit c = false ∧
        ∀ u, trimStart (operator (trimStart (p ++ c :: u))).2 = c :: u := by
  have hblanks : ∀ {b : Text}, (∀ c ∈ b, isBlank c = true) → ∀ c ∈ b, isDecimalDigit c = false :=
    fun hb c hc => forall_of_isBlank (p := fun c => isDecimalDigit c = false) (by decide) (hb c hc)
  have hhead : ∀ (x u : Text) (c : Char) (t' : Text),
      (x ++ c :: u).head? = (x ++ c :: t').head? := by
    intro x u c t'
    cases x with | _ => rfl
  obtain ⟨b, hb, ht⟩ := exists_blanks_append_trimStart t
  obtain ⟨b', hb', ht'⟩ := exists_blanks_append_trimStart (operator (trimStart t)).2
  have hoperator := flatten_operator_append (trimStart t)
  refine ⟨b ++ ((operator (trimStart t)).1.flatten ++ b'), ?_, ?_, fun c t' hc => ⟨?_, fun u => ?_⟩⟩
  · intro c hc
    rcases List.mem_append.mp hc with hc | hc
    · exact hblanks hb c hc
    rcases List.mem_append.mp hc with hc | hc
    · exact not_isDecimalDigit_of_mem_operator _ c hc
    · exact hblanks hb' c hc
  · rw [List.append_assoc, List.append_assoc, ht', hoperator, ht]
  · rw [next?_eq_none_iff] at h
    exact head_of_operand?_eq_none h c (by rw [hc]; rfl)
  · rw [hc] at ht'
    rw [List.append_assoc, List.append_assoc, trimStart_blanks_append hb,
      operator_append_of_head?_eq]
    · refine trimStart_blanks_append hb' fun d hd => ?_
      cases hd
      exact not_blank_of_head?_trimStart (t := (operator (trimStart t)).2) (by rw [hc]; rfl)
    · rw [hhead b' u c t', ht']
    · intro d hd
      rw [← List.append_assoc, hhead _ u c t', List.append_assoc, ht', hoperator] at hd
      exact not_blank_of_head?_trimStart hd

/-- Where no digit stands, characters are copied. -/
theorem foldFrom_append_of_not_digit {p t : Text} (hp : ∀ c ∈ p, isDecimalDigit c = false)
    (ht : ∀ c ∈ t.head?, isDecimalDigit c = false) (g : Bool) :
    ∃ g', foldFrom g (p ++ t) = foldFrom g' t >>= fun u => .ok (p ++ u) := by
  induction p generalizing g with
  | nil => exact ⟨g, (bind_pure (foldFrom g t)).symm⟩
  | cons c p ih =>
    have hhead : ∀ d ∈ (p ++ t).head?, isDecimalDigit d = false := by
      cases p with
      | nil => exact ht
      | cons d p =>
        rintro e ⟨⟩
        exact hp _ (List.mem_cons_of_mem c List.mem_cons_self)
    have hnone : operand? (c :: (p ++ t)) = none := by
      rw [operand?_eq_none_iff]
      split
      · exact number?_eq_none hhead
      · exact hp c List.mem_cons_self
    obtain ⟨g', hg'⟩ := ih (fun d hd => hp d (List.mem_cons_of_mem c hd)) (glues c)
    refine ⟨g', ?_⟩
    rw [List.cons_append, foldFrom_of_operand?_eq_none hnone, hg']
    cases foldFrom g' t with | _ => rfl

/-- **Where a run goes on** with what stands behind it, once this is folded. -/
theorem next?_eq_none_iff_rejoins {t u : Text} (ht : next? t = none) (h : foldFrom true t = .ok u) :
    next? u = none ↔ rejoins t = false := by
  obtain ⟨p, hp, hpt, hlead⟩ := exists_lead ht
  unfold rejoins
  cases hs : trimStart (operator (trimStart t)).2 with
  | nil =>
    -- nothing but blanks and an operator is left, and this is copied
    obtain ⟨g', hg'⟩ := foldFrom_append_of_not_digit (t := []) hp nofun true
    rw [hs] at hpt
    rw [hpt, h, foldFrom] at hg'
    obtain rfl : u = p ++ [] := Except.ok.inj hg'
    rw [hpt]
    exact iff_of_true ht rfl
  | cons c s =>
    obtain ⟨hdigit, hread⟩ := hlead c s hs
    rw [hs] at hpt
    have hnone : operand? (c :: s) = none := hs ▸ next?_eq_none_iff.mp ht
    obtain ⟨g', hg'⟩ := foldFrom_append_of_not_digit (t := c :: s) hp (by rintro d ⟨⟩; exact hdigit)
      true
    rw [hpt, h, foldFrom_of_operand?_eq_none hnone] at hg'
    obtain ⟨w, hw, hu⟩ := exists_of_bind_eq_ok hg'.symm
    obtain ⟨v, hv, hw⟩ := exists_of_bind_eq_ok hw
    cases hw
    cases hu
    rw [next?_eq_none_iff, hread v, operand?_eq_none_iff]
    dsimp only
    by_cases hsign : isSign c = true
    · rw [not_glues_of_isSign hsign] at hv
      rw [if_pos hsign, hsign, hv]
      simp [Except.toOption]
    · rw [if_neg hsign, Bool.eq_false_iff.mpr hsign]
      exact iff_of_true hdigit rfl

end DiceNotation.NumberRun
