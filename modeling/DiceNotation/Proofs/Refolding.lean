import DiceNotation.Proofs.Expr.Values
import DiceNotation.Proofs.Folding

/-!
# Folding texts of single numbers

Where no number is followed by another one, with or without an operator between them, every run is a
single number.  Without a sign it stays as it is written, and with one it becomes the decimal text
of its value; either way it stands for the number that it stood for.  Numbers that are glued to a
letter are copied, and so is every character that begins no number.

So a text can be folded part by part.  What a part is folded to depends on the character before it,
which may glue, but what is said of it here does not: `Refolds x s P` says that `x` before `s` is
folded to a text of the kind `P`, whatever came before `x`.

* `number?_eq_none`, `operand?_eq_none`, `next?_eq_none`: where no number begins.
* `Refolds`, `Refolds.append`: the parts of a text one after another.
* `refolds_plain`, `refolds_blanks`, `refolds_dashes`, `refolds_glued`: what is copied.
* `refolds_spells`, `refolds_pluses`, `refolds_join`: numbers and lists of them.
-/

namespace DiceNotation

open Text NumberRun

/-! ## Where numbers begin -/

theorem number?_eq_none {t : Text} (h : ∀ c ∈ t.head?, isDecimalDigit c = false) :
    number? t = none := by
  have hdigits : digits t = [] := by
    cases t with
    | nil => rfl
    | cons c t =>
      unfold digits
      rw [List.takeWhile_cons_of_neg]
      rw [h c rfl]
      exact Bool.false_ne_true
  unfold number?
  rw [hdigits]
  rfl

theorem operand?_eq_none {c : Char} (hsign : isSign c = false) (hc : isDecimalDigit c = false)
    (t : Text) : operand? (c :: t) = none := by
  have hnumber : number? (c :: t) = none := number?_eq_none (by rintro d ⟨⟩; exact hc)
  unfold operand?
  dsimp only
  rw [hsign, if_neg Bool.false_ne_true, hnumber]
  rfl

theorem operand?_sign_eq_none {c : Char} (hsign : isSign c = true) {t : Text}
    (ht : ∀ d ∈ t.head?, isDecimalDigit d = false) : operand? (c :: t) = none := by
  unfold operand?
  dsimp only
  rw [hsign, if_pos rfl, number?_eq_none ht]
  rfl

theorem operand?_sign_append {c : Char} (hsign : isSign c = true) {w t : Text} (hw : Numeral w)
    (ht : ∀ d ∈ t.head?, isDecimalDigit d = false ∧ d ≠ '.') :
    operand? (c :: (w ++ t)) = some ([[c], w], t) := by
  unfold operand?
  dsimp only
  rw [hsign, if_pos rfl, hw.number? ht]
  rfl

/-! ## Parts -/

theorem foldFrom_of_operand?_eq_none {c : Char} {t : Text} (h : operand? (c :: t) = none)
    (g : Bool) : foldFrom g (c :: t) = foldFrom (glues c) t >>= fun rest => .ok (c :: rest) := by
  rw [foldFrom]
  split
  · rfl
  · next hsome => cases h.symm.trans hsome

theorem foldFrom_of_operand? {t rest : Text} {tokens : List Text}
    (h : operand? t = some (tokens, rest)) (g : Bool) :
    foldFrom g t = if g then foldFrom true rest >>= fun out => .ok (tokens.flatten ++ out)
      else fold (tokens ++ (continuation rest).1) >>= fun value =>
        foldFrom true (continuation rest).2 >>= fun out => .ok (value ++ out) := by
  cases t with
  | nil => cases h
  | cons c t =>
    rw [foldFrom]
    split
    · next hnone => cases h.symm.trans hnone
    · next hsome =>
      cases h.symm.trans hsome
      rfl

section Parts

variable {x y s : Text} {P Q R : Text → Prop} {tokens : List Text} {n : Int}

/-- A text before another one is folded to a text of a kind, and the other one by itself. -/
def Refolds (x s : Text) (P : Text → Prop) : Prop :=
  ∀ g out, foldFrom g (x ++ s) = .ok out →
    ∃ y g' out', P y ∧ foldFrom g' s = .ok out' ∧ out = y ++ out'

theorem Refolds.imp (h : Refolds x s P) (hPQ : ∀ y, P y → Q y) : Refolds x s Q := by
  intro g out hout
  obtain ⟨y, g', out', hy, hrest, rfl⟩ := h g out hout
  exact ⟨y, g', out', hPQ y hy, hrest, rfl⟩

theorem refolds_nil (s : Text) : Refolds [] s (· = []) :=
  fun g out hout => ⟨[], g, out, rfl, hout, rfl⟩

/-- **Parts are folded one after another.** -/
theorem Refolds.append (hx : Refolds x (y ++ s) P) (hy : Refolds y s Q)
    (hR : ∀ u v, P u → Q v → R (u ++ v)) : Refolds (x ++ y) s R := by
  intro g out hout
  rw [List.append_assoc] at hout
  obtain ⟨u, g₁, out₁, hu, hout₁, rfl⟩ := hx g out hout
  obtain ⟨v, g₂, out₂, hv, hout₂, rfl⟩ := hy g₁ out₁ hout₁
  exact ⟨u ++ v, g₂, out₂, hR u v hu hv, hout₂, (List.append_assoc u v out₂).symm⟩

/-- A text as it stands before what is folded. -/
theorem Refolds.append_left (hx : Refolds x (y ++ s) (· = x)) (hy : Refolds y s Q) :
    Refolds (x ++ y) s fun t => ∃ v, Q v ∧ t = x ++ v :=
  hx.append hy fun _ v hu hv => ⟨v, hv, by rw [hu]⟩

/-- A text as it stands behind what is folded. -/
theorem Refolds.append_right (hx : Refolds x (y ++ s) P) (hy : Refolds y s (· = y)) :
    Refolds (x ++ y) s fun t => ∃ u, P u ∧ t = u ++ y :=
  hx.append hy fun u _ hu hv => ⟨u, hu, by rw [hv]⟩

/-- What a whole text is folded to. -/
theorem Refolds.of_foldFrom {g : Bool} {out : Text} (h : Refolds x [] P)
    (hout : foldFrom g x = .ok out) : P out := by
  rw [← List.append_nil x] at hout
  obtain ⟨y, g', out', hy, hrest, rfl⟩ := h g out hout
  rw [foldFrom] at hrest
  rwa [← Except.ok.inj hrest, List.append_nil]

/-- A character that begins no number is copied. -/
theorem refolds_cons {c : Char} (h : operand? (c :: s) = none) : Refolds [c] s (· = [c]) := by
  intro g out hout
  rw [List.singleton_append, foldFrom_of_operand?_eq_none h] at hout
  obtain ⟨out', hrest, hout⟩ := exists_of_bind_eq_ok hout
  exact ⟨[c], glues c, out', rfl, hrest, (Except.ok.inj hout).symm⟩

/-- Characters that begin no number are copied. -/
theorem refolds_plain (hx : ∀ c ∈ x, isSign c = false ∧ isDecimalDigit c = false) (s : Text) :
    Refolds x s (· = x) := by
  induction x with
  | nil => exact refolds_nil s
  | cons c x ih =>
    obtain ⟨hsign, hdigit⟩ := hx c List.mem_cons_self
    have hfirst : Refolds [c] (x ++ s) (· = [c]) := refolds_cons (operand?_eq_none hsign hdigit _)
    have hothers := ih fun d hd => hx d (List.mem_cons_of_mem c hd)
    exact hfirst.append hothers fun u v hu hv => by rw [hu, hv]; rfl

theorem refolds_blanks (hx : ∀ c ∈ x, isBlank c = true) (s : Text) : Refolds x s (· = x) := by
  refine refolds_plain (fun c hc => ?_) s
  exact forall_of_isBlank (p := fun c => isSign c = false ∧ isDecimalDigit c = false) (by decide)
    (hx c hc)

/-- Dashes are copied if no number follows them. -/
theorem refolds_dashes (hs : ∀ c ∈ s.head?, isDecimalDigit c = false) (n : Nat) :
    Refolds (List.replicate n '-') s (· = List.replicate n '-') := by
  induction n with
  | zero => exact refolds_nil s
  | succ n ih =>
    have hhead : ∀ c ∈ (List.replicate n '-' ++ s).head?, isDecimalDigit c = false := by
      cases n with
      | zero => exact hs
      | succ n =>
        rintro c ⟨⟩
        decide
    have hfirst : Refolds ['-'] (List.replicate n '-' ++ s) (· = ['-']) :=
      refolds_cons (operand?_sign_eq_none rfl hhead)
    exact hfirst.append ih fun u v hu hv => by rw [hu, hv]; rfl

/-- A number of which no run goes on is folded by itself, or it is glued and stays. -/
theorem refolds_operand (hoperand : operand? (x ++ s) = some (tokens, s)) (hs : next? s = none)
    (hflatten : tokens.flatten = x) (hx : P x) (hfold : ∀ y, fold tokens = .ok y → P y) :
    Refolds x s P := by
  intro g out hout
  rw [foldFrom_of_operand? hoperand] at hout
  cases g with
  | true =>
    obtain ⟨out', hrest, hout⟩ := exists_of_bind_eq_ok hout
    rw [hflatten] at hout
    exact ⟨x, true, out', hx, hrest, (Except.ok.inj hout).symm⟩
  | false =>
    rw [if_neg Bool.false_ne_true, Strung.continuation_of_none hs, List.append_nil] at hout
    obtain ⟨y, hy, hout⟩ := exists_of_bind_eq_ok hout
    obtain ⟨out', hrest, hout⟩ := exists_of_bind_eq_ok hout
    exact ⟨y, true, out', hfold y hy, hrest, (Except.ok.inj hout).symm⟩

/-- A letter and the number that is glued to it are copied. -/
theorem refolds_glued {c : Char} (hsign : isSign c = false) (hdigit : isDecimalDigit c = false)
    (hc : glues c = true) (hoperand : operand? (x ++ s) = some (tokens, s))
    (hflatten : tokens.flatten = x) : Refolds (c :: x) s (· = c :: x) := by
  intro g out hout
  rw [List.cons_append, foldFrom_of_operand?_eq_none (operand?_eq_none hsign hdigit _), hc,
    foldFrom_of_operand? hoperand, if_pos rfl, hflatten] at hout
  obtain ⟨out₁, hout₁, hout⟩ := exists_of_bind_eq_ok hout
  obtain ⟨out₂, hout₂, hout₁⟩ := exists_of_bind_eq_ok hout₁
  refine ⟨c :: x, true, out₂, rfl, hout₂, ?_⟩
  rw [← Except.ok.inj hout, ← Except.ok.inj hout₁, List.cons_append]

/-! ## Single numbers -/

/-- A number is not gone on with by a text, and neither is a run. -/
def Breaks (s : Text) : Prop :=
  (∀ c ∈ s.head?, isDecimalDigit c = false ∧ c ≠ '.') ∧ next? s = none

/-- Any other character is no operator. -/
theorem operator_of_notMem {c : Char} (h : c ∉ "+-*/".toList) (t : Text) :
    operator (c :: t) = ([], c :: t) := by
  unfold operator
  split
  · next heq => cases heq; exact absurd (by decide) h
  · next heq => cases heq; exact absurd (by decide) h
  · next heq => cases heq; exact absurd (by decide) h
  · next heq => cases heq; exact absurd (by decide) h
  · next heq => cases heq; exact absurd (by decide) h
  · rfl

/-- No run goes on after blanks if what follows them is no digit, sign or operator. -/
theorem next?_eq_none {b t : Text} (hb : ∀ c ∈ b, isBlank c = true)
    (ht : ∀ c ∈ t.head?, isBlank c = false ∧ isDecimalDigit c = false ∧ c ∉ "+-*/".toList) :
    next? (b ++ t) = none := by
  unfold next?
  rw [trimStart_blanks_append hb fun c hc => (ht c hc).1]
  dsimp only
  cases t with
  | nil => rfl
  | cons c t =>
    obtain ⟨hblank, hdigit, hoperator⟩ := ht c rfl
    have hsign : isSign c = false := by
      rw [Bool.eq_false_iff]
      intro hsign
      rw [isSign, Bool.or_eq_true, beq_iff_eq, beq_iff_eq] at hsign
      rcases hsign with rfl | rfl
      · exact hoperator (by decide)
      · exact hoperator (by decide)
    rw [operator_of_notMem hoperator, trimStart_cons_of_not_blank hblank,
      operand?_eq_none hsign hdigit]
    rfl

/-- A run ends before blanks and a character that is no part of one. -/
theorem breaks_append {b : Text} (hb : ∀ c ∈ b, isBlank c = true) {c : Char}
    (hc : isBlank c = false ∧ isDecimalDigit c = false ∧ c ≠ '.' ∧ c ∉ "+-*/".toList) (t : Text) :
    Breaks (b ++ c :: t) := by
  obtain ⟨hblank, hdigit, hpoint, hoperator⟩ := hc
  refine ⟨fun d hd => ?_, next?_eq_none hb ?_⟩
  · cases b with
    | nil =>
      cases hd
      exact ⟨hdigit, hpoint⟩
    | cons e b =>
      cases hd
      exact forall_of_isBlank (p := fun c => isDecimalDigit c = false ∧ c ≠ '.') (by decide)
        (hb d List.mem_cons_self)
  · rintro d ⟨⟩
    exact ⟨hblank, hdigit, hoperator⟩

/-- **A signed number folds to what spells its value.** -/
theorem spells_of_fold_sign {c : Char} {w out : Text} (hc : c = '+' ∨ c = '-') (hw : Numeral w)
    (hn : Whole.read? (c :: w) = some n) (h : fold [[c], w] = .ok out) : Spells out n := by
  have hexpression : expression false [[c], w] = [c] ++ w := by
    have hnumber : isNumber [c] = false := by
      rcases hc with rfl | rfl
      · rfl
      · rfl
    rw [Strung.expression_cons (Or.inl rfl), hnumber, Strung.expression_cons (Or.inl rfl)]
    exact congrArg _ (List.append_nil w)
  unfold fold at h
  rw [if_neg (show ¬ isPlainNumber [[c], w] = true from Bool.false_ne_true), hexpression] at h
  obtain ⟨v, hv, h⟩ := exists_of_bind_eq_ok h
  obtain rfl := Except.ok.inj h
  have hplus : Token.spelling? .plus = some ['+'] := rfl
  have hminus : Token.spelling? .minus = some ['-'] := rfl
  rcases hc with rfl | rfl
  · obtain ⟨m, hm, happly⟩ := exists_of_evaluate_sign hplus rfl hw hv
    obtain rfl : Number.int m = v := Except.ok.inj happly
    rw [hw.read?_plus, hm] at hn
    obtain rfl := Option.some.inj hn
    obtain ⟨rfl, hfits⟩ := Whole.fit?_eq_some_iff.mp hm
    exact spells_render hfits
  · obtain ⟨m, hm, happly⟩ := exists_of_evaluate_sign hminus rfl hw hv
    obtain ⟨rfl, -⟩ := Whole.fit?_eq_some_iff.mp hm
    rw [hw.read?_minus] at hn
    obtain ⟨rfl, hfits⟩ := Whole.fit?_eq_some_iff.mp hn
    have hneg : Number.ofInt (-(Nat.ofDigitChars 10 w 0 : Int)) = .ok v := happly
    rw [Number.ofInt_of_fits hfits] at hneg
    obtain rfl := Except.ok.inj hneg
    exact spells_render hfits

/-- **A number that stands alone is folded to one that spells the same.** -/
theorem refolds_spells (hx : Spells x n) (hs : Breaks s) : Refolds x s (Spells · n) := by
  rcases hx.shape with hw | ⟨w, rfl, hw⟩
  · refine refolds_operand (hw.operand? hs.1) hs.2 (List.flatten_singleton) hx fun y hy => ?_
    exact Except.ok.inj (hw.fold.symm.trans hy) ▸ hx
  · exact refolds_operand (operand?_sign_append rfl hw hs.1) hs.2 (by simp) hx fun y hy =>
      spells_of_fold_sign (Or.inr rfl) hw hx.value hy

/-- Of the plus signs before a number, the last one may be taken up by it. -/
theorem refolds_pluses (hx : Spells x n) (hs : Breaks s) (k : Nat) :
    Refolds (List.replicate k '+' ++ x) s
      fun t => ∃ j y, Spells y n ∧ t = List.replicate j '+' ++ y := by
  induction k with
  | zero => exact (refolds_spells hx hs).imp fun y hy => ⟨0, y, hy, rfl⟩
  | succ k ih =>
    have hcopy : operand? ('+' :: (List.replicate k '+' ++ x ++ s)) = none →
        Refolds (List.replicate (k + 1) '+' ++ x) s
          fun t => ∃ j y, Spells y n ∧ t = List.replicate j '+' ++ y := by
      intro hnone
      refine (refolds_cons hnone).append ih ?_
      rintro _ _ rfl ⟨j, y, hy, rfl⟩
      exact ⟨j + 1, y, hy, rfl⟩
    cases k with
    | succ k => exact hcopy (operand?_sign_eq_none rfl (by rintro d ⟨⟩; decide))
    | zero =>
      rcases hx.shape with hw | ⟨w, rfl, hw⟩
      · have hread : Whole.read? ('+' :: x) = some n := by
          rw [hw.read?_plus, ← hw.read?_eq]
          exact hx.value
        exact refolds_operand (operand?_sign_append rfl hw hs.1) hs.2 (by simp) ⟨1, x, hx, rfl⟩
          fun y hy => ⟨0, y, spells_of_fold_sign (Or.inl rfl) hw hread hy, rfl⟩
      · exact hcopy (operand?_sign_eq_none rfl (by rintro d ⟨⟩; decide))

/-! ## Lists -/

/-- In a list of numbers, where one of them ends. -/
def Delimited (s : Text) : Prop := ∃ c ∈ ",]@".toList, ∃ t, s = c :: t

theorem Delimited.breaks (hs : Delimited s) {b : Text} (hb : ∀ c ∈ b, isBlank c = true) :
    Breaks (b ++ s) := by
  obtain ⟨c, hc, t, rfl⟩ := hs
  have hall : ∀ c ∈ ",]@".toList, isBlank c = false ∧ isDecimalDigit c = false ∧ c ≠ '.' ∧
      c ∉ "+-*/".toList := by decide
  exact breaks_append hb (hall c hc) t

/-- **A list is folded member by member.** -/
theorem refolds_join {α : Type} {F : Text → α → Prop} {us : List Text} {as : List α}
    (hF : ∀ u a s, F u a → Delimited s → Refolds u s (F · a)) (hs : Delimited s)
    (h : List.Forall₂ F us as) :
    Refolds (join ',' us) s fun t => ∃ vs, List.Forall₂ F vs as ∧ t = join ',' vs := by
  induction h with
  | nil => exact (refolds_nil s).imp fun t ht => ⟨[], List.Forall₂.nil, ht⟩
  | @cons u a us as hu hus ih =>
    cases hus with
    | nil =>
      exact (hF u a s hu hs).imp fun v hv => ⟨[v], List.Forall₂.cons hv List.Forall₂.nil, rfl⟩
    | @cons u' a' us as hu' hus =>
      have hcomma : Refolds [','] (join ',' (u' :: us) ++ s) (· = [',']) :=
        refolds_plain (by decide) _
      refine (hF u a _ hu ⟨',', by decide, _, rfl⟩).append (hcomma.append_left ih) ?_
      rintro v _ hv ⟨_, ⟨vs, hvs, rfl⟩, rfl⟩
      cases hvs with
      | @cons v' _ vs _ hv' hvs => exact ⟨v :: v' :: vs, .cons hv (.cons hv' hvs), rfl⟩

end Parts

end DiceNotation
