import DiceNotation.Expr.Eval
import DiceNotation.Proofs.Blanks
import DiceNotation.Proofs.Expr.Symbols

/-!
# Texts that are one run of numbers

A text in which operands and operators take turns is one run of numbers, if every sign stands
directly before the digits of its operand.  Folding such a text therefore evaluates it as a
whole.

What is folded is not the text itself.  Blanks at the ends are dropped, and stretches of blanks
become one space; then the tokens of the run are put together without any.  None of this changes
what the symbols are, and so it is enough to follow one relation between texts and symbols
through these steps.

* `Strung`: operands and operators take turns, with spaces around them.
* `Strung.symbols_eq`, `Strung.append`, `Strung.squeeze_trim`.
* `Strung.reads`: the run is the whole text.
* `Strung.foldNumbers_eq`: its value.
-/

namespace DiceNotation

open Text NumberRun

/-- Whether a token can stand between two operands. -/
def Token.joins : Token → Bool
  | plus => true
  | minus => true
  | star => true
  | starStar => true
  | slash => true
  | _ => false

/-- Operands and operators take turns.  The flag says whether an operand has come last. -/
inductive Strung : Bool → Text → List Symbol → Prop
  | stop : Strung true [] []
  | space {k : Bool} {c : Char} {t : Text} {us : List Symbol} (hc : Token.isSpace c = true)
    (h : Strung k t us) : Strung k (c :: t) us
  | operator {token : Token} {u t : Text} {us : List Symbol} (hjoins : token.joins = true)
    (hu : token.spelling? = some u) (h : Strung false t us) :
    Strung true (u ++ t) (⟨token, u⟩ :: us)
  | numeral {w t : Text} {us : List Symbol} (hw : Numeral w) (h : Strung true t us) :
    Strung false (w ++ t) (⟨.integer, w⟩ :: us)
  | sign {token : Token} {u w t : Text} {us : List Symbol} (htoken : token = .plus ∨ token = .minus)
    (hu : token.spelling? = some u) (hw : Numeral w) (h : Strung true t us) :
    Strung false (u ++ (w ++ t)) (⟨token, u⟩ :: ⟨.integer, w⟩ :: us)

theorem isBlank_of_isSpace {c : Char} (hc : Token.isSpace c = true) : isBlank c = true :=
  forall_of_isSpace (p := fun c => isBlank c = true) (by decide) hc

/-- An operator is one of five texts. -/
theorem forall_of_joins {p : Text → Prop}
    (h : ∀ u ∈ [['+'], ['-'], ['*'], ['*', '*'], ['/']], p u) {token : Token} {u : Text}
    (hjoins : token.joins = true) (hu : token.spelling? = some u) : p u := by
  cases token with
  | plus => cases hu; exact h _ (by decide)
  | minus => cases hu; exact h _ (by decide)
  | star => cases hu; exact h _ (by decide)
  | starStar => cases hu; exact h _ (by decide)
  | slash => cases hu; exact h _ (by decide)
  | _ => exact nomatch hjoins

/-- How operators begin. -/
theorem exists_of_joins {token : Token} {u : Text} (hjoins : token.joins = true)
    (hu : token.spelling? = some u) :
    u ≠ [] ∧ (∀ c ∈ u, isBlank c = false ∧ isDecimalDigit c = false ∧ c ≠ '.') ∧
      isNumber u = false :=
  forall_of_joins (p := fun u => u ≠ [] ∧
    (∀ c ∈ u, isBlank c = false ∧ isDecimalDigit c = false ∧ c ≠ '.') ∧ isNumber u = false)
    (by decide) hjoins hu

theorem joins_of_sign {token : Token} (h : token = .plus ∨ token = .minus) :
    token.joins = true := by
  rcases h with rfl | rfl
  · rfl
  · rfl

namespace Strung

variable {k : Bool} {t : Text} {us : List Symbol}

/-- After an operand, no number goes on. -/
theorem head_of_true (h : Strung true t us) :
    ∀ c ∈ t.head?, isDecimalDigit c = false ∧ c ≠ '.' := by
  intro c hc
  cases h with
  | stop => exact nomatch hc
  | space hspace _ =>
    cases hc
    exact forall_of_isSpace (p := fun c => isDecimalDigit c = false ∧ c ≠ '.') (by decide) hspace
  | operator hjoins hu _ =>
    obtain ⟨hne, hall, -⟩ := exists_of_joins hjoins hu
    rw [List.head?_append_of_ne_nil _ hne] at hc
    exact (hall c (List.mem_of_head? hc)).2

/-- Before an operand, no star goes on. -/
theorem head_of_false (h : Strung false t us) : ∀ c ∈ t.head?, c ≠ '*' := by
  intro c hc
  cases h with
  | space hspace _ =>
    cases hc
    exact forall_of_isSpace (p := fun c => c ≠ '*') (by decide) hspace
  | numeral hw _ =>
    rw [List.head?_append_of_ne_nil _ hw.ne_nil] at hc
    exact hw.forall_mem (p := fun c => c ≠ '*') (by decide) c (List.mem_of_head? hc)
  | sign htoken hu _ _ =>
    rcases htoken with rfl | rfl
    · cases hu; cases hc; decide
    · cases hu; cases hc; decide

/-- A numeral ends where an operand has come last. -/
theorem symbols_numeral_append {w : Text} (hw : Numeral w) (h : Strung true t us) :
    symbols (w ++ t) = ⟨.integer, w⟩ :: symbols t := by
  refine DiceNotation.symbols_numeral_append hw fun c hc => ?_
  obtain ⟨hdigit, hpoint⟩ := h.head_of_true c hc
  refine ⟨Bool.eq_false_iff.mpr fun hd => ?_, hpoint⟩
  rw [isDecimalDigit_of_isDigit hd] at hdigit
  exact nomatch hdigit

/-- The symbols are those of the text. -/
theorem symbols_eq (h : Strung k t us) : symbols t = us := by
  induction h with
  | stop => exact symbols_nil
  | space hc _ ih => rw [symbols_space hc, ih]
  | operator _ hu h ih => rw [symbols_spelling_append hu h.head_of_false, ih]
  | numeral hw h ih => rw [symbols_numeral_append hw h, ih]
  | sign _ hu hw h ih =>
    rw [symbols_spelling_append hu, symbols_numeral_append hw h, ih]
    intro c hc
    rw [List.head?_append_of_ne_nil _ hw.ne_nil] at hc
    exact hw.forall_mem (p := fun c => c ≠ '*') (by decide) c (List.mem_of_head? hc)

/-- What goes on after an operand. -/
theorem append {b : Text} {vs : List Symbol} (h : Strung k t us) (hb : Strung true b vs) :
    Strung k (t ++ b) (us ++ vs) := by
  induction h with
  | stop => exact hb
  | space hc _ ih => exact .space hc ih
  | operator hjoins hu _ ih =>
    rw [List.append_assoc, List.cons_append]
    exact .operator hjoins hu ih
  | numeral hw _ ih =>
    rw [List.append_assoc, List.cons_append]
    exact .numeral hw ih
  | sign htoken hu hw _ ih =>
    rw [List.append_assoc, List.append_assoc, List.cons_append, List.cons_append]
    exact .sign htoken hu hw ih

/-- Spaces come before anything. -/
theorem spaces_append {b : Text} (hb : ∀ c ∈ b, Token.isSpace c = true) (h : Strung k t us) :
    Strung k (b ++ t) us := by
  induction b with
  | nil => exact h
  | cons c b ih =>
    exact .space (hb c List.mem_cons_self) (ih fun d hd => hb d (List.mem_cons_of_mem c hd))

/-- The text without any spaces. -/
theorem dense (h : Strung k t us) : Strung k (us.flatMap Symbol.text) us := by
  induction h with
  | stop => exact .stop
  | space _ _ ih => exact ih
  | operator hjoins hu _ ih => exact .operator hjoins hu ih
  | numeral hw _ ih => exact .numeral hw ih
  | sign htoken hu hw _ ih => exact .sign htoken hu hw ih

end Strung

/-! ## Blanks -/

namespace Strung

variable {k : Bool} {t : Text} {us : List Symbol}

theorem not_blank_of_joins {token : Token} {u : Text} (hjoins : token.joins = true)
    (hu : token.spelling? = some u) : ∀ c ∈ u, isBlank c = false :=
  fun c hc => ((exists_of_joins hjoins hu).2.1 c hc).1

theorem trimStart (h : Strung k t us) : Strung k (trimStart t) us := by
  induction h with
  | stop => exact .stop
  | space hc _ ih =>
    rw [trimStart_cons_of_blank (isBlank_of_isSpace hc)]
    exact ih
  | operator hjoins hu h _ =>
    rw [trimStart_append_of_not_blank (not_blank_of_joins hjoins hu) (exists_of_joins hjoins hu).1]
    exact .operator hjoins hu h
  | numeral hw h _ =>
    rw [trimStart_append_of_not_blank hw.not_isBlank hw.ne_nil]
    exact .numeral hw h
  | sign htoken hu hw h _ =>
    have hjoins := joins_of_sign htoken
    rw [trimStart_append_of_not_blank (not_blank_of_joins hjoins hu) (exists_of_joins hjoins hu).1]
    exact .sign htoken hu hw h

theorem trimEnd (h : Strung k t us) : Strung k (trimEnd t) us := by
  induction h with
  | stop => exact .stop
  | space hc _ ih =>
    rcases trimEnd_cons _ _ with hkept | hdropped
    · rw [hkept]
      exact .space hc ih
    · rw [hdropped]
      exact ih
  | operator hjoins hu _ ih =>
    rw [trimEnd_append_of_not_blank (not_blank_of_joins hjoins hu)]
    exact .operator hjoins hu ih
  | numeral hw _ ih =>
    rw [trimEnd_append_of_not_blank hw.not_isBlank]
    exact .numeral hw ih
  | sign htoken hu hw _ ih =>
    rw [trimEnd_append_of_not_blank (not_blank_of_joins (joins_of_sign htoken) hu),
      trimEnd_append_of_not_blank hw.not_isBlank]
    exact .sign htoken hu hw ih

theorem squeezeFrom (h : Strung k t us) (written : Bool) : Strung k (squeezeFrom written t) us := by
  induction h generalizing written with
  | stop => exact .stop
  | space hc _ ih =>
    rw [Text.squeezeFrom, isBlank_of_isSpace hc, if_pos rfl]
    cases written with
    | true => exact ih true
    | false => exact .space rfl (ih true)
  | operator hjoins hu _ ih =>
    rw [squeezeFrom_append_of_not_blank (not_blank_of_joins hjoins hu)
      (exists_of_joins hjoins hu).1]
    exact .operator hjoins hu (ih false)
  | numeral hw _ ih =>
    rw [squeezeFrom_append_of_not_blank hw.not_isBlank hw.ne_nil]
    exact .numeral hw (ih false)
  | sign htoken hu hw _ ih =>
    have hjoins := joins_of_sign htoken
    rw [squeezeFrom_append_of_not_blank (not_blank_of_joins hjoins hu)
      (exists_of_joins hjoins hu).1,
      squeezeFrom_append_of_not_blank hw.not_isBlank hw.ne_nil]
    exact .sign htoken hu hw (ih false)

/-- **Dropping blanks** leaves operands and operators where they are. -/
theorem squeeze_trim (h : Strung k t us) : Strung k (squeeze (trim t)) us :=
  h.trimStart.trimEnd.squeezeFrom false

/-! ## The run -/

theorem continuation_of_none (h : next? t = none) : continuation t = ([], t) := by
  rw [continuation]
  split
  · rfl
  · next hsome => exact nomatch h.symm.trans hsome

theorem continuation_of_some {tokens : List Text} {rest : Text}
    (h : next? t = some (tokens, rest)) :
    continuation t = (tokens ++ (continuation rest).1, (continuation rest).2) := by
  rw [continuation]
  split
  · next hnone => exact nomatch h.symm.trans hnone
  · next hsome => cases h.symm.trans hsome; rfl

theorem next?_cons_of_blank {c : Char} (hc : isBlank c = true) (t : Text) :
    next? (c :: t) = next? t := by
  unfold next?
  rw [trimStart_cons_of_blank hc]

/-- An operator is read as one token. -/
theorem operator_append {token : Token} {u : Text} (hjoins : token.joins = true)
    (hu : token.spelling? = some u) (ht : ∀ c ∈ t.head?, c ≠ '*') :
    NumberRun.operator (u ++ t) = ([u], t) := by
  cases token with
  | star =>
    cases hu
    cases t with
    | nil => rfl
    | cons c t =>
      have hc : c ≠ '*' := ht c rfl
      show NumberRun.operator ('*' :: c :: t) = ([['*']], c :: t)
      unfold NumberRun.operator
      grind
  | plus => cases hu; rfl
  | minus => cases hu; rfl
  | starStar => cases hu; rfl
  | slash => cases hu; rfl
  | _ => exact nomatch hjoins

/-- A sign belongs to the numeral after it. -/
theorem operand?_sign {token : Token} {u w : Text} (htoken : token = .plus ∨ token = .minus)
    (hu : token.spelling? = some u) (hw : Numeral w) (h : Strung true t us) :
    operand? (u ++ (w ++ t)) = some ([u, w], t) := by
  have hnumber := hw.number? h.head_of_true
  rcases htoken with rfl | rfl
  · cases hu
    show (number? (w ++ t)).map _ = _
    rw [hnumber]
    rfl
  · cases hu
    show (number? (w ++ t)).map _ = _
    rw [hnumber]
    rfl

theorem expression_cons {plus : Bool} {u : Text} (h : plus = false ∨ isNumber u = false)
    (tokens : List Text) : expression plus (u :: tokens) = u ++ expression (isNumber u) tokens := by
  have hplus : ¬ (plus && isNumber u) = true := by
    rcases h with h | h
    · rw [h, Bool.false_and]
      exact Bool.false_ne_true
    · rw [h, Bool.and_false]
      exact Bool.false_ne_true
  rw [expression, if_neg hplus]

theorem isNumber_of_numeral {w : Text} (hw : Numeral w) : isNumber w = true := by
  obtain ⟨c, w, rfl⟩ := List.exists_cons_of_ne_nil hw.ne_nil
  exact hw.isDigit c List.mem_cons_self

/-- What is read of a text: operators and operands up to the blanks at its end, or an operand
and then these. -/
def Reads : Bool → Text → List Symbol → Prop
  | true, t, us => ∃ tokens blanks, continuation t = (tokens, blanks) ∧ blanks <:+ t ∧
      (∀ c ∈ blanks, isBlank c = true) ∧ expression true tokens = us.flatMap Symbol.text
  | false, t, us => ∃ tokens rest more blanks, operand? (Text.trimStart t) = some (tokens, rest) ∧
      continuation rest = (more, blanks) ∧ blanks <:+ t ∧ (∀ c ∈ blanks, isBlank c = true) ∧
      expression false (tokens ++ more) = us.flatMap Symbol.text

/-- **All of the text is read.** -/
theorem reads (h : Strung k t us) : Reads k t us := by
  induction h with
  | stop =>
    exact ⟨[], [], continuation_of_none rfl, List.suffix_refl _, fun c hc => (nomatch hc), rfl⟩
  | @space k c t us hc _ ih =>
    have hblank := isBlank_of_isSpace hc
    cases k with
    | false =>
      obtain ⟨tokens, rest, more, blanks, hoperand, hmore, hsuffix, ih⟩ := ih
      refine ⟨tokens, rest, more, blanks, ?_, hmore, hsuffix.trans (List.suffix_cons c t), ih⟩
      rw [trimStart_cons_of_blank hblank, hoperand]
    | true =>
      obtain ⟨tokens, blanks, hread, hsuffix, hblanks, htokens⟩ := ih
      cases hnext : next? t with
      | none =>
        obtain ⟨rfl, rfl⟩ := Prod.mk.inj ((continuation_of_none hnext).symm.trans hread)
        refine ⟨[], c :: t, continuation_of_none ?_, List.suffix_refl _, fun d hd => ?_, htokens⟩
        · rw [next?_cons_of_blank hblank, hnext]
        · rcases List.mem_cons.mp hd with rfl | hd
          · exact hblank
          · exact hblanks d hd
      | some next =>
        have hcons : next? (c :: t) = some next := (next?_cons_of_blank hblank t).trans hnext
        refine ⟨tokens, blanks, ?_, hsuffix.trans (List.suffix_cons c t), hblanks, htokens⟩
        rw [continuation_of_some hcons, ← continuation_of_some hnext, hread]
  | @operator token u t us hjoins hu h ih =>
    obtain ⟨tokens, rest, more, blanks, hoperand, hmore, hsuffix, hblanks, htokens⟩ := ih
    obtain ⟨hne, hall, hnumber⟩ := exists_of_joins hjoins hu
    have hnext : next? (u ++ t) = some (u :: tokens, rest) := by
      unfold next?
      rw [trimStart_append_of_not_blank (not_blank_of_joins hjoins hu) hne,
        operator_append hjoins hu h.head_of_false]
      show (operand? (Text.trimStart t)).map _ = _
      rw [hoperand]
      rfl
    refine ⟨u :: (tokens ++ more), blanks, ?_, hsuffix.trans (List.suffix_append u t), hblanks, ?_⟩
    · rw [continuation_of_some hnext, hmore]
      rfl
    · rw [expression_cons (Or.inr hnumber), hnumber, htokens]
      rfl
  | @numeral w t us hw h ih =>
    obtain ⟨tokens, blanks, hread, hsuffix, hblanks, htokens⟩ := ih
    refine ⟨[w], t, tokens, blanks, ?_, hread, hsuffix.trans (List.suffix_append w t), hblanks, ?_⟩
    · rw [trimStart_append_of_not_blank hw.not_isBlank hw.ne_nil, hw.operand? h.head_of_true]
    · rw [List.singleton_append, expression_cons (Or.inl rfl), isNumber_of_numeral hw, htokens]
      rfl
  | @sign token u w t us htoken hu hw h ih =>
    obtain ⟨tokens, blanks, hread, hsuffix, hblanks, htokens⟩ := ih
    obtain ⟨hne, hall, hnumber⟩ := exists_of_joins (joins_of_sign htoken) hu
    have hsuffix : blanks <:+ u ++ (w ++ t) :=
      hsuffix.trans ((List.suffix_append w t).trans (List.suffix_append u _))
    refine ⟨[u, w], t, tokens, blanks, ?_, hread, hsuffix, hblanks, ?_⟩
    · rw [trimStart_append_of_not_blank (not_blank_of_joins (joins_of_sign htoken) hu) hne,
        operand?_sign htoken hu hw h]
    · show expression false (u :: w :: tokens) = _
      rw [expression_cons (Or.inl rfl), hnumber, expression_cons (Or.inl rfl),
        isNumber_of_numeral hw, htokens]
      rfl

theorem ne_nil_of_false (h : Strung false t us) : t ≠ [] := by
  cases h with
  | space _ _ => exact List.cons_ne_nil _ _
  | numeral hw _ => exact List.append_ne_nil_of_left_ne_nil hw.ne_nil _
  | sign htoken hu _ _ =>
    exact List.append_ne_nil_of_left_ne_nil (exists_of_joins (joins_of_sign htoken) hu).1 _

/-- The ends of a text after its blanks were dropped. -/
theorem not_blank_ends (t : Text) :
    (∀ c ∈ (squeeze (trim t)).head?, isBlank c = false) ∧
      ∀ c ∈ (squeeze (trim t)).getLast?, isBlank c = false := by
  constructor
  · intro c hc
    cases htrim : trim t with
    | nil =>
      rw [htrim] at hc
      cases hc
    | cons d rest =>
      have hd : isBlank d = false := not_blank_of_head?_trim (t := t) (by rw [htrim]; rfl)
      rw [htrim, squeeze, Text.squeezeFrom, hd, if_neg Bool.false_ne_true] at hc
      cases hc
      exact hd
  · intro c hc
    rcases List.eq_nil_or_concat (trim t) with hnil | ⟨init, d, hconcat⟩
    · rw [hnil] at hc
      cases hc
    · have hd : isBlank d = false := by
        refine not_blank_of_getLast?_trimEnd (t := Text.trimStart t) ?_
        show d ∈ (trim t).getLast?
        rw [hconcat]
        simp
      rw [hconcat, List.concat_eq_append, squeeze, squeezeFrom_concat hd,
        List.getLast?_append] at hc
      cases hc
      exact hd

/-- A text that does not end in a blank ends in no blanks. -/
theorem eq_nil_of_blank_suffix {blanks t : Text} (hsuffix : blanks <:+ t)
    (hblanks : ∀ c ∈ blanks, isBlank c = true) (hlast : ∀ c ∈ t.getLast?, isBlank c = false) :
    blanks = [] := by
  rcases List.eq_nil_or_concat blanks with hnil | ⟨init, d, rfl⟩
  · exact hnil
  · obtain ⟨front, rfl⟩ := hsuffix
    have hd := hlast d (by simp)
    have hd' := hblanks d (by simp)
    cases hd.symm.trans hd'

/-- The tokens of a run are folded to the value of what they spell, and a numeral alone is kept. -/
theorem exists_of_fold {tokens : List Text} {x : Text} {v : Number} (hne : x ≠ [])
    (htokens : expression false tokens = x) (hv : evaluate Bindings.none x = .ok v) :
    ∃ y, fold tokens = .ok y ∧ (y = x ∧ Numeral y ∨ y = v.text) := by
  unfold fold
  by_cases hplain : isPlainNumber tokens = true
  · rw [if_pos hplain]
    unfold isPlainNumber at hplain
    split at hplain
    · next w =>
      rw [expression_cons (Or.inl rfl)] at htokens
      obtain rfl : w = x := (List.append_nil w).symm.trans htokens
      exact ⟨w, by rw [List.flatten_singleton], Or.inl ⟨rfl, hne, List.all_eq_true.mp hplain⟩⟩
    · cases hplain
  · rw [if_neg hplain, htokens, hv]
    exact ⟨v.text, rfl, Or.inr rfl⟩

/-- **A text of operands and operators is folded to its value**, and if it is a numeral it stays
as it is written. -/
theorem foldNumbers_eq (h : Strung false t us) {v : Number}
    (hv : evaluate Bindings.none (us.flatMap Symbol.text) = .ok v) :
    ∃ x, foldNumbers t = .ok x ∧ (x = us.flatMap Symbol.text ∧ Numeral x ∨ x = v.text) := by
  obtain ⟨hhead, hlast⟩ := not_blank_ends t
  have hstrung := h.squeeze_trim
  obtain ⟨tokens, rest, more, blanks, hoperand, hmore, hsuffix, hblanks, htokens⟩ := hstrung.reads
  rw [trimStart_of_not_blank hhead] at hoperand
  -- the run leaves blanks only, and there are none at the end
  have hnone : blanks = [] := eq_nil_of_blank_suffix hsuffix hblanks hlast
  obtain ⟨x, hx, hvalue⟩ := exists_of_fold h.dense.ne_nil_of_false htokens hv
  refine ⟨x, ?_, hvalue⟩
  unfold foldNumbers
  obtain ⟨c, m, hm⟩ := List.exists_cons_of_ne_nil hstrung.ne_nil_of_false
  rw [hm] at hoperand ⊢
  rw [foldFrom]
  split
  · next hno => cases hoperand.symm.trans hno
  · next hsome =>
    cases hoperand.symm.trans hsome
    rw [if_neg Bool.false_ne_true, hmore, hx, hnone, foldFrom]
    show Except.ok (x ++ []) = _
    rw [List.append_nil]

end Strung

end DiceNotation
