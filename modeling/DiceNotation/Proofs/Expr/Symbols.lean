import DiceNotation.Proofs.Expr.Grammar
import DiceNotation.Proofs.Numerals
import Mathlib.Data.List.TakeWhile

/-!
# Symbols of a text

The lexemes of a text are found from left to right, and each is as long as it can be.  This
module says how symbols go together with cutting a text and with putting texts one after the
other.

A text can be cut between any two of its symbols (`exists_of_symbols_eq_append`).  The symbols
before the cut stay what they were, because a token that ends there never looks further than one
character, and does not become a longer one when this character is gone.

Putting a symbol in front of a text is different, because the text may go on with it: a digit
belongs to the numeral before it, and two stars are one operator.

* `symbols_nil`, `symbols_space`, `symbols_token`.
* `exists_of_symbols_eq_append`, `exists_of_symbols_eq_cons`.
* `Symbol.Spelled`: how operators and numerals are written.
* `symbols_spelling_append`, `symbols_numeral_append`, `symbols_decimal_append`.
-/

namespace DiceNotation

/-! ## Positions play no part -/

theorem map_symbol_lexemesFrom (start : Nat) (t : Text) :
    (lexemesFrom start t).map Lexeme.symbol = symbols t := by
  have hstart : ∀ n : Nat, ∀ t : Text, t.length ≤ n → ∀ i j,
      (lexemesFrom i t).map Lexeme.symbol = (lexemesFrom j t).map Lexeme.symbol := by
    intro n
    induction n with
    | zero =>
      intro t ht i j
      obtain rfl := List.length_eq_zero_iff.mp (Nat.le_zero.mp ht)
      rw [lexemesFrom_nil, lexemesFrom_nil]
    | succ n ih =>
      intro t ht i j
      cases t with
      | nil => rw [lexemesFrom_nil, lexemesFrom_nil]
      | cons c rest =>
        rw [List.length_cons] at ht
        cases hc : Token.isSpace c with
        | true =>
          rw [lexemesFrom_space hc, lexemesFrom_space hc]
          exact ih rest (by omega) _ _
        | false =>
          rw [lexemesFrom_token hc, lexemesFrom_token hc, List.map_cons, List.map_cons]
          refine congrArg₂ List.cons rfl (ih _ ?_ _ _)
          rw [List.length_drop]
          omega
  exact hstart t.length t (Nat.le_refl _) start 0

@[simp] theorem symbols_nil : symbols [] = [] := by
  unfold symbols lexemes
  rw [lexemesFrom_nil]
  rfl

/-- A space is one of four characters. -/
theorem forall_of_isSpace {p : Char → Prop} (h : ∀ c ∈ [' ', '\t', '\r', '\n'], p c) {c : Char}
    (hc : Token.isSpace c = true) : p c := by
  unfold Token.isSpace at hc
  rw [Bool.or_eq_true, Bool.or_eq_true, Bool.or_eq_true, beq_iff_eq, beq_iff_eq, beq_iff_eq,
    beq_iff_eq] at hc
  rcases hc with ((rfl | rfl) | rfl) | rfl
  all_goals exact h _ (by decide)

/-- Spaces are no symbols. -/
theorem symbols_space {c : Char} (h : Token.isSpace c = true) (t : Text) :
    symbols (c :: t) = symbols t := by
  rw [← map_symbol_lexemesFrom 0 (c :: t), lexemesFrom_space h, map_symbol_lexemesFrom]

/-- The symbol at the start of a text. -/
def firstSymbol (c : Char) (rest : Text) : Symbol :=
  ⟨(Token.first c rest).1, c :: rest.take (Token.first c rest).2⟩

/-- Any other character starts a symbol. -/
theorem symbols_token {c : Char} (h : Token.isSpace c = false) (rest : Text) :
    symbols (c :: rest) = firstSymbol c rest :: symbols (rest.drop (Token.first c rest).2) := by
  rw [← map_symbol_lexemesFrom 0 (c :: rest), lexemesFrom_token h, List.map_cons,
    map_symbol_lexemesFrom]
  rfl

/-! ## Cutting a text -/

/-- A stretch that ends before a cut is the same without what comes after the cut. -/
theorem takeWhile_of_append {p : Char → Bool} {r s : Text}
    (h : ((r ++ s).takeWhile p).length ≤ r.length) : r.takeWhile p = (r ++ s).takeWhile p := by
  induction r with
  | nil =>
    have hnil : ([] ++ s : Text).takeWhile p = [] :=
      List.length_eq_zero_iff.mp (Nat.le_zero.mp h)
    rw [hnil]
    rfl
  | cons c r ih =>
    rw [List.cons_append] at h ⊢
    by_cases hc : p c = true
    · rw [List.takeWhile_cons_of_pos hc] at h ⊢
      rw [List.takeWhile_cons_of_pos hc]
      rw [List.length_cons, List.length_cons] at h
      exact congrArg (c :: ·) (ih (by omega))
    · rw [List.takeWhile_cons_of_neg hc, List.takeWhile_cons_of_neg hc]

/-- The token of a text that starts with a digit, given how many more digits there are and what
follows them. -/
def numberToken (more : Nat) : Text → Token × Nat
  | '.' :: t => (.decimal, more + 1 + (t.takeWhile Char.isDigit).length)
  | _ => (.integer, more)

theorem first_of_isDigit {c : Char} (h : c.isDigit = true) (rest : Text) :
    Token.first c rest = numberToken (rest.takeWhile Char.isDigit).length
      (rest.drop (rest.takeWhile Char.isDigit).length) := by
  unfold Token.first
  rw [if_pos h]
  rfl

theorem first_of_isNameStart {c : Char} (hdigit : c.isDigit = false) (h : Text.isNameStart c = true)
    (rest : Text) : Token.first c rest = (.name, (rest.takeWhile Text.isNameChar).length) := by
  unfold Token.first
  rw [hdigit, if_neg Bool.false_ne_true, if_pos h]

/-- The token of a text that starts neither with a digit nor with a name. -/
def otherToken (c : Char) (rest : Text) : Token × Nat :=
  match c, rest with
  | '.', d :: t =>
    if d.isDigit then (.decimal, 1 + (t.takeWhile Char.isDigit).length) else (.error, 0)
  | '*', '*' :: _ => (.starStar, 1)
  | '*', _ => (.star, 0)
  | '(', _ => (.leftParen, 0)
  | ')', _ => (.rightParen, 0)
  | '+', _ => (.plus, 0)
  | '-', _ => (.minus, 0)
  | '/', _ => (.slash, 0)
  | _, _ => (.error, 0)

theorem first_of_other {c : Char} (hdigit : c.isDigit = false) (h : Text.isNameStart c = false)
    (rest : Text) : Token.first c rest = otherToken c rest := by
  unfold Token.first
  rw [hdigit, if_neg Bool.false_ne_true, h, if_neg Bool.false_ne_true]
  rfl

/-- Only points and stars look at what follows. -/
theorem otherToken_eq {c : Char} (hpoint : c ≠ '.') (hstar : c ≠ '*') (r s : Text) :
    otherToken c r = otherToken c s := by
  unfold otherToken
  grind

theorem otherToken_of_append {c : Char} {r s : Text} (h : (otherToken c (r ++ s)).2 ≤ r.length) :
    otherToken c r = otherToken c (r ++ s) := by
  by_cases hpoint : c = '.'
  · subst hpoint
    cases r with
    | cons d t =>
      by_cases hd : d.isDigit = true
      · have hpoint : ∀ t : Text, otherToken '.' (d :: t) =
            (.decimal, 1 + (t.takeWhile Char.isDigit).length) := fun t => if_pos hd
        rw [List.cons_append, hpoint, List.length_cons] at h
        have hle : ((t ++ s).takeWhile Char.isDigit).length ≤ t.length := by omega
        rw [List.cons_append, hpoint, hpoint, takeWhile_of_append hle]
      · have hpoint : ∀ t : Text, otherToken '.' (d :: t) = (.error, 0) := fun t => if_neg hd
        rw [List.cons_append, hpoint, hpoint]
    | nil =>
      cases s with
      | nil => rfl
      | cons d t =>
        by_cases hd : d.isDigit = true
        · have hpoint : otherToken '.' (d :: t) = (.decimal, 1 + _) := if_pos hd
          rw [List.nil_append, hpoint, List.length_nil] at h
          exact absurd h (by omega)
        · exact (if_neg hd).symm
  by_cases hstar : c = '*'
  · subst hstar
    cases r with
    | cons d t =>
      by_cases hd : d = '*'
      · subst hd
        rfl
      · have hstar : ∀ t : Text, otherToken '*' (d :: t) = (.star, 0) := by
          intro t
          unfold otherToken
          grind
        rw [List.cons_append, hstar, hstar]
    | nil =>
      cases s with
      | nil => rfl
      | cons d t =>
        by_cases hd : d = '*'
        · subst hd
          have h : 1 ≤ 0 := h
          exact absurd h (by decide)
        · unfold otherToken
          grind
  exact otherToken_eq hpoint hstar _ _

/-- How many more digits a number has. -/
theorem le_numberToken (more : Nat) (rest : Text) : more ≤ (numberToken more rest).2 := by
  unfold numberToken
  split
  · show more ≤ more + 1 + _
    omega
  · exact Nat.le_refl more

theorem numberToken_of_append {more : Nat} {r s : Text}
    (h : (numberToken more (r ++ s)).2 ≤ more + r.length) :
    numberToken more r = numberToken more (r ++ s) := by
  cases r with
  | nil =>
    cases s with
    | nil => rfl
    | cons d t =>
      by_cases hd : d = '.'
      · subst hd
        have h : more + 1 + _ ≤ more + 0 := h
        omega
      · have hnumber : numberToken more ([] ++ d :: t) = (.integer, more) := by
          unfold numberToken
          split
          · next heq => exact absurd (List.cons.inj heq).1 hd
          · rfl
        rw [hnumber]
        rfl
  | cons d r =>
    by_cases hd : d = '.'
    · subst hd
      have h : more + 1 + ((r ++ s).takeWhile Char.isDigit).length ≤ more + (r.length + 1) := h
      show (Token.decimal, more + 1 + (r.takeWhile Char.isDigit).length) =
        (Token.decimal, more + 1 + ((r ++ s).takeWhile Char.isDigit).length)
      have hle : ((r ++ s).takeWhile Char.isDigit).length ≤ r.length := by omega
      rw [takeWhile_of_append hle]
    · have hnumber : ∀ t : Text, numberToken more (d :: t) = (.integer, more) := by
        intro t
        unfold numberToken
        split
        · next heq => exact absurd (List.cons.inj heq).1 hd
        · rfl
      rw [List.cons_append, hnumber, hnumber]

/-- **A token that ends before a cut** is the same without what comes after the cut. -/
theorem first_of_append {c : Char} {r s : Text} (h : (Token.first c (r ++ s)).2 ≤ r.length) :
    Token.first c r = Token.first c (r ++ s) := by
  by_cases hdigit : c.isDigit = true
  · rw [first_of_isDigit hdigit] at h ⊢
    rw [first_of_isDigit hdigit]
    have hdigits := takeWhile_of_append (Nat.le_trans (le_numberToken _ _) h)
    rw [← hdigits] at h ⊢
    have hle : (r.takeWhile Char.isDigit).length ≤ r.length := (List.takeWhile_prefix _).length_le
    rw [List.drop_append_of_le_length hle] at h ⊢
    refine numberToken_of_append ?_
    rw [List.length_drop]
    omega
  · have hdigit := Bool.eq_false_iff.mpr hdigit
    by_cases hname : Text.isNameStart c = true
    · rw [first_of_isNameStart hdigit hname] at h ⊢
      rw [first_of_isNameStart hdigit hname, takeWhile_of_append h]
    · have hname := Bool.eq_false_iff.mpr hname
      rw [first_of_other hdigit hname] at h ⊢
      rw [first_of_other hdigit hname]
      exact otherToken_of_append h

theorem length_takeWhile_le (p : Char → Bool) (t : Text) : (t.takeWhile p).length ≤ t.length :=
  (List.takeWhile_prefix p).length_le

theorem numberToken_le_length (more : Nat) (rest : Text) :
    (numberToken more rest).2 ≤ more + rest.length := by
  unfold numberToken
  split
  · next t =>
    have hmore := length_takeWhile_le Char.isDigit t
    rw [List.length_cons]
    show more + 1 + _ ≤ _
    omega
  · exact Nat.le_add_right more _

theorem otherToken_le_length (c : Char) (rest : Text) : (otherToken c rest).2 ≤ rest.length := by
  unfold otherToken
  split
  · next d t =>
    have hmore := length_takeWhile_le Char.isDigit t
    rw [List.length_cons]
    split
    · show 1 + _ ≤ _
      omega
    · exact Nat.zero_le _
  · next t =>
    rw [List.length_cons]
    exact Nat.le_add_left 1 _
  all_goals exact Nat.zero_le _

/-- The characters of a token are there. -/
theorem first_le_length (c : Char) (rest : Text) : (Token.first c rest).2 ≤ rest.length := by
  by_cases hdigit : c.isDigit = true
  · have hwhole := length_takeWhile_le Char.isDigit rest
    have hnumber := numberToken_le_length (rest.takeWhile Char.isDigit).length
      (rest.drop (rest.takeWhile Char.isDigit).length)
    rw [List.length_drop] at hnumber
    rw [first_of_isDigit hdigit]
    omega
  · have hdigit := Bool.eq_false_iff.mpr hdigit
    by_cases hname : Text.isNameStart c = true
    · rw [first_of_isNameStart hdigit hname]
      exact length_takeWhile_le _ rest
    · rw [first_of_other hdigit (Bool.eq_false_iff.mpr hname)]
      exact otherToken_le_length c rest

/-- **A text can be cut between any two of its symbols.** -/
theorem exists_of_symbols_eq_append {t : Text} {ws us : List Symbol} (h : symbols t = ws ++ us) :
    ∃ a b, t = a ++ b ∧ symbols a = ws ∧ symbols b = us := by
  induction hn : t.length using Nat.strongRecOn generalizing t ws with
  | ind n ih =>
    subst hn
    cases ws with
    | nil => exact ⟨[], t, rfl, symbols_nil, h⟩
    | cons w ws =>
      cases t with
      | nil =>
        rw [symbols_nil] at h
        exact nomatch h
      | cons c rest =>
        cases hc : Token.isSpace c with
        | true =>
          rw [symbols_space hc] at h
          obtain ⟨a, b, rfl, ha, hb⟩ := ih _ (Nat.lt_succ_self _) h rfl
          exact ⟨c :: a, b, rfl, by rw [symbols_space hc, ha], hb⟩
        | false =>
          rw [symbols_token hc, List.cons_append] at h
          obtain ⟨hw, hrest⟩ := List.cons.inj h
          obtain ⟨a, b, hab, ha, hb⟩ := ih _ (by rw [List.length_drop, List.length_cons]; omega)
            hrest rfl
          -- the first token ends before the cut, so it is there without the second half
          have hlength := first_le_length c rest
          have hsplit : rest.take (Token.first c rest).2 ++ a ++ b = rest := by
            rw [List.append_assoc, ← hab, List.take_append_drop]
          have hfirst : Token.first c (rest.take (Token.first c rest).2 ++ a) =
            Token.first c rest := by
            have hcut := first_of_append (c := c) (r := rest.take (Token.first c rest).2 ++ a)
              (s := b) ?_
            · rw [hcut, hsplit]
            · rw [hsplit, List.length_append, List.length_take]
              omega
          refine ⟨c :: (rest.take (Token.first c rest).2 ++ a), b, ?_, ?_, hb⟩
          · rw [List.cons_append, hsplit]
          · have htake : (rest.take (Token.first c rest).2).length = (Token.first c rest).2 := by
              rw [List.length_take]
              omega
            rw [symbols_token hc, firstSymbol, hfirst,
              List.take_append_of_le_length (Nat.le_of_eq htake.symm),
              List.take_of_length_le (Nat.le_of_eq htake),
              List.drop_append_of_le_length (Nat.le_of_eq htake.symm),
              List.drop_of_length_le (Nat.le_of_eq htake), List.nil_append, ha, ← hw]
            rfl

/-! ## How symbols are spelled -/

/-- How an operator or a parenthesis is written. -/
def Token.spelling? : Token → Option Text
  | leftParen => some ['(']
  | rightParen => some [')']
  | plus => some ['+']
  | minus => some ['-']
  | starStar => some ['*', '*']
  | star => some ['*']
  | slash => some ['/']
  | _ => none

/-- A symbol has the text that its token allows. -/
structure Symbol.Spelled (w : Symbol) : Prop where
  fixed : ∀ u, w.token.spelling? = some u → w.text = u
  numeral : w.token = .integer → Numeral w.text

theorem spelled_of_spelling?_eq_none {w : Symbol} (h : w.token.spelling? = none)
    (hinteger : w.token ≠ .integer) : w.Spelled :=
  ⟨fun _ hu => (nomatch h.symm.trans hu), fun hw => absurd hw hinteger⟩

theorem spelled_of_spelling? {w : Symbol} (h : w.token.spelling? = some w.text) : w.Spelled := by
  refine ⟨fun u hu => Option.some.inj (h.symm.trans hu), fun hw => ?_⟩
  rw [hw] at h
  exact nomatch h

theorem take_takeWhile (p : Char → Bool) (t : Text) :
    t.take (t.takeWhile p).length = t.takeWhile p :=
  (List.prefix_iff_eq_take.mp (List.takeWhile_prefix p)).symm

/-- Symbols of a text are spelled in it. -/
theorem spelled_firstSymbol (c : Char) (rest : Text) : (firstSymbol c rest).Spelled := by
  unfold firstSymbol
  by_cases hdigit : c.isDigit = true
  · rw [first_of_isDigit hdigit]
    unfold numberToken
    split
    · exact spelled_of_spelling?_eq_none rfl Token.noConfusion
    · rw [take_takeWhile]
      refine ⟨fun u hu => (nomatch hu), fun _ => ⟨List.cons_ne_nil c _, fun d hd => ?_⟩⟩
      rcases List.mem_cons.mp hd with rfl | hd
      · exact hdigit
      · exact List.mem_takeWhile_imp hd
  · have hdigit := Bool.eq_false_iff.mpr hdigit
    by_cases hname : Text.isNameStart c = true
    · rw [first_of_isNameStart hdigit hname]
      exact spelled_of_spelling?_eq_none rfl Token.noConfusion
    · rw [first_of_other hdigit (Bool.eq_false_iff.mpr hname)]
      clear hdigit hname
      unfold otherToken
      split
      · split
        · exact spelled_of_spelling?_eq_none rfl Token.noConfusion
        · exact spelled_of_spelling?_eq_none rfl Token.noConfusion
      all_goals first
        | exact spelled_of_spelling? rfl
        | exact spelled_of_spelling?_eq_none rfl Token.noConfusion

/-- **The first symbol of a text** comes after spaces, and before the other symbols. -/
theorem exists_of_symbols_eq_cons {t : Text} {w : Symbol} {us : List Symbol}
    (h : symbols t = w :: us) :
    ∃ b rest, t = b ++ (w.text ++ rest) ∧ (∀ c ∈ b, Token.isSpace c = true) ∧ symbols rest = us ∧
      w.Spelled ∧ ∀ c ∈ w.text.head?, Token.isSpace c = false := by
  induction t with
  | nil =>
    rw [symbols_nil] at h
    exact nomatch h
  | cons c rest ih =>
    cases hc : Token.isSpace c with
    | true =>
      rw [symbols_space hc] at h
      obtain ⟨b, rest, rfl, hb, hrest, hw⟩ := ih h
      refine ⟨c :: b, rest, rfl, fun d hd => ?_, hrest, hw⟩
      rcases List.mem_cons.mp hd with rfl | hd
      · exact hc
      · exact hb d hd
    | false =>
      rw [symbols_token hc] at h
      obtain ⟨rfl, hrest⟩ := List.cons.inj h
      refine ⟨[], _, ?_, fun d hd => (nomatch hd), hrest, spelled_firstSymbol c rest, ?_⟩
      · show c :: rest = c :: (rest.take _ ++ rest.drop _)
        rw [List.take_append_drop]
      · rintro d ⟨⟩
        exact hc

/-- A text without symbols is made of spaces. -/
theorem isSpace_of_symbols_eq_nil {t : Text} (h : symbols t = []) :
    ∀ c ∈ t, Token.isSpace c = true := by
  induction t with
  | nil => exact fun c hc => nomatch hc
  | cons c rest ih =>
    cases hc : Token.isSpace c with
    | true =>
      rw [symbols_space hc] at h
      intro d hd
      rcases List.mem_cons.mp hd with rfl | hd
      · exact hc
      · exact ih h d hd
    | false =>
      rw [symbols_token hc] at h
      exact nomatch h

/-! ## Putting a symbol in front of a text -/

/-- An operator in front of a text is a symbol of its own, unless a star comes to stand before
another. -/
theorem symbols_spelling_append {token : Token} {u : Text} (hu : token.spelling? = some u)
    {t : Text}
    (ht : ∀ c ∈ t.head?, c ≠ '*') : symbols (u ++ t) = ⟨token, u⟩ :: symbols t := by
  cases token with
  | star =>
    cases hu
    rw [List.singleton_append, symbols_token rfl, firstSymbol, first_of_other rfl rfl]
    cases t with
    | nil => rfl
    | cons c t =>
      have hc : c ≠ '*' := ht c rfl
      have hstar : otherToken '*' (c :: t) = (.star, 0) := by
        unfold otherToken
        grind
      rw [hstar]
      rfl
  | starStar =>
    cases hu
    exact symbols_token rfl ('*' :: t)
  | leftParen =>
    cases hu
    exact symbols_token rfl t
  | rightParen =>
    cases hu
    exact symbols_token rfl t
  | plus =>
    cases hu
    exact symbols_token rfl t
  | minus =>
    cases hu
    exact symbols_token rfl t
  | slash =>
    cases hu
    exact symbols_token rfl t
  | _ => exact nomatch hu

/-- A numeral in front of a text is a symbol of its own, if no digit and no point follows. -/
theorem symbols_numeral_append {w : Text} (hw : Numeral w) {t : Text}
    (ht : ∀ c ∈ t.head?, c.isDigit = false ∧ c ≠ '.') :
    symbols (w ++ t) = ⟨.integer, w⟩ :: symbols t := by
  obtain ⟨c, w, rfl⟩ := List.exists_cons_of_ne_nil hw.ne_nil
  have hc : c.isDigit = true := hw.isDigit c List.mem_cons_self
  have hspaces : ∀ d ∈ c :: w, Token.isSpace d = false := hw.forall_mem (by decide)
  have htake : (w ++ t).takeWhile Char.isDigit = w := by
    rw [List.takeWhile_append_of_pos fun d hd => hw.isDigit d (List.mem_cons_of_mem c hd)]
    cases t with
    | nil => exact List.append_nil w
    | cons d t =>
      have hd : ¬ d.isDigit = true := by
        rw [(ht d rfl).1]
        exact Bool.false_ne_true
      rw [List.takeWhile_cons_of_neg hd, List.append_nil]
  have hnumber : numberToken w.length t = (.integer, w.length) := by
    unfold numberToken
    split
    · exact absurd rfl (ht '.' rfl).2
    · rfl
  have hfirst : Token.first c (w ++ t) = (.integer, w.length) := by
    rw [first_of_isDigit hc, htake, List.drop_left, hnumber]
  rw [List.cons_append, symbols_token (hspaces c List.mem_cons_self), firstSymbol, hfirst,
    List.take_left, List.drop_left]

/-- Digits on both sides of a point are a symbol of their own, if no digit follows. -/
theorem symbols_decimal_append {w f : Text} (hw : Numeral w) (hf : Numeral f) {t : Text}
    (ht : ∀ c ∈ t.head?, c.isDigit = false) :
    symbols ((w ++ '.' :: f) ++ t) = ⟨.decimal, w ++ '.' :: f⟩ :: symbols t := by
  obtain ⟨c, w, rfl⟩ := List.exists_cons_of_ne_nil hw.ne_nil
  have hc : c.isDigit = true := hw.isDigit c List.mem_cons_self
  have hspaces : ∀ d ∈ c :: w, Token.isSpace d = false := hw.forall_mem (by decide)
  have htext : (w ++ '.' :: f) ++ t = w ++ '.' :: (f ++ t) := by simp
  have htake : (w ++ '.' :: (f ++ t)).takeWhile Char.isDigit = w := by
    rw [List.takeWhile_append_of_pos fun d hd => hw.isDigit d (List.mem_cons_of_mem c hd),
      List.takeWhile_cons_of_neg (by decide), List.append_nil]
  have hfraction : (f ++ t).takeWhile Char.isDigit = f := by
    rw [List.takeWhile_append_of_pos hf.isDigit]
    cases t with
    | nil => exact List.append_nil f
    | cons d t =>
      have hd : ¬ d.isDigit = true := by
        rw [ht d rfl]
        exact Bool.false_ne_true
      rw [List.takeWhile_cons_of_neg hd, List.append_nil]
  have hfirst : Token.first c ((w ++ '.' :: f) ++ t) = (.decimal, (w ++ '.' :: f).length) := by
    rw [htext, first_of_isDigit hc, htake, List.drop_left]
    show (Token.decimal, w.length + 1 + ((f ++ t).takeWhile Char.isDigit).length) = _
    rw [hfraction, List.length_append, List.length_cons, Nat.add_assoc, Nat.add_comm 1]
  show symbols (c :: ((w ++ '.' :: f) ++ t)) = _
  rw [symbols_token (hspaces c List.mem_cons_self), firstSymbol, hfirst, List.take_left,
    List.drop_left]
  rfl

end DiceNotation
