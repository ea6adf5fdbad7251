import DiceNotation.Proofs.Expr.Symbols
import Mathlib

/-!
# Writing and reading again

An expression is written without any parentheses but its own.  That is enough for an expression that
was read, because its parentheses are in the tree: sums and products are nested to the left only,
powers to the right only, and a sign stands before a whole power.

The proof goes through the symbols that an expression is written with, which do not know of spaces.

* The text is cut into these symbols (`symbols_text_append`).  Numerals and names end where the
  text that follows begins, since that is a space or a parenthesis.
* The symbols stand for the expression at every level of the grammar at which any symbols do
  (`derives_written`).  The induction is on the derivation.

A literal with a fraction may be written without one, as in `4.0`, and then reads back as a whole
number.  So all literals are asked to be whole.

* `Expr.WholeLiterals`, `Expr.written`.
* `Expr.parse_text`: what was read and written reads back.
-/

namespace DiceNotation

/-! ## Names and single characters -/

/-- A name in a text is a name. -/
theorem isName_firstSymbol {c : Char} {rest : Text} (h : (firstSymbol c rest).token = .name) :
    Text.isName (firstSymbol c rest).text = true := by
  unfold firstSymbol at *
  by_cases hdigit : c.isDigit = true
  · rw [first_of_isDigit hdigit] at h
    unfold numberToken at h
    split at h
    · exact nomatch h
    · exact nomatch h
  have hdigit := Bool.eq_false_iff.mpr hdigit
  by_cases hname : Text.isNameStart c = true
  · rw [first_of_isNameStart hdigit hname, take_takeWhile, Text.isName_cons, hname, Bool.true_and,
      List.all_eq_true]
    exact fun d hd => List.mem_takeWhile_imp hd
  · rw [first_of_other hdigit (Bool.eq_false_iff.mpr hname)] at h
    unfold otherToken at h
    split at h
    · split at h
      · exact nomatch h
      · exact nomatch h
    all_goals exact nomatch h

theorem isName_of_mem_symbols {t : Text} {w : Symbol} (hw : w ∈ symbols t) (h : w.token = .name) :
    Text.isName w.text = true := by
  induction hn : t.length using Nat.strongRecOn generalizing t with
  | ind n ih =>
    cases t with
    | nil =>
      rw [symbols_nil] at hw
      exact nomatch hw
    | cons c rest =>
      rw [List.length_cons] at hn
      cases hc : Token.isSpace c with
      | true =>
        rw [symbols_space hc] at hw
        exact ih _ (by omega) hw rfl
      | false =>
        rw [symbols_token hc] at hw
        rcases List.mem_cons.mp hw with rfl | hw
        · exact isName_firstSymbol h
        · exact ih _ (by rw [List.length_drop]; omega) hw rfl

/-- A name in front of a text is a symbol of its own, if nothing follows that goes on with it. -/
theorem symbols_name_append {n : Text} (hn : Text.isName n = true) {t : Text}
    (ht : ∀ c ∈ t.head?, Text.isNameChar c = false) :
    symbols (n ++ t) = ⟨.name, n⟩ :: symbols t := by
  cases n with
  | nil => exact nomatch hn
  | cons c n =>
    rw [Text.isName_cons, Bool.and_eq_true, List.all_eq_true] at hn
    obtain ⟨hstart, hchars⟩ := hn
    have hdigit : c.isDigit = false := by
      rw [Bool.eq_false_iff]
      intro hc
      have hno := forall_of_isDigit (p := fun c => Text.isNameStart c = false) (by decide) hc
      exact nomatch hno.symm.trans hstart
    have hspace : Token.isSpace c = false := by
      rw [Bool.eq_false_iff]
      intro hc
      have hno := forall_of_isSpace (p := fun c => Text.isNameStart c = false) (by decide) hc
      exact nomatch hno.symm.trans hstart
    have htake := (Text.takeWhile_dropWhile_append hchars ht).1
    have hfirst : Token.first c (n ++ t) = (.name, n.length) := by
      rw [first_of_isNameStart hdigit hstart, htake]
    rw [List.cons_append, symbols_token hspace, firstSymbol, hfirst, List.take_left,
      List.drop_left]

/-- A single character that is no star is a symbol of its own, whatever follows. -/
theorem symbols_cons {token : Token} {c : Char} (hc : token.spelling? = some [c]) (hstar : c ≠ '*')
    (t : Text) : symbols (c :: t) = ⟨token, [c]⟩ :: symbols t := by
  cases token with
  | leftParen => cases hc; exact symbols_token rfl t
  | rightParen => cases hc; exact symbols_token rfl t
  | plus => cases hc; exact symbols_token rfl t
  | minus => cases hc; exact symbols_token rfl t
  | slash => cases hc; exact symbols_token rfl t
  | star => cases hc; exact absurd rfl hstar
  | _ => exact nomatch hc

/-! ## The symbols of an expression -/

/-- The symbol of a sign. -/
def UnaryOp.symbol : UnaryOp → Symbol
  | .plus => ⟨.plus, ['+']⟩
  | .minus => ⟨.minus, ['-']⟩

/-- The symbol of an operator. -/
def BinaryOp.symbol : BinaryOp → Symbol
  | .add => ⟨.plus, ['+']⟩
  | .sub => ⟨.minus, ['-']⟩
  | .mul => ⟨.star, ['*']⟩
  | .div => ⟨.slash, ['/']⟩
  | .pow => ⟨.starStar, ['*', '*']⟩

theorem symbols_unary (op : UnaryOp) (t : Text) :
    symbols (op.text ++ t) = op.symbol :: symbols t := by
  cases op with
  | plus => exact symbols_cons rfl (by decide) t
  | minus => exact symbols_cons rfl (by decide) t

theorem BinaryOp.spelling?_symbol (op : BinaryOp) : op.symbol.token.spelling? = some op.text := by
  cases op <;> rfl

theorem symbols_operator {op : BinaryOp} {t : Text} (ht : ∀ c ∈ t.head?, c ≠ '*') :
    symbols (op.text ++ t) = op.symbol :: symbols t := by
  have hsymbol : (⟨op.symbol.token, op.text⟩ : Symbol) = op.symbol := by
    cases op <;> rfl
  rw [symbols_spelling_append op.spelling?_symbol ht, hsymbol]

/-- An operator with a space on both sides. -/
theorem symbols_binary (op : BinaryOp) (t : Text) :
    symbols (' ' :: (op.text ++ ' ' :: t)) = op.symbol :: symbols t := by
  have hspace : ∀ c ∈ (' ' :: t).head?, c ≠ '*' := by
    rintro c ⟨⟩
    decide
  rw [symbols_space rfl, symbols_operator hspace, symbols_space rfl]

namespace Expr

/-- Every literal is a whole number. -/
def WholeLiterals : Expr → Prop
  | literal n => ∃ k, n = .int k
  | name _ => True
  | group e => e.WholeLiterals
  | unary _ e => e.WholeLiterals
  | binary _ l r => l.WholeLiterals ∧ r.WholeLiterals

/-- The literals are written with digits only, and the names are names. -/
def Spelled : Expr → Prop
  | literal n => ∃ k : Nat, n = .int k
  | name n => Text.isName n = true
  | group e => e.Spelled
  | unary _ e => e.Spelled
  | binary _ l r => l.Spelled ∧ r.Spelled

/-- The symbols that an expression is written with. -/
def written : Expr → List Symbol
  | literal n => [⟨.integer, n.text⟩]
  | name n => [⟨.name, n⟩]
  | group e => ⟨.leftParen, ['(']⟩ :: (e.written ++ [⟨.rightParen, [')']⟩])
  | unary op e => op.symbol :: e.written
  | binary op l r => l.written ++ op.symbol :: r.written

/-- **The text of an expression is cut into its symbols**, if a space or a parenthesis follows. -/
theorem symbols_text_append {e : Expr} (he : e.Spelled) {rest : Text}
    (hrest : ∀ c ∈ rest.head?, c = ' ' ∨ c = ')') :
    symbols (e.text ++ rest) = e.written ++ symbols rest := by
  induction e generalizing rest with
  | literal n =>
    obtain ⟨k, rfl⟩ := he
    rw [text_literal]
    refine symbols_numeral_append (numeral_renderNat k) fun c hc => ?_
    rcases hrest c hc with rfl | rfl
    · decide
    · decide
  | name n =>
    rw [text_name]
    refine symbols_name_append he fun c hc => ?_
    rcases hrest c hc with rfl | rfl
    · decide
    · decide
  | group e ih =>
    have hclose : ∀ c ∈ (')' :: rest).head?, c = ' ' ∨ c = ')' := by
      rintro c ⟨⟩
      exact .inr rfl
    have hleft : Token.spelling? .leftParen = some ['('] := rfl
    have hright : Token.spelling? .rightParen = some [')'] := rfl
    rw [text_group, List.cons_append, List.cons_append, List.append_assoc, List.singleton_append,
      symbols_cons hleft (by decide), ih he hclose, symbols_cons hright (by decide)]
    simp [written]
  | unary op e ih =>
    rw [text_unary, List.append_assoc, symbols_unary, ih he hrest]
    rfl
  | binary op l r ihl ihr =>
    have hspace : ∀ c ∈ (' ' :: (op.text ++ ' ' :: (r.text ++ rest))).head?, c = ' ' ∨ c = ')' := by
      rintro c ⟨⟩
      exact .inl rfl
    have htext : (binary op l r).text ++ rest =
        l.text ++ ' ' :: (op.text ++ ' ' :: (r.text ++ rest)) := by
      rw [text_binary]
      simp
    rw [htext, ihl he.1 hspace, symbols_binary, ihr he.2 hrest]
    simp [written]

theorem symbols_text {e : Expr} (he : e.Spelled) : symbols e.text = e.written := by
  have happend : symbols (e.text ++ []) = e.written ++ symbols [] :=
    symbols_text_append he fun c hc => nomatch hc
  rwa [List.append_nil, symbols_nil, List.append_nil] at happend

/-! ## What they stand for -/

/-- What was read is spelled as it can be read. -/
theorem spelled_of_derives {level : Level} {ws : List Symbol} {e : Expr} (h : Derives level ws e)
    (hnames : ∀ w ∈ ws, w.token = .name → Text.isName w.text = true) (hwhole : e.WholeLiterals) :
    e.Spelled := by
  induction h with
  | add _ _ _ ihe ihf =>
    have hsides := List.forall_mem_append.mp hnames
    exact ⟨ihe hsides.1 hwhole.1, ihf (List.forall_mem_cons.mp hsides.2).2 hwhole.2⟩
  | mul _ _ _ ihe ihf =>
    have hsides := List.forall_mem_append.mp hnames
    exact ⟨ihe hsides.1 hwhole.1, ihf (List.forall_mem_cons.mp hsides.2).2 hwhole.2⟩
  | pow _ _ _ ihe ihf =>
    have hsides := List.forall_mem_append.mp hnames
    exact ⟨ihe hsides.1 hwhole.1, ihf (List.forall_mem_cons.mp hsides.2).2 hwhole.2⟩
  | sign _ _ ih => exact ih (List.forall_mem_cons.mp hnames).2 hwhole
  | group _ _ _ ih =>
    exact ih (List.forall_mem_append.mp (List.forall_mem_cons.mp hnames).2).1 hwhole
  | integer _ hn => exact ⟨_, congrArg Number.int (Whole.fit?_eq_some_iff.mp hn).1.symm⟩
  | decimal _ =>
    obtain ⟨k, hk⟩ := hwhole
    exact nomatch hk
  | name hw => exact hnames _ List.mem_cons_self hw
  | product _ ih => exact ih hnames hwhole
  | signed _ ih => exact ih hnames hwhole
  | power _ ih => exact ih hnames hwhole
  | atom _ ih => exact ih hnames hwhole

theorem sumOp?_symbol {t : Token} {op : BinaryOp} (h : sumOp? t = some op) :
    sumOp? op.symbol.token = some op := by
  cases t with
  | plus => cases h; rfl
  | minus => cases h; rfl
  | _ => exact nomatch h

theorem productOp?_symbol {t : Token} {op : BinaryOp} (h : productOp? t = some op) :
    productOp? op.symbol.token = some op := by
  cases t with
  | star => cases h; rfl
  | slash => cases h; rfl
  | _ => exact nomatch h

theorem sign?_symbol (op : UnaryOp) : sign? op.symbol.token = some op := by
  cases op with
  | plus => rfl
  | minus => rfl

/-- **The symbols of an expression stand for it**, at the level at which it was read. -/
theorem derives_written {level : Level} {ws : List Symbol} {e : Expr} (h : Derives level ws e)
    (hwhole : e.WholeLiterals) : Derives level e.written e := by
  induction h with
  | add _ hop _ ihe ihf => exact .add (ihe hwhole.1) (sumOp?_symbol hop) (ihf hwhole.2)
  | mul _ hop _ ihe ihf => exact .mul (ihe hwhole.1) (productOp?_symbol hop) (ihf hwhole.2)
  | pow _ _ _ ihe ihf => exact .pow (ihe hwhole.1) rfl (ihf hwhole.2)
  | @sign _ _ op _ _ _ ih => exact .sign (sign?_symbol op) (ih hwhole)
  | group _ _ _ ih => exact .group rfl (ih hwhole) rfl
  | @integer w n _ hn =>
    obtain ⟨rfl, hfits⟩ := Whole.fit?_eq_some_iff.mp hn
    have hdigits : Nat.ofDigitChars 10 (Whole.renderNat (Nat.ofDigitChars 10 w.text 0)) 0 =
        Nat.ofDigitChars 10 w.text 0 := by
      simp [Whole.renderNat]
    refine .integer rfl ?_
    show Whole.fit? (Nat.ofDigitChars 10 (Whole.renderNat _) 0) = _
    rw [hdigits]
    exact Whole.fit?_eq_some_iff.mpr ⟨rfl, hfits⟩
  | decimal _ =>
    obtain ⟨k, hk⟩ := hwhole
    cases hk
  | name _ => exact .name rfl
  | product _ ih => exact .product (ih hwhole)
  | signed _ ih => exact .signed (ih hwhole)
  | power _ ih => exact .power (ih hwhole)
  | atom _ ih => exact .atom (ih hwhole)

/-- **What was read and written reads back**, to the same tree. -/
theorem parse_text {t : Text} {e : Expr} (h : parse t = .ok e) (hwhole : e.WholeLiterals) :
    parse e.text = .ok e := by
  have hderives := parse_eq_ok_iff.mp h
  have hspelled := spelled_of_derives hderives (fun w hw => isName_of_mem_symbols hw) hwhole
  rw [parse_eq_ok_iff, symbols_text hspelled]
  exact derives_written hderives hwhole

/-- The tree of `-(2 + x) ** -3 ** 2 * 4 - +1`. -/
def crowdedTree : Expr :=
  binary .sub
    (binary .mul
      (unary .minus (binary .pow
        (group (binary .add (literal (.int 2)) (name ['x'])))
        (unary .minus (binary .pow (literal (.int 3)) (literal (.int 2))))))
      (literal (.int 4)))
    (unary .plus (literal (.int 1)))

/-- Signs before and inside a power, a group, a name, and a difference of which the left side is a
product. -/
theorem parse_text_of_crowdedTree :
    parse "-(2+ x)**-3 ** 2*4 -+1".toList = .ok crowdedTree ∧ crowdedTree.WholeLiterals ∧
      crowdedTree.text = "-(2 + x) ** -3 ** 2 * 4 - +1".toList ∧
      parse crowdedTree.text = .ok crowdedTree := by
  have h : parse "-(2+ x)**-3 ** 2*4 -+1".toList = .ok crowdedTree := by cbv
  have hwhole : crowdedTree.WholeLiterals := by simp [crowdedTree, WholeLiterals]
  exact ⟨h, hwhole, rfl, parse_text h hwhole⟩

end Expr

end DiceNotation
