import DiceNotation.Expr.Eval
import DiceNotation.Proofs.Expr.Symbols
import Mathlib.Algebra.Ring.Int.Parity

/-!
# Whole values

A number with a fraction never becomes whole again: an operator that has a double on one of its
sides gives a double.  So if the value of an expression is a whole number, the values of all
expressions in it are, and each of them is in the range.

* `exists_of_apply_eq_int`, `exists_of_eval_binary`, `exists_of_eval_unary`.
* `Number.pow_neg`: an odd power of the opposite number.
* `Means`: the whole number that symbols stand for at a level.
* `eq_literal_of_derives`, `eq_unary_of_derives`: a numeral, and a numeral after a sign.
* `means_numeral`, `read?_of_evaluate`: a numeral stands for what is read from it.
* `evaluate_minus_renderNat`, `evaluate_decimal`, `evaluate_minus_decimal`: single numbers.
-/

namespace DiceNotation

namespace Number

theorem exists_of_ofInt {n v : Int} (h : ofInt n = .ok (.int v)) : n = v ∧ Whole.fits v = true := by
  cases hfits : Whole.fits n with
  | false =>
    rw [ofInt_of_not_fits hfits] at h
    exact nomatch h
  | true =>
    rw [ofInt_of_fits hfits] at h
    cases h
    exact ⟨rfl, hfits⟩

/-- The power of whole numbers that is whole. -/
theorem exists_of_pow {x y v : Int} (h : pow (.int x) (.int y) = .ok (.int v)) :
    ∃ k : Nat, y = k ∧ k < 2 ^ 32 ∧ intPow? x k = some v ∧ Whole.fits v = true := by
  unfold pow at h
  split at h
  · next x' k hx hy =>
    cases hx
    cases hy
    split at h
    · next hk =>
      cases hpow : intPow? x k with
      | none =>
        rw [hpow] at h
        exact nomatch h
      | some n =>
        rw [hpow] at h
        obtain ⟨rfl, hfits⟩ := exists_of_ofInt h
        exact ⟨k, rfl, hk, hpow, hfits⟩
    · exact nomatch h
  · split at h
    · exact nomatch h
    · exact nomatch h

/-- **An odd power of the opposite number** is opposite. -/
theorem pow_neg {x y v : Int} (h : pow (.int x) (.int y) = .ok (.int v)) (hodd : y % 2 = 1)
    (hfits : Whole.fits (-v) = true) : pow (.int (-x)) (.int y) = .ok (.int (-v)) := by
  obtain ⟨k, rfl, hk, hpow, -⟩ := exists_of_pow h
  have hkodd : Odd k := Nat.odd_iff.mpr (by omega)
  have hneg : intPow? (-x) k = some (-v) := by
    unfold intPow? at hpow ⊢
    by_cases hsmall : k < 64
    · rw [if_pos hsmall] at hpow ⊢
      cases hpow
      exact congrArg some (hkodd.neg_pow x)
    · rw [if_neg hsmall] at hpow ⊢
      rw [Int.natAbs_neg]
      by_cases hunit : x.natAbs ≤ 1
      · rw [if_pos hunit, if_neg (by omega)] at hpow ⊢
        cases hpow
        rfl
      · rw [if_neg hunit] at hpow
        exact nomatch hpow
  show pow (.int (-x)) (.int (.ofNat k)) = _
  rw [pow, if_pos (show k < 4294967296 from hk), hneg]
  exact ofInt_of_fits hfits

end Number

namespace Number

/-- A quotient is whole only if both numbers are. -/
theorem exists_of_div {a b : Number} {v : Int} (h : div a b = .ok (.int v)) :
    (∃ x y, a = .int x ∧ b = .int y) ∧ Whole.fits v = true := by
  unfold div at h
  split at h
  · exact nomatch h
  · split at h
    · next x y _ =>
      split at h
      · exact ⟨⟨x, y, rfl, rfl⟩, (exists_of_ofInt h).2⟩
      · exact nomatch h
    · exact nomatch h

/-- A power is whole only if both numbers are. -/
theorem exists_int_of_pow {a b : Number} {v : Int} (h : pow a b = .ok (.int v)) :
    ∃ x y, a = .int x ∧ b = .int y := by
  unfold pow at h
  split at h
  · next x k => exact ⟨x, k, rfl, rfl⟩
  · split at h
    · exact nomatch h
    · exact nomatch h

end Number

/-- **A whole value comes from whole operands**, and is in the range. -/
theorem exists_of_apply_eq_int {op : BinaryOp} {a b : Number} {v : Int}
    (h : op.apply a b = .ok (.int v)) : (∃ x y, a = .int x ∧ b = .int y) ∧ Whole.fits v = true := by
  cases op with
  | div => exact Number.exists_of_div h
  | pow =>
    obtain ⟨x, y, rfl, rfl⟩ := Number.exists_int_of_pow h
    obtain ⟨k, -, -, -, hfits⟩ := Number.exists_of_pow h
    exact ⟨⟨x, y, rfl, rfl⟩, hfits⟩
  | _ =>
    -- a sum, a difference or a product is a double as soon as one side is
    cases a with
    | float x => exact nomatch h
    | int x =>
      cases b with
      | float y => exact nomatch h
      | int y => exact ⟨⟨x, y, rfl, rfl⟩, (Number.exists_of_ofInt h).2⟩

namespace Expr

variable {values : Bindings} {v : Int}

/-- The values of the operands of an operator. -/
theorem exists_of_eval_binary {op : BinaryOp} {l r : Expr}
    (h : (binary op l r).eval values = .ok (.int v)) :
    ∃ x y, l.eval values = .ok (.int x) ∧ r.eval values = .ok (.int y) ∧
      op.apply (.int x) (.int y) = .ok (.int v) ∧ Whole.fits v = true := by
  unfold eval at h
  obtain ⟨a, ha, h⟩ := exists_of_bind_eq_ok h
  obtain ⟨b, hb, h⟩ := exists_of_bind_eq_ok h
  have happly := exists_of_mapError_eq_ok h
  obtain ⟨⟨x, y, rfl, rfl⟩, hfits⟩ := exists_of_apply_eq_int happly
  exact ⟨x, y, ha, hb, happly, hfits⟩

/-- The value of the operand of a sign. -/
theorem exists_of_eval_unary {op : UnaryOp} {e : Expr}
    (h : (unary op e).eval values = .ok (.int v)) :
    ∃ x, e.eval values = .ok (.int x) ∧ op.apply (.int x) = .ok (.int v) := by
  unfold eval at h
  obtain ⟨a, ha, h⟩ := exists_of_bind_eq_ok h
  have happly := exists_of_mapError_eq_ok h
  cases a with
  | int x => exact ⟨x, ha, happly⟩
  | float x =>
    cases op with
    | plus => exact nomatch happly
    | minus => exact nomatch happly

theorem eval_binary {op : BinaryOp} {l r : Expr} {a b c : Number} (hl : l.eval values = .ok a)
    (hr : r.eval values = .ok b) (h : op.apply a b = .ok c) :
    (binary op l r).eval values = .ok c := by
  unfold eval
  rw [hl, hr]
  show (op.apply a b).mapError _ = _
  rw [h]
  rfl

theorem eval_unary {op : UnaryOp} {e : Expr} {a b : Number} (he : e.eval values = .ok a)
    (h : op.apply a = .ok b) : (unary op e).eval values = .ok b := by
  unfold eval
  rw [he]
  show (op.apply a).mapError _ = _
  rw [h]
  rfl

/-- The whole number that symbols stand for at a level. -/
def Means (level : Level) (us : List Symbol) (v : Int) : Prop :=
  ∃ e, Derives level us e ∧ e.eval Bindings.none = .ok (.int v)

/-- A numeral stands for the number of its digits. -/
theorem means_numeral {w : Text} (h : Whole.fit? (Nat.ofDigitChars 10 w 0) = some v) :
    Means .atom [⟨.integer, w⟩] v := ⟨literal (.int v), .integer rfl h, rfl⟩

/-- Every level derives some symbols. -/
theorem ne_nil_of_derives {level : Level} {ws : List Symbol} {e : Expr} (h : Derives level ws e) :
    ws ≠ [] := by
  induction h with
  | add _ _ _ _ _ => exact List.append_ne_nil_of_right_ne_nil _ (List.cons_ne_nil _ _)
  | mul _ _ _ _ _ => exact List.append_ne_nil_of_right_ne_nil _ (List.cons_ne_nil _ _)
  | pow _ _ _ _ _ => exact List.append_ne_nil_of_right_ne_nil _ (List.cons_ne_nil _ _)
  | sign _ _ _ => exact List.cons_ne_nil _ _
  | group _ _ _ _ => exact List.cons_ne_nil _ _
  | integer _ _ => exact List.cons_ne_nil _ _
  | decimal _ => exact List.cons_ne_nil _ _
  | name _ => exact List.cons_ne_nil _ _
  | product _ ih => exact ih
  | signed _ ih => exact ih
  | power _ ih => exact ih
  | atom _ ih => exact ih

/-- One numeral stands for itself at every level. -/
theorem eq_literal_of_derives {level : Level} {ws : List Symbol} {e : Expr} (h : Derives level ws e)
    {w : Symbol} (hws : ws = [w]) (hw : w.token = .integer) :
    ∃ n, Whole.fit? (Nat.ofDigitChars 10 w.text 0) = some n ∧ e = literal (.int n) := by
  -- an operator stands between two lists of symbols that both have one
  have hno : ∀ {ws us : List Symbol} {w' : Symbol}, ws ≠ [] → ws ++ w' :: us ≠ [w] := by
    intro ws us w' hne heq
    rcases List.append_eq_singleton_iff.mp heq with ⟨hnil, -⟩ | ⟨-, hcons⟩
    · exact hne hnil
    · exact nomatch hcons
  induction h with
  | add he _ _ _ _ => exact absurd hws (hno (ne_nil_of_derives he))
  | mul he _ _ _ _ => exact absurd hws (hno (ne_nil_of_derives he))
  | pow he _ _ _ _ => exact absurd hws (hno (ne_nil_of_derives he))
  | sign _ he _ => exact absurd (List.cons.inj hws).2 (ne_nil_of_derives he)
  | group _ _ _ _ =>
    have hnil := (List.cons.inj hws).2
    exact absurd hnil (List.append_ne_nil_of_right_ne_nil _ (List.cons_ne_nil _ _))
  | integer _ hn =>
    cases hws
    exact ⟨_, hn, rfl⟩
  | decimal hdecimal =>
    cases hws
    exact nomatch hw.symm.trans hdecimal
  | name hname =>
    cases hws
    exact nomatch hw.symm.trans hname
  | product _ ih => exact ih hws
  | signed _ ih => exact ih hws
  | power _ ih => exact ih hws
  | atom _ ih => exact ih hws

/-- A sign before a numeral stands for itself at every level. -/
theorem eq_unary_of_derives {level : Level} {ws : List Symbol} {e : Expr} (h : Derives level ws e)
    {s w : Symbol} {op : UnaryOp} (hws : ws = [s, w]) (hs : sign? s.token = some op)
    (hw : w.token = .integer) :
    ∃ n, Whole.fit? (Nat.ofDigitChars 10 w.text 0) = some n ∧
      e = unary op (literal (.int n)) := by
  -- an operator stands between two lists of symbols, which would have to be empty
  have hno : ∀ {us vs : List Symbol} {u : Symbol}, us ≠ [] → vs ≠ [] → us ++ u :: vs ≠ [s, w] := by
    intro us vs u hus hvs heq
    have hlength := congrArg List.length heq
    have hpos := List.length_pos_iff.mpr hus
    have hpos' := List.length_pos_iff.mpr hvs
    simp only [List.length_append, List.length_cons, List.length_nil] at hlength
    omega
  induction h with
  | add he _ hf _ _ => exact absurd hws (hno (ne_nil_of_derives he) (ne_nil_of_derives hf))
  | mul he _ hf _ _ => exact absurd hws (hno (ne_nil_of_derives he) (ne_nil_of_derives hf))
  | pow he _ hf _ _ => exact absurd hws (hno (ne_nil_of_derives he) (ne_nil_of_derives hf))
  | sign hop he _ =>
    obtain ⟨rfl, rfl⟩ := List.cons.inj hws
    obtain rfl := Option.some.inj (hop.symm.trans hs)
    obtain ⟨n, hn, rfl⟩ := eq_literal_of_derives he rfl hw
    exact ⟨n, hn, rfl⟩
  | group hl _ _ _ =>
    obtain ⟨rfl, -⟩ := List.cons.inj hws
    rw [hl] at hs
    exact nomatch hs
  | integer _ _ => exact nomatch (List.cons.inj hws).2
  | decimal _ => exact nomatch (List.cons.inj hws).2
  | name _ => exact nomatch (List.cons.inj hws).2
  | product _ ih => exact ih hws
  | signed _ ih => exact ih hws
  | power _ ih => exact ih hws
  | atom _ ih => exact ih hws

/-- Whole values are in the range. -/
theorem fits_of_derives {level : Level} {ws : List Symbol} {e : Expr} (h : Derives level ws e)
    (hv : e.eval Bindings.none = .ok (.int v)) : Whole.fits v = true := by
  induction h generalizing v with
  | add _ _ _ _ _ =>
    obtain ⟨x, y, -, -, -, hfits⟩ := exists_of_eval_binary hv
    exact hfits
  | mul _ _ _ _ _ =>
    obtain ⟨x, y, -, -, -, hfits⟩ := exists_of_eval_binary hv
    exact hfits
  | pow _ _ _ _ _ =>
    obtain ⟨x, y, -, -, -, hfits⟩ := exists_of_eval_binary hv
    exact hfits
  | @sign _ _ op _ _ _ ih =>
    obtain ⟨x, hx, happly⟩ := exists_of_eval_unary hv
    cases op with
    | plus =>
      cases happly
      exact ih hx
    | minus => exact (Number.exists_of_ofInt happly).2
  | group _ _ _ ih => exact ih hv
  | integer _ hn =>
    cases hv
    obtain ⟨heq, hfits⟩ := Whole.fit?_eq_some_iff.mp hn
    rw [← heq]
    exact hfits
  | decimal _ => exact nomatch hv
  | name _ => exact nomatch hv
  | product _ ih => exact ih hv
  | signed _ ih => exact ih hv
  | power _ ih => exact ih hv
  | atom _ ih => exact ih hv

end Expr

open DiceNotation.Expr

/-- What a text is evaluated to. -/
theorem exists_of_evaluate {values : Bindings} {t : Text} {v : Number}
    (h : evaluate values t = .ok v) :
    ∃ e, Expr.parse t = .ok e ∧ e.eval values = .ok v := by
  unfold evaluate at h
  obtain ⟨e, he, h⟩ := exists_of_bind_eq_ok h
  exact ⟨e, exists_of_mapError_eq_ok he, h⟩

theorem evaluate_of_parse {values : Bindings} {t : Text} {e : Expr} (h : Expr.parse t = .ok e) :
    evaluate values t = e.eval values := by
  unfold evaluate
  rw [h]
  rfl

/-- **A text has the value that its symbols stand for.** -/
theorem evaluate_of_means {t : Text} {v : Int} (h : Means .sum (symbols t) v) :
    evaluate Bindings.none t = .ok (.int v) := by
  obtain ⟨e, he, hv⟩ := h
  rw [evaluate_of_parse (parse_eq_ok_iff.mpr he), hv]

/-- A numeral is one symbol. -/
theorem symbols_numeral {w : Text} (hw : Numeral w) : symbols w = [⟨.integer, w⟩] := by
  have happend := symbols_numeral_append hw (t := []) fun c hc => nomatch hc
  rwa [List.append_nil, symbols_nil] at happend

/-- A numeral is read as what it is evaluated to. -/
theorem read?_of_evaluate {w : Text} (hw : Numeral w) {v : Int}
    (h : evaluate Bindings.none w = .ok (.int v)) : Whole.read? w = some v := by
  obtain ⟨e, he, hv⟩ := exists_of_evaluate h
  obtain ⟨n, hn, rfl⟩ := eq_literal_of_derives (parse_eq_ok_iff.mp he) (symbols_numeral hw) rfl
  cases hv
  rw [hw.read?_eq]
  exact hn

/-- A sign before a numeral is applied to what the numeral is read as. -/
theorem exists_of_evaluate_sign {token : Token} {op : UnaryOp} {u w : Text}
    (hu : token.spelling? = some u) (hop : Expr.sign? token = some op) (hw : Numeral w) {v : Number}
    (h : evaluate Bindings.none (u ++ w) = .ok v) :
    ∃ m, Whole.fit? (Nat.ofDigitChars 10 w 0) = some m ∧ op.apply (.int m) = .ok v := by
  obtain ⟨e, he, hv⟩ := exists_of_evaluate h
  have hstar : ∀ c ∈ w.head?, c ≠ '*' := fun c hc =>
    hw.forall_mem (p := fun c => c ≠ '*') (by decide) c (List.mem_of_head? hc)
  have hsymbols : symbols (u ++ w) = [⟨token, u⟩, ⟨.integer, w⟩] := by
    rw [symbols_spelling_append hu hstar, symbols_numeral hw]
  obtain ⟨m, hm, rfl⟩ := eq_unary_of_derives (parse_eq_ok_iff.mp he) hsymbols hop rfl
  exact ⟨m, hm, exists_of_mapError_eq_ok hv⟩

/-- A minus before one symbol is applied to the value of the symbol. -/
theorem evaluate_minus {t : Text} {w : Symbol} {e : Expr} {a b : Number}
    (ht : ∀ c ∈ t.head?, c ≠ '*') (hsymbols : symbols t = [w]) (he : Derives .atom [w] e)
    (ha : e.eval Bindings.none = .ok a) (happly : UnaryOp.minus.apply a = .ok b) :
    evaluate Bindings.none ('-' :: t) = .ok b := by
  have hminus : Token.spelling? .minus = some ['-'] := rfl
  have hderives : Derives .sum (symbols (['-'] ++ t)) (.unary .minus e) := by
    rw [symbols_spelling_append hminus ht, hsymbols]
    exact .product (.signed (.sign rfl (.power (.atom he))))
  rw [show '-' :: t = ['-'] ++ t from rfl, evaluate_of_parse (parse_eq_ok_iff.mpr hderives)]
  exact eval_unary ha happly

/-- A minus before the digits of a number. -/
theorem evaluate_minus_renderNat {n : Nat} (h : Whole.lowest < -(n : Int)) :
    evaluate Bindings.none ('-' :: Whole.renderNat n) = .ok (.int (-(n : Int))) := by
  have hw := numeral_renderNat n
  have hfits : Whole.fits (n : Int) = true ∧ Whole.fits (-(n : Int)) = true := by
    rw [Whole.fits_iff, Whole.fits_iff]
    unfold Whole.lowest Whole.highest at *
    omega
  have hdigits : Nat.ofDigitChars 10 (Whole.renderNat n) 0 = n := by simp [Whole.renderNat]
  have hvalue : Whole.fit? (Nat.ofDigitChars 10 (Whole.renderNat n) 0) = some n := by
    rw [hdigits]
    exact Whole.fit?_eq_some_iff.mpr ⟨rfl, hfits.1⟩
  have hstar : ∀ c ∈ (Whole.renderNat n).head?, c ≠ '*' := fun c hc =>
    hw.forall_mem (p := fun c => c ≠ '*') (by decide) c (List.mem_of_head? hc)
  exact evaluate_minus hstar (symbols_numeral hw) (.integer rfl hvalue) rfl
    (Number.ofInt_of_fits hfits.2)

/-- Digits on both sides of a point are one symbol. -/
theorem symbols_decimal {w f : Text} (hw : Numeral w) (hf : Numeral f) :
    symbols (w ++ '.' :: f) = [⟨.decimal, w ++ '.' :: f⟩] := by
  have happend := symbols_decimal_append hw hf (t := []) fun c hc => nomatch hc
  rwa [List.append_nil, symbols_nil] at happend

/-- Digits on both sides of a point are a double. -/
theorem evaluate_decimal {w f : Text} (hw : Numeral w) (hf : Numeral f) :
    evaluate Bindings.none (w ++ '.' :: f) = .ok (.float (decimalValue (w ++ '.' :: f))) := by
  have hderives : Derives .sum (symbols (w ++ '.' :: f))
      (.literal (.float (decimalValue (w ++ '.' :: f)))) := by
    rw [symbols_decimal hw hf]
    exact .product (.signed (.power (.atom (.decimal rfl))))
  rw [evaluate_of_parse (parse_eq_ok_iff.mpr hderives)]
  rfl

/-- A minus before digits on both sides of a point. -/
theorem evaluate_minus_decimal {w f : Text} (hw : Numeral w) (hf : Numeral f) :
    evaluate Bindings.none ('-' :: (w ++ '.' :: f)) =
      .ok (.float (-decimalValue (w ++ '.' :: f))) := by
  have hstar : ∀ c ∈ (w ++ '.' :: f).head?, c ≠ '*' := by
    intro c hc
    rw [List.head?_append_of_ne_nil _ hw.ne_nil] at hc
    exact hw.forall_mem (p := fun c => c ≠ '*') (by decide) c (List.mem_of_head? hc)
  exact evaluate_minus hstar (symbols_decimal hw hf) (.decimal rfl) rfl rfl

end DiceNotation
