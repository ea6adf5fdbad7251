import DiceNotation.Expr.Eval
import DiceNotation.Proofs.Expr.Grammar

/-!
# Positions are not looked at

The readers of expressions carry positions along for the sake of messages, and never look at them.
So to forget all positions before reading is the same as to forget them in the answer.  What a text
is read as, and which error there is apart from its place, therefore only depends on the symbols of
the text, and so does its value.

The readers call one another, and so all seven are treated together, on the measure that they
themselves end by.

* `unplaced`: answers and errors without positions.
* `unplaced_sumOf` and its companions.
* `mapError_parse_of_symbols_eq`, `mapError_evaluate_of_symbols_eq`.
-/

namespace DiceNotation

/-- A lexeme at no particular place. -/
def Lexeme.unplaced (l : Lexeme) : Lexeme := ⟨l.token, l.text, 0⟩

/-- An error at no particular place. -/
def ParseError.unplaced : ParseError → ParseError
  | unexpected found expected => unexpected found.unplaced expected
  | unexpectedEnd _ expected => unexpectedEnd 0 expected
  | badNumber literal => badNumber literal.unplaced

/-- An error at no particular place. -/
def ArithError.unplaced : ArithError → ArithError
  | parse e => parse e.unplaced
  | unknownName name => unknownName name
  | fault f => fault f

namespace Expr

/-- What a reader leaves, at no particular place. -/
def Answer.unplaced : Answer → Answer
  | .ok r => .ok (r.1, r.2.map Lexeme.unplaced)
  | .error e => .error e.unplaced

/-- One reader after another. -/
theorem unplaced_bind {x : Answer} {f g : Expr × List Lexeme → Answer}
    (h : ∀ r, x = .ok r → (f r).unplaced = g (r.1, r.2.map Lexeme.unplaced)) :
    Answer.unplaced (x >>= f) = x.unplaced >>= g := by
  cases x with
  | error e => rfl
  | ok r => exact h r rfl

mutual

theorem unplaced_sumOf (stop : Nat) (ls : List Lexeme) :
    (sumOf stop ls).unplaced = sumOf 0 (ls.map Lexeme.unplaced) := by
  rw [sumOf_eq, sumOf_eq, ← unplaced_productOf stop ls]
  refine unplaced_bind fun r hr => ?_
  have hlength := length_lt_of_map_val hr
  exact unplaced_moreSum stop r.1 r.2
termination_by 5 * ls.length + 4

theorem unplaced_moreSum (stop : Nat) (e : Expr) : ∀ ls : List Lexeme,
    (moreSum stop e ls).unplaced = moreSum 0 e (ls.map Lexeme.unplaced)
  | [] => by
    rw [moreSum_eq, moreSum_eq]
    rfl
  | l :: ls => by
    rw [moreSum_eq, moreSum_eq]
    show Answer.unplaced (match sumOp? l.token with
      | none => .ok (e, l :: ls)
      | some op => productOf stop ls >>= fun r => moreSum stop (binary op e r.1) r.2) =
        match sumOp? l.token with
        | none => .ok (e, (l :: ls).map Lexeme.unplaced)
        | some op => productOf 0 (ls.map Lexeme.unplaced) >>= fun r =>
          moreSum 0 (binary op e r.1) r.2
    cases sumOp? l.token with
    | none => rfl
    | some op =>
      dsimp only
      rw [← unplaced_productOf stop ls]
      refine unplaced_bind fun r hr => ?_
      have hlength := length_lt_of_map_val hr
      exact unplaced_moreSum stop (binary op e r.1) r.2
termination_by ls => 5 * ls.length

theorem unplaced_productOf (stop : Nat) (ls : List Lexeme) :
    (productOf stop ls).unplaced = productOf 0 (ls.map Lexeme.unplaced) := by
  rw [productOf_eq, productOf_eq, ← unplaced_signedOf stop ls]
  refine unplaced_bind fun r hr => ?_
  have hlength := length_lt_of_map_val hr
  exact unplaced_moreProduct stop r.1 r.2
termination_by 5 * ls.length + 3

theorem unplaced_moreProduct (stop : Nat) (e : Expr) : ∀ ls : List Lexeme,
    (moreProduct stop e ls).unplaced = moreProduct 0 e (ls.map Lexeme.unplaced)
  | [] => by
    rw [moreProduct_eq, moreProduct_eq]
    rfl
  | l :: ls => by
    rw [moreProduct_eq, moreProduct_eq]
    show Answer.unplaced (match productOp? l.token with
      | none => .ok (e, l :: ls)
      | some op => signedOf stop ls >>= fun r => moreProduct stop (binary op e r.1) r.2) =
        match productOp? l.token with
        | none => .ok (e, (l :: ls).map Lexeme.unplaced)
        | some op => signedOf 0 (ls.map Lexeme.unplaced) >>= fun r =>
          moreProduct 0 (binary op e r.1) r.2
    cases productOp? l.token with
    | none => rfl
    | some op =>
      dsimp only
      rw [← unplaced_signedOf stop ls]
      refine unplaced_bind fun r hr => ?_
      have hlength := length_lt_of_map_val hr
      exact unplaced_moreProduct stop (binary op e r.1) r.2
termination_by ls => 5 * ls.length

theorem unplaced_signedOf (stop : Nat) : ∀ ls : List Lexeme,
    (signedOf stop ls).unplaced = signedOf 0 (ls.map Lexeme.unplaced)
  | [] => by
    rw [signedOf_eq, signedOf_eq]
    exact unplaced_powerOf stop []
  | l :: ls => by
    rw [signedOf_eq, signedOf_eq]
    show Answer.unplaced (match sign? l.token with
      | none => powerOf stop (l :: ls)
      | some op => signedOf stop ls >>= fun r => .ok (unary op r.1, r.2)) =
        match sign? l.token with
        | none => powerOf 0 ((l :: ls).map Lexeme.unplaced)
        | some op => signedOf 0 (ls.map Lexeme.unplaced) >>= fun r => .ok (unary op r.1, r.2)
    cases sign? l.token with
    | none => exact unplaced_powerOf stop (l :: ls)
    | some op =>
      dsimp only
      rw [← unplaced_signedOf stop ls]
      exact unplaced_bind fun r _ => rfl
termination_by ls => 5 * ls.length + 2

theorem unplaced_powerOf (stop : Nat) (ls : List Lexeme) :
    (powerOf stop ls).unplaced = powerOf 0 (ls.map Lexeme.unplaced) := by
  rw [powerOf_eq, powerOf_eq, ← unplaced_atomOf stop ls]
  refine unplaced_bind fun r hr => ?_
  obtain ⟨e, rest⟩ := r
  cases rest with
  | nil => rfl
  | cons l rest =>
    have hlength : rest.length + 1 < ls.length := length_lt_of_map_val hr
    show Answer.unplaced (if l.token = .starStar then _ else _) =
      if l.token = .starStar then signedOf 0 (rest.map Lexeme.unplaced) >>= _ else _
    by_cases hl : l.token = .starStar
    · rw [if_pos hl, if_pos hl, ← unplaced_signedOf stop rest]
      exact unplaced_bind fun r _ => rfl
    · rw [if_neg hl, if_neg hl]
      rfl
termination_by 5 * ls.length + 1

theorem unplaced_atomOf (stop : Nat) : ∀ ls : List Lexeme,
    (atomOf stop ls).unplaced = atomOf 0 (ls.map Lexeme.unplaced)
  | [] => by
    rw [atomOf_eq, atomOf_eq]
    rfl
  | ⟨token, text, start⟩ :: ls => by
    rw [atomOf_eq, atomOf_eq, List.map_cons]
    cases token with
    | leftParen =>
      show Answer.unplaced (sumOf stop ls >>= _) = sumOf 0 (ls.map Lexeme.unplaced) >>= _
      rw [← unplaced_sumOf stop ls]
      refine unplaced_bind fun r _ => ?_
      obtain ⟨e, rest⟩ := r
      cases rest with
      | nil => rfl
      | cons r rest =>
        show Answer.unplaced (if r.token = .rightParen then _ else _) =
          if r.token = .rightParen then _ else _
        by_cases hr : r.token = .rightParen
        · rw [if_pos hr, if_pos hr]
          rfl
        · rw [if_neg hr, if_neg hr]
          rfl
    | integer =>
      show Answer.unplaced (match Whole.fit? (Nat.ofDigitChars 10 text 0) with
        | some n => .ok (literal (.int n), ls)
        | none => .error (.badNumber ⟨.integer, text, start⟩)) = _
      dsimp only [Lexeme.unplaced]
      cases Whole.fit? (Nat.ofDigitChars 10 text 0) with
      | some n => rfl
      | none => rfl
    | _ => rfl
termination_by ls => 5 * ls.length

end

theorem mapError_ofLexemes (stop : Nat) (ls : List Lexeme) :
    (ofLexemes stop ls).mapError ParseError.unplaced = ofLexemes 0 (ls.map Lexeme.unplaced) := by
  rw [ofLexemes_eq, ofLexemes_eq, ← unplaced_sumOf stop ls]
  cases sumOf stop ls with
  | error e => rfl
  | ok r =>
    obtain ⟨e, rest⟩ := r
    cases rest with
    | nil => rfl
    | cons l rest => rfl

/-- **What is read only depends on the symbols**, apart from positions. -/
theorem mapError_parse_of_symbols_eq {t u : Text} (h : symbols t = symbols u) :
    (parse t).mapError ParseError.unplaced = (parse u).mapError ParseError.unplaced := by
  have hlexemes : ∀ t : Text, (lexemes t).map Lexeme.unplaced =
      (symbols t).map fun w => ⟨w.token, w.text, 0⟩ := by
    intro t
    rw [symbols, List.map_map]
    rfl
  rw [parse, parse, mapError_ofLexemes, mapError_ofLexemes, hlexemes, hlexemes, h]

end Expr

theorem mapError_evaluate (values : Bindings) (t : Text) :
    (evaluate values t).mapError ArithError.unplaced =
      ((Expr.parse t).mapError ParseError.unplaced).mapError ArithError.parse >>= fun e =>
        (e.eval values).mapError ArithError.unplaced := by
  unfold evaluate
  cases Expr.parse t with
  | error e => rfl
  | ok e => rfl

/-- **So does the value.** -/
theorem mapError_evaluate_of_symbols_eq {t u : Text} (h : symbols t = symbols u)
    (values : Bindings) : (evaluate values t).mapError ArithError.unplaced =
      (evaluate values u).mapError ArithError.unplaced := by
  rw [mapError_evaluate, mapError_evaluate, Expr.mapError_parse_of_symbols_eq h]

end DiceNotation
