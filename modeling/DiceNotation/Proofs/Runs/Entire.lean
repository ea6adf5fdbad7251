import DiceNotation.Proofs.Expr.Places
import DiceNotation.Proofs.Expr.Printing
import DiceNotation.Proofs.Runs.Operands

/-!
# Texts that are one run

A text of numbers, with an operator or only spaces between two of them, is one run, and folding it
gives the value of the whole text.  For the value a plus is written wherever there are only spaces
before a number without a sign; where there are only spaces before a number with one, the sign is
the operator.

Both sides come down to the same symbols.

* Folding first drops blanks.  That keeps the shape of the text, because a stretch of blanks
  becomes a space (`exists_squeeze`).  Then the run is read number by number, and nothing of the
  text is left (`continuation_links`).  Its tokens are put together without any spaces
  (`expression_links`).
* Spaces between symbols do not matter for what the symbols are (`symbols_between`).

What two texts with the same symbols are evaluated to differs in the positions of errors only.

* `Figure`, `Link`, `Run`: the numbers of a run, what stands between them, and their text.
* `Run.summed`: the text with the pluses.
* `foldNumbers_run`.
-/

namespace DiceNotation

open Text

namespace BinaryOp

theorem joins_symbol (op : BinaryOp) : op.symbol.token.joins = true := by
  cases op <;> rfl

theorem text_ne_nil (op : BinaryOp) : op.text ≠ [] := by
  cases op <;> exact List.cons_ne_nil _ _

theorem not_isBlank_text (op : BinaryOp) : ∀ c ∈ op.text, isBlank c = false := by
  cases op <;> decide

end BinaryOp

namespace NumberRun

/-- A number in ASCII digits, which may have a sign and a fraction. -/
structure Figure where
  sign : Option UnaryOp
  whole : Text
  places : Option Text
  numeral_whole : Numeral whole
  numeral_places : ∀ p ∈ places, Numeral p

/-- No number goes on with a text. -/
def Ends (t : Text) : Prop := ∀ c ∈ t.head?, isDecimalDigit c = false ∧ c ≠ '.'

theorem Ends.stops {n t : Text} (h : Ends t) : Stops n t := by
  refine ⟨fun c hc => (h c hc).1, fun _ u hu => ?_⟩
  subst hu
  exact absurd rfl (h '.' rfl).2

namespace Figure

/-- The number without its sign. -/
def unsigned (f : Figure) : Text :=
  match f.places with
  | none => f.whole
  | some p => f.whole ++ '.' :: p

/-- How a number is written. -/
def text (f : Figure) : Text := f.sign.elim [] UnaryOp.text ++ f.unsigned

/-- The tokens of a number in a run. -/
def tokens (f : Figure) : List Text := f.sign.toList.map UnaryOp.text ++ [f.unsigned]

/-- The symbols of a number in an expression. -/
def symbols (f : Figure) : List Symbol :=
  f.sign.toList.map UnaryOp.symbol ++ [⟨if f.places.isSome then .decimal else .integer, f.unsigned⟩]

variable (f : Figure) {rest : Text}

theorem unsigned_unsigned : Unsigned f.unsigned := by
  unfold unsigned
  cases hplaces : f.places with
  | none => exact .of_numeral f.numeral_whole
  | some p => exact .of_numerals f.numeral_whole (f.numeral_places p hplaces)

theorem isNumber_unsigned : isNumber f.unsigned = true := by
  obtain ⟨c, w, hw⟩ := List.exists_cons_of_ne_nil f.numeral_whole.ne_nil
  have hc : c.isDigit = true := f.numeral_whole.isDigit c (by rw [hw]; exact List.mem_cons_self)
  unfold unsigned
  rw [hw]
  cases f.places with
  | none => exact hc
  | some p => exact hc

/-- The characters of a number. -/
theorem forall_mem_text {p : Char → Prop} (h : ∀ c ∈ "+-.0123456789".toList, p c) :
    ∀ c ∈ f.text, p c := by
  have hdigits : ∀ c ∈ "0123456789".toList, p c :=
    fun c hc => h c (List.mem_append_right ['+', '-', '.'] hc)
  have hunsigned : ∀ c ∈ f.unsigned, p c := by
    unfold unsigned
    cases hplaces : f.places with
    | none => exact f.numeral_whole.forall_mem hdigits
    | some q =>
      refine List.forall_mem_append.mpr ⟨f.numeral_whole.forall_mem hdigits, ?_⟩
      exact List.forall_mem_cons.mpr
        ⟨h '.' (by decide), (f.numeral_places q hplaces).forall_mem hdigits⟩
  unfold text
  cases f.sign with
  | none => exact hunsigned
  | some op =>
    cases op with
    | plus => exact List.forall_mem_cons.mpr ⟨h '+' (by decide), hunsigned⟩
    | minus => exact List.forall_mem_cons.mpr ⟨h '-' (by decide), hunsigned⟩

theorem text_ne_nil : f.text ≠ [] :=
  List.append_ne_nil_of_right_ne_nil _ f.unsigned_unsigned.ne_nil

theorem tokens_ne_nil : f.tokens ≠ [] :=
  List.append_ne_nil_of_right_ne_nil _ (List.cons_ne_nil _ _)

theorem not_isBlank : ∀ c ∈ f.text, isBlank c = false := f.forall_mem_text (by decide)

theorem head_append : ∀ c ∈ (f.text ++ rest).head?, c ≠ '*' := by
  intro c hc
  rw [List.head?_append_of_ne_nil _ f.text_ne_nil] at hc
  exact f.forall_mem_text (p := fun c => c ≠ '*') (by decide) c (List.mem_of_head? hc)

/-- **A number is read up to its end.** -/
theorem operand?_text (hrest : Ends rest) : operand? (f.text ++ rest) = some (f.tokens, rest) := by
  refine operand?_eq_some_iff.mpr ⟨f.unsigned, f.unsigned_unsigned, hrest.stops, ?_⟩
  unfold text tokens
  cases f.sign with
  | none => exact .inl ⟨rfl, rfl⟩
  | some op =>
    cases op with
    | plus => exact .inr ⟨'+', rfl, rfl, rfl⟩
    | minus => exact .inr ⟨'-', rfl, rfl, rfl⟩

theorem symbols_unsigned (hrest : Ends rest) : DiceNotation.symbols (f.unsigned ++ rest) =
    ⟨if f.places.isSome then .decimal else .integer, f.unsigned⟩ :: DiceNotation.symbols rest := by
  have hdigit : ∀ c ∈ rest.head?, c.isDigit = false := by
    intro c hc
    rw [Bool.eq_false_iff]
    intro hd
    cases (isDecimalDigit_of_isDigit hd).symm.trans (hrest c hc).1
  unfold unsigned
  cases hplaces : f.places with
  | none => exact symbols_numeral_append f.numeral_whole fun c hc => ⟨hdigit c hc, (hrest c hc).2⟩
  | some p => exact symbols_decimal_append f.numeral_whole (f.numeral_places p hplaces) hdigit

theorem symbols_text (hrest : Ends rest) :
    DiceNotation.symbols (f.text ++ rest) = f.symbols ++ DiceNotation.symbols rest := by
  unfold text symbols
  cases f.sign with
  | none => exact f.symbols_unsigned hrest
  | some op =>
    show DiceNotation.symbols (op.text ++ f.unsigned ++ rest) = op.symbol :: _
    rw [List.append_assoc, symbols_unary, f.symbols_unsigned hrest]
    rfl

end Figure

/-! ## What stands between two numbers -/

/-- A number behind an operator or none, with spaces around the operator. -/
def between (before : Text) (op : Option BinaryOp) (after : Text) (f : Figure) : Text :=
  before ++ (op.elim [] BinaryOp.text ++ (after ++ f.text))

/-- A number of a run with what stands between it and the number before. -/
structure Link where
  before : Text
  op : Option BinaryOp
  after : Text
  number : Figure
  isSpace_before : ∀ c ∈ before, Token.isSpace c = true
  isSpace_after : ∀ c ∈ after, Token.isSpace c = true
  /-- Without an operator there is a space. -/
  ne_nil : op = none → before ++ after ≠ []

namespace Link

/-- How a number and what stands before it is written. -/
def text (l : Link) : Text := between l.before l.op l.after l.number

/-- The operator that the number before and this one are combined by.  It is a plus if there are
only spaces between them, and none if a sign takes its place. -/
def operator (l : Link) : Option BinaryOp :=
  if l.op.isNone && l.number.sign.isNone then some .add else l.op

/-- The same text with a plus if there are only spaces before a number without a sign. -/
def summed (l : Link) : Text := between l.before l.operator l.after l.number

/-- The same text without any spaces. -/
def bare (l : Link) : Text := between [] l.operator [] l.number

/-- The tokens in a run. -/
def tokens (l : Link) : List Text := l.op.toList.map BinaryOp.text ++ l.number.tokens

/-- The symbols in an expression. -/
def symbols (l : Link) : List Symbol := l.operator.toList.map BinaryOp.symbol ++ l.number.symbols

end Link

section Between

variable {before after rest : Text} {op : Option BinaryOp} {f : Figure}

/-- The number before ends where something stands between it and the next one. -/
theorem ends_between (hbefore : ∀ c ∈ before, Token.isSpace c = true)
    (hafter : ∀ c ∈ after, Token.isSpace c = true)
    (h : op = none → f.sign = none → before ++ after ≠ []) :
    Ends (between before op after f ++ rest) := by
  have hspace : ∀ {c : Char}, Token.isSpace c = true → isDecimalDigit c = false ∧ c ≠ '.' :=
    fun hc => forall_of_isSpace (p := fun c => isDecimalDigit c = false ∧ c ≠ '.') (by decide) hc
  intro c hc
  unfold between at hc
  cases before with
  | cons d before =>
    cases hc
    exact hspace (hbefore c List.mem_cons_self)
  | nil =>
    cases op with
    | some op => cases op <;> (cases hc; decide)
    | none =>
      cases after with
      | cons d after =>
        cases hc
        exact hspace (hafter c List.mem_cons_self)
      | nil =>
        unfold Figure.text at hc
        cases hsign : f.sign with
        | none => exact absurd rfl (h rfl hsign)
        | some sign =>
          rw [hsign] at hc
          cases sign <;> (cases hc; decide)

theorem symbols_spaces_append (hbefore : ∀ c ∈ before, Token.isSpace c = true) (t : Text) :
    symbols (before ++ t) = symbols t := by
  induction before with
  | nil => rfl
  | cons c before ih =>
    rw [List.cons_append, symbols_space (hbefore c List.mem_cons_self)]
    exact ih fun d hd => hbefore d (List.mem_cons_of_mem c hd)

theorem head_spaces_append (hafter : ∀ c ∈ after, Token.isSpace c = true) :
    ∀ c ∈ (after ++ (f.text ++ rest)).head?, c ≠ '*' := by
  cases after with
  | nil => exact f.head_append
  | cons d after =>
    rintro c ⟨⟩
    exact forall_of_isSpace (p := fun c => c ≠ '*') (by decide) (hafter d List.mem_cons_self)

/-- **Spaces between symbols** do not matter. -/
theorem symbols_between (hbefore : ∀ c ∈ before, Token.isSpace c = true)
    (hafter : ∀ c ∈ after, Token.isSpace c = true) (hrest : Ends rest) :
    symbols (between before op after f ++ rest) =
      op.toList.map BinaryOp.symbol ++ (f.symbols ++ symbols rest) := by
  have hnumber : symbols (after ++ (f.text ++ rest)) = f.symbols ++ symbols rest := by
    rw [symbols_spaces_append hafter, f.symbols_text hrest]
  unfold between
  rw [List.append_assoc, symbols_spaces_append hbefore, List.append_assoc, List.append_assoc]
  cases op with
  | none => exact hnumber
  | some op =>
    show symbols (op.text ++ _) = op.symbol :: _
    rw [symbols_operator (head_spaces_append hafter), hnumber]
    rfl

theorem isBlank_of_spaces {g : Text} (hg : ∀ c ∈ g, Token.isSpace c = true) :
    ∀ c ∈ g, isBlank c = true := fun c hc => isBlank_of_isSpace (hg c hc)

theorem trimStart_spaces_append {g t w : Text} (hg : ∀ c ∈ g, Token.isSpace c = true)
    (hw : ∀ c ∈ w, isBlank c = false) (hne : w ≠ []) : trimStart (g ++ (w ++ t)) = w ++ t := by
  refine trimStart_blanks_append (isBlank_of_spaces hg) fun c hc => ?_
  rw [List.head?_append_of_ne_nil _ hne] at hc
  exact hw c (List.mem_of_head? hc)

theorem next?_eq_some {t u : Text} {ops tokens : List Text}
    (hoperator : operator (trimStart t) = (ops, u))
    (hoperand : operand? (trimStart u) = some (tokens, rest)) :
    next? t = some (ops ++ tokens, rest) := by
  unfold next?
  dsimp only
  rw [hoperator, hoperand]
  rfl

/-- Where there is no operator, the sign of a number is taken for one. -/
theorem next?_text (hrest : Ends rest) : next? (f.text ++ rest) = some (f.tokens, rest) := by
  have hunsigned : operand? (f.unsigned ++ rest) = some ([f.unsigned], rest) :=
    operand?_eq_some_iff.mpr ⟨_, f.unsigned_unsigned, hrest.stops, .inl ⟨rfl, rfl⟩⟩
  have htrim := trimStart_append_of_not_blank f.unsigned_unsigned.not_isBlank
    f.unsigned_unsigned.ne_nil rest
  refine next?_eq_some (u := f.unsigned ++ rest) ?_ ?_
  · rw [trimStart_append_of_not_blank f.not_isBlank f.text_ne_nil]
    unfold Figure.text
    cases f.sign with
    | some op => cases op <;> rfl
    | none => exact f.unsigned_unsigned.operator_append rest
  · rw [htrim, hunsigned]

/-- **A run goes on with the next number.** -/
theorem next?_between (hbefore : ∀ c ∈ before, Token.isSpace c = true)
    (hafter : ∀ c ∈ after, Token.isSpace c = true) (hrest : Ends rest) :
    next? (between before op after f ++ rest) =
      some (op.toList.map BinaryOp.text ++ f.tokens, rest) := by
  unfold between
  rw [List.append_assoc, List.append_assoc, List.append_assoc]
  cases op with
  | none =>
    have hspaces : ∀ c ∈ before ++ after, Token.isSpace c = true :=
      List.forall_mem_append.mpr ⟨hbefore, hafter⟩
    have htrim :
        trimStart (before ++ (after ++ (f.text ++ rest))) = trimStart (f.text ++ rest) := by
      rw [← List.append_assoc, trimStart_spaces_append hspaces f.not_isBlank f.text_ne_nil,
        trimStart_append_of_not_blank f.not_isBlank f.text_ne_nil]
    have hnext : next? (before ++ (after ++ (f.text ++ rest))) = next? (f.text ++ rest) := by
      unfold next?
      rw [htrim]
    exact hnext.trans (next?_text hrest)
  | some op =>
    refine next?_eq_some (u := after ++ (f.text ++ rest)) ?_ ?_
    · show operator (trimStart (before ++ (op.text ++ (after ++ (f.text ++ rest))))) = _
      rw [trimStart_spaces_append hbefore op.not_isBlank_text op.text_ne_nil]
      exact Strung.operator_append op.joins_symbol op.spelling?_symbol (head_spaces_append hafter)
    · rw [trimStart_spaces_append hafter f.not_isBlank f.text_ne_nil]
      exact f.operand?_text hrest

/-! ## Squeezing -/

theorem isSpace_of_mem_squeeze {g : Text} (hg : ∀ c ∈ g, Token.isSpace c = true) :
    ∀ c ∈ squeeze g, Token.isSpace c = true := by
  intro c hc
  rw [eq_space_of_mem_squeezeFrom (isBlank_of_spaces hg) false c hc]
  rfl

theorem Figure.squeeze_append (f : Figure) (g : Text) :
    squeeze (g ++ f.text) = squeeze g ++ f.text := by
  have hhead : ∀ c ∈ f.text.head?, isBlank c = false :=
    fun c hc => f.not_isBlank c (List.mem_of_head? hc)
  rw [squeeze, squeezeFrom_append_of_head f.text_ne_nil hhead, squeeze_of_not_blank f.not_isBlank,
    squeeze]

theorem squeeze_operator_append (op : BinaryOp) (g t : Text) :
    squeeze (g ++ (op.text ++ t)) = squeeze g ++ (op.text ++ squeeze t) := by
  have hhead : ∀ c ∈ (op.text ++ t).head?, isBlank c = false := by
    intro c hc
    rw [List.head?_append_of_ne_nil _ op.text_ne_nil] at hc
    exact op.not_isBlank_text c (List.mem_of_head? hc)
  unfold squeeze
  rw [squeezeFrom_append_of_head (List.append_ne_nil_of_left_ne_nil op.text_ne_nil t) hhead,
    squeeze, squeezeFrom_append_of_not_blank op.not_isBlank_text op.text_ne_nil]

end Between

namespace Link

variable (l : Link) {rest : Text}

theorem sign_ne_none (h : l.operator = none) : l.number.sign ≠ none := by
  intro hsign
  unfold operator at h
  rw [hsign] at h
  cases hop : l.op with
  | none =>
    rw [hop] at h
    cases h
  | some op =>
    rw [hop] at h
    cases h

theorem ends_text (rest : Text) : Ends (l.text ++ rest) :=
  ends_between l.isSpace_before l.isSpace_after fun h _ => l.ne_nil h

theorem ends_summed (rest : Text) : Ends (l.summed ++ rest) :=
  ends_between l.isSpace_before l.isSpace_after fun h hsign => absurd hsign (l.sign_ne_none h)

theorem ends_bare (rest : Text) : Ends (l.bare ++ rest) :=
  ends_between nofun nofun fun h hsign => absurd hsign (l.sign_ne_none h)

theorem next?_text (hrest : Ends rest) : next? (l.text ++ rest) = some (l.tokens, rest) :=
  next?_between l.isSpace_before l.isSpace_after hrest

theorem symbols_summed (hrest : Ends rest) :
    DiceNotation.symbols (l.summed ++ rest) = l.symbols ++ DiceNotation.symbols rest := by
  unfold symbols
  rw [List.append_assoc]
  exact symbols_between l.isSpace_before l.isSpace_after hrest

theorem symbols_bare (hrest : Ends rest) :
    DiceNotation.symbols (l.bare ++ rest) = l.symbols ++ DiceNotation.symbols rest := by
  unfold symbols
  rw [List.append_assoc]
  exact symbols_between nofun nofun hrest

theorem tokens_ne_nil : l.tokens ≠ [] :=
  List.append_ne_nil_of_right_ne_nil _ l.number.tokens_ne_nil

theorem text_ne_nil : l.text ≠ [] := by
  unfold text between
  exact List.append_ne_nil_of_right_ne_nil _ (List.append_ne_nil_of_right_ne_nil _
    (List.append_ne_nil_of_right_ne_nil _ l.number.text_ne_nil))

theorem not_isBlank_getLast : ∀ c ∈ l.text.getLast?, isBlank c = false := by
  have htext : l.text = l.before ++ l.op.elim [] BinaryOp.text ++ l.after ++ l.number.text := by
    unfold text between
    simp only [List.append_assoc]
  intro c hc
  rw [htext, List.getLast?_append_of_ne_nil _ l.number.text_ne_nil] at hc
  exact l.number.not_isBlank c (List.mem_of_getLast? hc)

/-- Squeezing changes the spaces only. -/
theorem exists_squeeze : ∃ l' : Link, squeeze l.text = l'.text ∧ l'.tokens = l.tokens := by
  obtain ⟨before, op, after, f, hbefore, hafter, hne⟩ := l
  cases op with
  | none =>
    -- both gaps are one stretch of blanks
    have hspaces := isSpace_of_mem_squeeze (List.forall_mem_append.mpr ⟨hbefore, hafter⟩)
    refine ⟨⟨squeeze (before ++ after), none, [], f, hspaces, nofun, fun _ h => ?_⟩, ?_, rfl⟩
    · rw [List.append_nil, squeeze_eq_nil_iff] at h
      exact hne rfl h
    · show squeeze (before ++ (after ++ f.text)) = squeeze (before ++ after) ++ f.text
      rw [← List.append_assoc, f.squeeze_append]
  | some op =>
    refine ⟨⟨squeeze before, some op, squeeze after, f, isSpace_of_mem_squeeze hbefore,
      isSpace_of_mem_squeeze hafter, nofun⟩, ?_, rfl⟩
    show squeeze (before ++ (op.text ++ (after ++ f.text))) =
      squeeze before ++ (op.text ++ (squeeze after ++ f.text))
    rw [squeeze_operator_append, f.squeeze_append]

end Link

/-! ## Runs -/

section Links

variable {write : Link → Text}

theorem ends_links (h : ∀ l rest, Ends (write l ++ rest)) (ls : List Link) :
    Ends (ls.flatMap write) := by
  cases ls with
  | nil => exact nofun
  | cons l ls => exact h l _

/-- **Nothing is left** of a run. -/
theorem continuation_links (ls : List Link) :
    continuation (ls.flatMap Link.text) = (ls.flatMap Link.tokens, []) := by
  induction ls with
  | nil => exact Strung.continuation_of_none rfl
  | cons l ls ih =>
    rw [List.flatMap_cons, List.flatMap_cons,
      Strung.continuation_of_some (l.next?_text (ends_links Link.ends_text ls)), ih]

theorem symbols_links (h : ∀ l rest, Ends (write l ++ rest))
    (hwrite : ∀ (l : Link) {rest}, Ends rest →
      symbols (write l ++ rest) = l.symbols ++ symbols rest) (ls : List Link) :
    symbols (ls.flatMap write) = ls.flatMap Link.symbols := by
  induction ls with
  | nil => exact symbols_nil
  | cons l ls ih => rw [List.flatMap_cons, List.flatMap_cons, hwrite l (ends_links h ls), ih]

theorem not_isBlank_getLast_links {t : Text} (ht : ∀ c ∈ t.getLast?, isBlank c = false)
    (ls : List Link) : ∀ c ∈ (t ++ ls.flatMap Link.text).getLast?, isBlank c = false := by
  induction ls generalizing t with
  | nil => rwa [List.flatMap_nil, List.append_nil]
  | cons l ls ih =>
    rw [List.flatMap_cons, ← List.append_assoc]
    refine ih fun c hc => l.not_isBlank_getLast c ?_
    rwa [List.getLast?_append_of_ne_nil _ l.text_ne_nil] at hc

theorem exists_squeeze_links (ls : List Link) : ∃ ls' : List Link,
    squeeze (ls.flatMap Link.text) = ls'.flatMap Link.text ∧
      ls'.flatMap Link.tokens = ls.flatMap Link.tokens := by
  induction ls with
  | nil => exact ⟨[], rfl, rfl⟩
  | cons l ls ih =>
    obtain ⟨ls', htext, htokens⟩ := ih
    obtain ⟨l', hl, hl'⟩ := l.exists_squeeze
    refine ⟨l' :: ls', ?_, ?_⟩
    · rw [List.flatMap_cons, squeeze_append_of_getLast l.not_isBlank_getLast, hl, htext]
      rfl
    · rw [List.flatMap_cons, List.flatMap_cons, hl', htokens]

/-- A number in an expression.  Behind another number there would be a plus. -/
theorem expression_figure (f : Figure) {plus : Bool} (h : plus = false ∨ f.sign ≠ none)
    (tokens : List Text) :
    expression plus (f.tokens ++ tokens) = f.text ++ expression true tokens := by
  unfold Figure.tokens Figure.text
  cases hsign : f.sign with
  | none =>
    show expression plus (f.unsigned :: tokens) = f.unsigned ++ _
    rw [Strung.expression_cons (h.imp_right fun hsome => absurd hsign hsome), f.isNumber_unsigned]
  | some op =>
    have hop : isNumber op.text = false := by
      cases op <;> rfl
    show expression plus (op.text :: f.unsigned :: tokens) = op.text ++ f.unsigned ++ _
    rw [Strung.expression_cons (.inr hop), Strung.expression_cons (.inl hop), f.isNumber_unsigned,
      List.append_assoc]

theorem expression_link (l : Link) (tokens : List Text) :
    expression true (l.tokens ++ tokens) = l.bare ++ expression true tokens := by
  unfold Link.tokens Link.bare Link.operator between
  cases l.op with
  | some op =>
    have hop : isNumber op.text = false := by
      cases op <;> rfl
    show expression true (op.text :: (l.number.tokens ++ tokens)) = op.text ++ l.number.text ++ _
    rw [Strung.expression_cons (.inr hop), expression_figure l.number (.inl hop), List.append_assoc]
  | none =>
    show expression true (l.number.tokens ++ tokens) = _
    cases hsign : l.number.sign with
    | some op =>
      exact expression_figure l.number (.inr (by rw [hsign]; exact nofun)) tokens
    | none =>
      unfold Figure.tokens Figure.text
      rw [hsign]
      -- the token before and this one are numbers, so there is a plus
      show expression true (l.number.unsigned :: tokens) = '+' :: l.number.unsigned ++ _
      rw [expression, l.number.isNumber_unsigned, Bool.and_self, if_pos rfl]

theorem expression_links (ls : List Link) :
    expression true (ls.flatMap Link.tokens) = ls.flatMap Link.bare := by
  induction ls with
  | nil => rfl
  | cons l ls ih => rw [List.flatMap_cons, List.flatMap_cons, expression_link, ih]

end Links

/-- A text of at least two numbers. -/
structure Run where
  first : Figure
  next : Link
  more : List Link

namespace Run

variable (r : Run)

/-- The numbers after the first. -/
def links : List Link := r.next :: r.more

/-- How the run is written. -/
def text : Text := r.first.text ++ r.links.flatMap Link.text

/-- The same text with a plus wherever there are only spaces before a number without a sign. -/
def summed : Text := r.first.text ++ r.links.flatMap Link.summed

/-- The tokens of the run. -/
def tokens : List Text := r.first.tokens ++ r.links.flatMap Link.tokens

theorem exists_squeeze_trim : ∃ r' : Run, squeeze (trim r.text) = r'.text ∧
    r'.tokens = r.tokens := by
  have hhead : ∀ c ∈ r.text.head?, isBlank c = false := by
    intro c hc
    unfold text at hc
    rw [List.head?_append_of_ne_nil _ r.first.text_ne_nil] at hc
    exact r.first.not_isBlank c (List.mem_of_head? hc)
  have hfirst : ∀ c ∈ r.first.text.getLast?, isBlank c = false :=
    fun c hc => r.first.not_isBlank c (List.mem_of_getLast? hc)
  obtain ⟨l', hl, hl'⟩ := r.next.exists_squeeze
  obtain ⟨ls', hls, hls'⟩ := exists_squeeze_links r.more
  refine ⟨⟨r.first, l', ls'⟩, ?_, ?_⟩
  · rw [trim_of_not_blank hhead (not_isBlank_getLast_links hfirst r.links)]
    unfold text links
    rw [squeeze_append_of_getLast hfirst, squeeze_of_not_blank r.first.not_isBlank,
      List.flatMap_cons, squeeze_append_of_getLast r.next.not_isBlank_getLast, hl, hls]
    rfl
  · unfold tokens links
    rw [List.flatMap_cons, List.flatMap_cons, hl', hls']

theorem isPlainNumber_tokens : isPlainNumber r.tokens = false := by
  obtain ⟨u, us, hfirst⟩ := List.exists_cons_of_ne_nil r.first.tokens_ne_nil
  obtain ⟨v, vs, hnext⟩ := List.exists_cons_of_ne_nil r.next.tokens_ne_nil
  unfold tokens links
  rw [List.flatMap_cons, hfirst, hnext]
  cases us with
  | nil => rfl
  | cons w us => rfl

/-- **The tokens are put together without spaces**, with the same symbols. -/
theorem symbols_expression : symbols (expression false r.tokens) = symbols r.summed := by
  have hfirst := fun {write : Link → Text} (h : ∀ l rest, Ends (write l ++ rest)) =>
    r.first.symbols_text (ends_links h r.links)
  unfold tokens summed
  rw [expression_figure r.first (.inl rfl), expression_links, hfirst Link.ends_bare,
    hfirst Link.ends_summed, symbols_links Link.ends_bare Link.symbols_bare,
    symbols_links Link.ends_summed Link.symbols_summed]

/-- The whole text is one run. -/
theorem foldNumbers_text : foldNumbers r.text = fold r.tokens := by
  obtain ⟨r', htext, htokens⟩ := r.exists_squeeze_trim
  have hfirst := r'.first.operand?_text (ends_links Link.ends_text r'.links)
  unfold foldNumbers
  rw [htext, text, foldFrom_of_operand? hfirst, if_neg Bool.false_ne_true, continuation_links,
    ← htokens]
  show (fold r'.tokens >>= fun value => foldFrom true [] >>= fun out => .ok (value ++ out)) = _
  rw [foldFrom]
  cases fold r'.tokens with
  | error e => rfl
  | ok value => exact congrArg Except.ok (List.append_nil value)

end Run

/-- **A text that is one run is evaluated as a whole**: folding it gives the value of the text that
has a plus wherever there are only spaces before a number without a sign.  If it has no value, the
errors are the same apart from their positions. -/
theorem foldNumbers_run (r : Run) : (foldNumbers r.text).mapError ArithError.unplaced =
    ((evaluate Bindings.none r.summed).map Number.text).mapError ArithError.unplaced := by
  have hfold : foldNumbers r.text =
      (evaluate Bindings.none (expression false r.tokens)).map Number.text := by
    have hplain : ¬ isPlainNumber r.tokens = true := Bool.eq_false_iff.mp r.isPlainNumber_tokens
    rw [r.foldNumbers_text, fold, if_neg hplain]
    cases evaluate Bindings.none (expression false r.tokens) with
    | error e => rfl
    | ok v => rfl
  have hmap : ∀ x : Except ArithError Number, (x.map Number.text).mapError ArithError.unplaced =
      (x.mapError ArithError.unplaced).map Number.text := by
    intro x
    cases x <;> rfl
  rw [hfold, hmap, hmap, mapError_evaluate_of_symbols_eq r.symbols_expression]

/-- A number without a fraction. -/
def Figure.integer (sign : Option UnaryOp) (w : Text) (hw : Numeral w) : Figure :=
  ⟨sign, w, none, hw, nofun⟩

/-- A number behind a space. -/
def Link.spaced (c : Char) (hc : Token.isSpace c = true) (f : Figure) : Link :=
  ⟨[c], none, [], f, fun _ hd => List.mem_singleton.mp hd ▸ hc, List.forall_mem_nil _,
    fun _ => nofun⟩

/-- A run in which a minus is an operator or a sign, and twice there are only spaces. -/
def mixedRun : Run where
  first := ⟨some .minus, ['1'], some ['5'], ⟨nofun, by decide⟩, fun _ hp =>
    Option.some.inj hp ▸ ⟨nofun, by decide⟩⟩
  next := .spaced ' ' rfl (.integer none ['2'] ⟨nofun, by decide⟩)
  more :=
    [⟨[' '], some .sub, [' '], .integer (some .minus) ['3'] ⟨nofun, by decide⟩, by decide,
        by decide, nofun⟩,
      ⟨[' '], some .pow, [], .integer none ['2'] ⟨nofun, by decide⟩, by decide, by decide, nofun⟩,
      .spaced '\t' rfl (.integer none ['4'] ⟨nofun, by decide⟩),
      .spaced ' ' rfl (.integer (some .minus) ['1'] ⟨nofun, by decide⟩)]

theorem foldNumbers_run_mixed :
    mixedRun.text = "-1.5 2 - -3 **2\t4 -1".toList ∧
      mixedRun.summed = "-1.5 +2 - -3 **2\t+4 -1".toList ∧
      foldNumbers "-1.5 2 - -3 **2\t4 -1".toList = .ok "12.5".toList := by
  have htext : mixedRun.text = "-1.5 2 - -3 **2\t4 -1".toList := rfl
  have hsummed : mixedRun.summed = "-1.5 +2 - -3 **2\t+4 -1".toList := rfl
  have hvalue : (evaluate Bindings.none "-1.5 +2 - -3 **2\t+4 -1".toList).map Number.text =
      .ok "12.5".toList := by decide +kernel
  have hrun := foldNumbers_run mixedRun
  rw [htext, hsummed, hvalue] at hrun
  exact ⟨htext, hsummed, exists_of_mapError_eq_ok hrun⟩

end NumberRun

end DiceNotation
