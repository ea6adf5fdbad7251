import DiceNotation.Expr.Parser
import DiceNotation.Proofs.Fallible

/-!
# The grammar of expressions

The readers of expressions each take what they can from the front of a list of lexemes.  The grammar
speaks of whole lists instead: it says which lists of symbols a level of the grammar derives, and to
which expression.  Positions play no part in it, so its symbols are lexemes without them.

## The two directions

A reader that succeeds has taken lexemes that its level derives (`derives_of_read`).
Conversely, if a level derives the front of a list, its reader takes at least this front.
Whether it stops there depends on the next lexeme: a sum or a product is gone on with if it can
be, and no level may be followed by an operator that binds tighter.  `takes_of_derives` says so
for all levels at once, in terms of `Level.read` and `Level.finish`, from one lemma for each rule of
the grammar (`Level.Takes`).

* `Symbol`, `symbols`; `Level`, `Derives`.
* `sumOf_eq` and its companions: the readers without the bounds that come with their answers.
* `parse_eq_ok_iff`: a text is read to an expression exactly if the grammar derives it.
-/

namespace DiceNotation

/-- A lexeme apart from its position. -/
structure Symbol where
  token : Token
  text : Text
  deriving DecidableEq, Repr

/-- What a lexeme is apart from its position. -/
def Lexeme.symbol (l : Lexeme) : Symbol := ⟨l.token, l.text⟩

/-- The symbols of a text. -/
def symbols (t : Text) : List Symbol := (lexemes t).map Lexeme.symbol

namespace Expr

/-- The levels of the grammar. -/
inductive Level where
  | sum
  | product
  | signed
  | power
  | atom
  deriving DecidableEq, Repr

/-- The expressions that lists of symbols stand for at a level of the grammar. -/
inductive Derives : Level → List Symbol → Expr → Prop
  | add {ws us : List Symbol} {w : Symbol} {op : BinaryOp} {e f : Expr} (he : Derives .sum ws e)
    (hop : sumOp? w.token = some op) (hf : Derives .product us f) :
    Derives .sum (ws ++ w :: us) (binary op e f)
  | product {ws : List Symbol} {e : Expr} (he : Derives .product ws e) : Derives .sum ws e
  | mul {ws us : List Symbol} {w : Symbol} {op : BinaryOp} {e f : Expr} (he : Derives .product ws e)
    (hop : productOp? w.token = some op) (hf : Derives .signed us f) :
    Derives .product (ws ++ w :: us) (binary op e f)
  | signed {ws : List Symbol} {e : Expr} (he : Derives .signed ws e) : Derives .product ws e
  | sign {ws : List Symbol} {w : Symbol} {op : UnaryOp} {e : Expr}
    (hop : sign? w.token = some op) (he : Derives .signed ws e) :
    Derives .signed (w :: ws) (unary op e)
  | power {ws : List Symbol} {e : Expr} (he : Derives .power ws e) : Derives .signed ws e
  | pow {ws us : List Symbol} {w : Symbol} {e f : Expr} (he : Derives .atom ws e)
    (hop : w.token = .starStar) (hf : Derives .signed us f) :
    Derives .power (ws ++ w :: us) (binary .pow e f)
  | atom {ws : List Symbol} {e : Expr} (he : Derives .atom ws e) : Derives .power ws e
  | group {ws : List Symbol} {l r : Symbol} {e : Expr} (hl : l.token = .leftParen)
    (he : Derives .sum ws e) (hr : r.token = .rightParen) :
    Derives .atom (l :: (ws ++ [r])) (group e)
  | integer {w : Symbol} {n : Int} (hw : w.token = .integer)
    (hn : Whole.fit? (Nat.ofDigitChars 10 w.text 0) = some n) : Derives .atom [w] (literal (.int n))
  | decimal {w : Symbol} (hw : w.token = .decimal) :
    Derives .atom [w] (literal (.float (decimalValue w.text)))
  | name {w : Symbol} (hw : w.token = .name) : Derives .atom [w] (name w.text)

/-! ## Readers without bounds -/

/-- What a reader answers, and the lexemes that are left. -/
abbrev Answer := Except ParseError (Expr × List Lexeme)

variable (stop : Nat)

/-- A sum. -/
def sumOf (ls : List Lexeme) : Answer := (readSum stop ls).map Subtype.val

/-- A sum that starts with `e`. -/
def moreSum (e : Expr) (ls : List Lexeme) : Answer := (extendSum stop e ls).map Subtype.val

/-- A product. -/
def productOf (ls : List Lexeme) : Answer := (readProduct stop ls).map Subtype.val

/-- A product that starts with `e`. -/
def moreProduct (e : Expr) (ls : List Lexeme) : Answer := (extendProduct stop e ls).map Subtype.val

/-- An operand with its signs. -/
def signedOf (ls : List Lexeme) : Answer := (readSigned stop ls).map Subtype.val

/-- A power. -/
def powerOf (ls : List Lexeme) : Answer := (readPower stop ls).map Subtype.val

/-- An atom. -/
def atomOf (ls : List Lexeme) : Answer := (readAtom stop ls).map Subtype.val

theorem sumOf_eq (ls : List Lexeme) :
    sumOf stop ls = productOf stop ls >>= fun r => moreSum stop r.1 r.2 := by
  unfold sumOf productOf moreSum
  rw [readSum]
  cases readProduct stop ls with
  | error e => rfl
  | ok r =>
    obtain ⟨⟨e, rest⟩, h⟩ := r
    show Except.map _ (extendSum stop e rest >>= _) = Except.map _ (extendSum stop e rest)
    cases extendSum stop e rest with
    | error e => rfl
    | ok r => rfl

theorem moreSum_eq (e : Expr) (ls : List Lexeme) :
    moreSum stop e ls = match ls with
      | [] => .ok (e, [])
      | l :: ls => match sumOp? l.token with
        | none => .ok (e, l :: ls)
        | some op => productOf stop ls >>= fun r => moreSum stop (binary op e r.1) r.2 := by
  cases ls with
  | nil =>
    unfold moreSum
    rw [extendSum]
    rfl
  | cons l ls =>
    unfold moreSum productOf
    rw [extendSum]
    cases hop : sumOp? l.token with
    | none => simp only [hop, Except.map]
    | some op =>
      simp only [hop]
      cases readProduct stop ls with
      | error e => rfl
      | ok r =>
        obtain ⟨⟨e', rest⟩, h⟩ := r
        show Except.map _ (extendSum stop (binary op e e') rest >>= _) =
          Except.map _ (extendSum stop (binary op e e') rest)
        cases extendSum stop (binary op e e') rest with
        | error e => rfl
        | ok r => rfl

theorem productOf_eq (ls : List Lexeme) :
    productOf stop ls = signedOf stop ls >>= fun r => moreProduct stop r.1 r.2 := by
  unfold productOf signedOf moreProduct
  rw [readProduct]
  cases readSigned stop ls with
  | error e => rfl
  | ok r =>
    obtain ⟨⟨e, rest⟩, h⟩ := r
    show Except.map _ (extendProduct stop e rest >>= _) = Except.map _ (extendProduct stop e rest)
    cases extendProduct stop e rest with
    | error e => rfl
    | ok r => rfl

theorem moreProduct_eq (e : Expr) (ls : List Lexeme) :
    moreProduct stop e ls = match ls with
      | [] => .ok (e, [])
      | l :: ls => match productOp? l.token with
        | none => .ok (e, l :: ls)
        | some op => signedOf stop ls >>= fun r => moreProduct stop (binary op e r.1) r.2 := by
  cases ls with
  | nil =>
    unfold moreProduct
    rw [extendProduct]
    rfl
  | cons l ls =>
    unfold moreProduct signedOf
    rw [extendProduct]
    cases hop : productOp? l.token with
    | none => simp only [hop, Except.map]
    | some op =>
      simp only [hop]
      cases readSigned stop ls with
      | error e => rfl
      | ok r =>
        obtain ⟨⟨e', rest⟩, h⟩ := r
        show Except.map _ (extendProduct stop (binary op e e') rest >>= _) =
          Except.map _ (extendProduct stop (binary op e e') rest)
        cases extendProduct stop (binary op e e') rest with
        | error e => rfl
        | ok r => rfl

theorem signedOf_eq (ls : List Lexeme) :
    signedOf stop ls = match ls with
      | [] => powerOf stop []
      | l :: ls => match sign? l.token with
        | none => powerOf stop (l :: ls)
        | some op => signedOf stop ls >>= fun r => .ok (unary op r.1, r.2) := by
  cases ls with
  | nil =>
    unfold signedOf powerOf
    rw [readSigned]
  | cons l ls =>
    unfold signedOf powerOf
    rw [readSigned]
    cases hop : sign? l.token with
    | none => simp only [hop]
    | some op =>
      simp only [hop]
      cases readSigned stop ls with
      | error e => rfl
      | ok r => rfl

theorem powerOf_eq (ls : List Lexeme) :
    powerOf stop ls = atomOf stop ls >>= fun r => match r.2 with
      | [] => .ok (r.1, [])
      | l :: rest =>
        if l.token = .starStar then
          signedOf stop rest >>= fun r' => .ok (binary .pow r.1 r'.1, r'.2)
        else .ok (r.1, l :: rest) := by
  unfold powerOf atomOf
  rw [readPower]
  cases readAtom stop ls with
  | error e => rfl
  | ok r =>
    obtain ⟨⟨e, rest⟩, h⟩ := r
    cases rest with
    | nil => rfl
    | cons l rest =>
      by_cases hl : l.token = .starStar
      · unfold signedOf
        simp only [hl, if_true, Except.map, bind, Except.bind]
        cases readSigned stop rest with
        | error e => rfl
        | ok r => rfl
      · simp only [hl, if_false, Except.map, bind, Except.bind]
        rfl

theorem atomOf_eq (ls : List Lexeme) :
    atomOf stop ls = match ls with
      | [] => .error (refuse stop atomStarts [])
      | l :: ls => match l.token with
        | .leftParen => sumOf stop ls >>= fun r => match r.2 with
          | [] => .error (refuse stop [.rightParen] [])
          | r' :: rest =>
            if r'.token = .rightParen then .ok (group r.1, rest)
            else .error (refuse stop [.rightParen] (r' :: rest))
        | .integer =>
          match Whole.fit? (Nat.ofDigitChars 10 l.text 0) with
          | some n => .ok (literal (.int n), ls)
          | none => .error (.badNumber l)
        | .decimal => .ok (literal (.float (decimalValue l.text)), ls)
        | .name => .ok (Expr.name l.text, ls)
        | _ => .error (refuse stop atomStarts (l :: ls)) := by
  cases ls with
  | nil =>
    unfold atomOf
    rw [readAtom]
    rfl
  | cons l ls =>
    obtain ⟨token, text, start⟩ := l
    unfold atomOf sumOf
    rw [readAtom]
    cases token with
    | leftParen =>
      dsimp only
      cases readSum stop ls with
      | error e => rfl
      | ok r =>
        obtain ⟨⟨e, rest⟩, h⟩ := r
        cases rest with
        | nil => rfl
        | cons r' rest =>
          by_cases hr : r'.token = .rightParen
          · simp only [hr, if_true, Except.map, bind, Except.bind]
            rfl
          · simp only [hr, if_false, Except.map, bind, Except.bind]
    | integer =>
      dsimp only
      cases Whole.fit? (Nat.ofDigitChars 10 text 0) with
      | none => rfl
      | some n => rfl
    | _ => rfl

/-! ## What readers take is derived -/

/-- A reader leaves fewer lexemes. -/
theorem length_lt_of_map_val {ls rest : List Lexeme} {e : Expr} {x : Except ParseError (Reading ls)}
    (h : x.map Subtype.val = .ok (e, rest)) : rest.length < ls.length := by
  cases x with
  | error e => exact nomatch h
  | ok r =>
    have hr : r.1 = (e, rest) := Except.ok.inj h
    have hlength := r.2
    rw [hr] at hlength
    exact hlength

/-- The front of a list of lexemes is derived at a level. -/
def Front (level : Level) (ls rest : List Lexeme) (e : Expr) : Prop :=
  ∃ front, ls = front ++ rest ∧ Derives level (front.map Lexeme.symbol) e

/-- The front of a list of lexemes goes on with what was derived at a level. -/
def Goes (level : Level) (ls rest : List Lexeme) (e e' : Expr) : Prop :=
  ∀ ws, Derives level ws e →
    ∃ front, ls = front ++ rest ∧ Derives level (ws ++ front.map Lexeme.symbol) e'

theorem Goes.refl (level : Level) (ls : List Lexeme) (e : Expr) : Goes level ls ls e e :=
  fun ws h => ⟨[], rfl, by rw [List.map_nil, List.append_nil]; exact h⟩

/-- A front and what it goes on with. -/
theorem Front.goes {level : Level} {ls mid rest : List Lexeme} {e e' : Expr}
    (h : Front level ls mid e) (hgoes : Goes level mid rest e e') : Front level ls rest e' := by
  obtain ⟨front, rfl, he⟩ := h
  obtain ⟨more, rfl, he'⟩ := hgoes _ he
  refine ⟨front ++ more, (List.append_assoc ..).symm, ?_⟩
  rw [List.map_append]
  exact he'

/-- An operator and what it goes on with. -/
theorem Goes.step {level next : Level} {l : Lexeme} {ls mid rest : List Lexeme} {e e' f : Expr}
    {op : BinaryOp} (hf : Front next ls mid f)
    (hop : ∀ {ws us}, Derives level ws e → Derives next us f →
      Derives level (ws ++ l.symbol :: us) (binary op e f))
    (hgoes : Goes level mid rest (binary op e f) e') : Goes level (l :: ls) rest e e' := by
  intro ws he
  obtain ⟨front, rfl, hf⟩ := hf
  obtain ⟨more, rfl, he'⟩ := hgoes _ (hop he hf)
  refine ⟨l :: (front ++ more), by rw [List.cons_append, List.append_assoc], ?_⟩
  rw [List.map_cons, List.map_append, ← List.cons_append, ← List.append_assoc]
  exact he'

mutual

theorem front_of_sumOf (stop : Nat) (ls : List Lexeme) {rest : List Lexeme} {e : Expr}
    (h : sumOf stop ls = .ok (e, rest)) : Front .sum ls rest e := by
  rw [sumOf_eq] at h
  obtain ⟨⟨f, mid⟩, hf, h⟩ := exists_of_bind_eq_ok h
  have hmid := length_lt_of_map_val hf
  obtain ⟨front, hls, hfront⟩ := front_of_productOf stop ls hf
  exact Front.goes ⟨front, hls, .product hfront⟩ (goes_of_moreSum stop mid h)
termination_by 5 * ls.length + 4

theorem goes_of_moreSum (stop : Nat) : ∀ (ls : List Lexeme) {rest : List Lexeme} {e e' : Expr},
    moreSum stop e ls = .ok (e', rest) → Goes .sum ls rest e e'
  | [], rest, e, e', h => by
    rw [moreSum_eq] at h
    cases h
    exact Goes.refl .sum [] e
  | l :: ls, rest, e, e', h => by
    rw [moreSum_eq] at h
    cases hop : sumOp? l.token with
    | none =>
      simp only [hop] at h
      cases h
      exact Goes.refl .sum (l :: ls) e
    | some op =>
      simp only [hop] at h
      obtain ⟨⟨f, mid⟩, hf, h⟩ := exists_of_bind_eq_ok h
      have hmid := length_lt_of_map_val hf
      exact Goes.step (front_of_productOf stop ls hf) (fun he hf => .add he hop hf)
        (goes_of_moreSum stop mid h)
termination_by ls => 5 * ls.length

theorem front_of_productOf (stop : Nat) (ls : List Lexeme) {rest : List Lexeme} {e : Expr}
    (h : productOf stop ls = .ok (e, rest)) : Front .product ls rest e := by
  rw [productOf_eq] at h
  obtain ⟨⟨f, mid⟩, hf, h⟩ := exists_of_bind_eq_ok h
  have hmid := length_lt_of_map_val hf
  obtain ⟨front, hls, hfront⟩ := front_of_signedOf stop ls hf
  exact Front.goes ⟨front, hls, .signed hfront⟩ (goes_of_moreProduct stop mid h)
termination_by 5 * ls.length + 3

theorem goes_of_moreProduct (stop : Nat) : ∀ (ls : List Lexeme) {rest : List Lexeme} {e e' : Expr},
    moreProduct stop e ls = .ok (e', rest) → Goes .product ls rest e e'
  | [], rest, e, e', h => by
    rw [moreProduct_eq] at h
    cases h
    exact Goes.refl .product [] e
  | l :: ls, rest, e, e', h => by
    rw [moreProduct_eq] at h
    cases hop : productOp? l.token with
    | none =>
      simp only [hop] at h
      cases h
      exact Goes.refl .product (l :: ls) e
    | some op =>
      simp only [hop] at h
      obtain ⟨⟨f, mid⟩, hf, h⟩ := exists_of_bind_eq_ok h
      have hmid := length_lt_of_map_val hf
      exact Goes.step (front_of_signedOf stop ls hf) (fun he hf => .mul he hop hf)
        (goes_of_moreProduct stop mid h)
termination_by ls => 5 * ls.length

theorem front_of_signedOf (stop : Nat) : ∀ (ls : List Lexeme) {rest : List Lexeme} {e : Expr},
    signedOf stop ls = .ok (e, rest) → Front .signed ls rest e
  | [], rest, e, h => by
    rw [signedOf_eq] at h
    obtain ⟨front, hls, hfront⟩ := front_of_powerOf stop [] h
    exact ⟨front, hls, .power hfront⟩
  | l :: ls, rest, e, h => by
    rw [signedOf_eq] at h
    cases hop : sign? l.token with
    | none =>
      simp only [hop] at h
      obtain ⟨front, hls, hfront⟩ := front_of_powerOf stop (l :: ls) h
      exact ⟨front, hls, .power hfront⟩
    | some op =>
      simp only [hop] at h
      obtain ⟨⟨f, mid⟩, hf, h⟩ := exists_of_bind_eq_ok h
      cases h
      obtain ⟨front, hls, hfront⟩ := front_of_signedOf stop ls hf
      exact ⟨l :: front, congrArg (l :: ·) hls, .sign hop hfront⟩
termination_by ls => 5 * ls.length + 2

theorem front_of_powerOf (stop : Nat) (ls : List Lexeme) {rest : List Lexeme} {e : Expr}
    (h : powerOf stop ls = .ok (e, rest)) : Front .power ls rest e := by
  rw [powerOf_eq] at h
  obtain ⟨⟨f, mid⟩, hf, h⟩ := exists_of_bind_eq_ok h
  have hmid := length_lt_of_map_val hf
  obtain ⟨front, hls, hfront⟩ := front_of_atomOf stop ls hf
  cases mid with
  | nil => cases h; exact ⟨front, hls, .atom hfront⟩
  | cons l mid =>
    by_cases hl : l.token = .starStar
    · simp only [hl, if_true] at h
      obtain ⟨⟨g, mid'⟩, hg, h⟩ := exists_of_bind_eq_ok h
      cases h
      rw [List.length_cons] at hmid
      obtain ⟨more, hmore, hg⟩ := front_of_signedOf stop mid hg
      refine ⟨front ++ l :: more, ?_, ?_⟩
      · rw [hls, hmore, List.append_assoc, List.cons_append]
      · rw [List.map_append, List.map_cons]
        exact .pow hfront hl hg
    · simp only [hl, if_false] at h
      cases h
      exact ⟨front, hls, .atom hfront⟩
termination_by 5 * ls.length + 1

theorem front_of_atomOf (stop : Nat) : ∀ (ls : List Lexeme) {rest : List Lexeme} {e : Expr},
    atomOf stop ls = .ok (e, rest) → Front .atom ls rest e
  | [], rest, e, h => by
    rw [atomOf_eq] at h
    exact nomatch h
  | l :: ls, rest, e, h => by
    rw [atomOf_eq] at h
    cases htoken : l.token with
    | leftParen =>
      simp only [htoken] at h
      obtain ⟨⟨f, mid⟩, hf, h⟩ := exists_of_bind_eq_ok h
      obtain ⟨front, hls, hfront⟩ := front_of_sumOf stop ls hf
      cases mid with
      | nil => exact nomatch h
      | cons r mid =>
        by_cases hr : r.token = .rightParen
        · simp only [hr, if_true] at h
          cases h
          refine ⟨l :: (front ++ [r]), ?_, ?_⟩
          · rw [hls, List.cons_append, List.append_assoc, List.singleton_append]
          · rw [List.map_cons, List.map_append]
            exact .group htoken hfront hr
        · simp only [hr, if_false] at h
          exact nomatch h
    | integer =>
      simp only [htoken] at h
      cases hn : Whole.fit? (Nat.ofDigitChars 10 l.text 0) with
      | none => rw [hn] at h; exact nomatch h
      | some n => rw [hn] at h; cases h; exact ⟨[l], rfl, .integer htoken hn⟩
    | decimal => simp only [htoken] at h; cases h; exact ⟨[l], rfl, .decimal htoken⟩
    | name => simp only [htoken] at h; cases h; exact ⟨[l], rfl, .name htoken⟩
    | _ => simp only [htoken] at h; exact nomatch h
termination_by ls => 5 * ls.length

end

/-! ## What is derived is read -/

/-- Whether a token goes on with what a level derives, so that no reader stops before it. -/
def Level.continues : Level → Token → Bool
  | sum, t => t == .starStar || t == .star || t == .slash
  | atom, _ => false
  | _, t => t == .starStar

/-- Reading at a level. -/
def Level.read (stop : Nat) : Level → List Lexeme → Answer
  | sum, ls => sumOf stop ls
  | product, ls => productOf stop ls
  | signed, ls => signedOf stop ls
  | power, ls => powerOf stop ls
  | atom, ls => atomOf stop ls

/-- What a level makes of the rest, when an expression has been read. -/
def Level.finish (stop : Nat) : Level → Expr → List Lexeme → Answer
  | sum, e, ls => moreSum stop e ls
  | product, e, ls => moreProduct stop e ls
  | _, e, ls => .ok (e, ls)

/-- A product ends before a token that is no operator of products. -/
theorem moreProduct_of_stop {stop : Nat} {e : Expr} {rest : List Lexeme}
    (h : ∀ l ∈ rest.head?, productOp? l.token = none) :
    moreProduct stop e rest = .ok (e, rest) := by
  rw [moreProduct_eq]
  cases rest with
  | nil => rfl
  | cons l rest => simp only [h l rfl]

/-- A sum ends before a token that is no operator of sums. -/
theorem moreSum_of_stop {stop : Nat} {e : Expr} {rest : List Lexeme}
    (h : ∀ l ∈ rest.head?, sumOp? l.token = none) : moreSum stop e rest = .ok (e, rest) := by
  rw [moreSum_eq]
  cases rest with
  | nil => rfl
  | cons l rest => simp only [h l rfl]

/-- Powers and atoms do not begin with a sign. -/
theorem sign?_of_derives {level : Level} {ws : List Symbol} {e : Expr} (h : Derives level ws e)
    (hlevel : level = .power ∨ level = .atom) : ∃ w us, ws = w :: us ∧ sign? w.token = none := by
  induction h with
  | pow _ _ _ ih =>
    obtain ⟨w, us, rfl, hw⟩ := ih (Or.inr rfl)
    exact ⟨w, _, rfl, hw⟩
  | atom _ ih => exact ih (Or.inr rfl)
  | group hl => exact ⟨_, _, rfl, by rw [hl]; rfl⟩
  | integer hw => exact ⟨_, _, rfl, by rw [hw]; rfl⟩
  | decimal hw => exact ⟨_, _, rfl, by rw [hw]; rfl⟩
  | name hw => exact ⟨_, _, rfl, by rw [hw]; rfl⟩
  | _ => exact absurd hlevel (by decide)

theorem productOp?_eq_none {t : Token} (h : Level.sum.continues t = false) :
    productOp? t = none := by
  cases t with
  | star => exact nomatch h
  | slash => exact nomatch h
  | _ => rfl

theorem continues_of_sumOp? {t : Token} {op : BinaryOp} (h : sumOp? t = some op) :
    Level.sum.continues t = false := by
  cases t with
  | plus => rfl
  | minus => rfl
  | _ => exact nomatch h

theorem continues_of_productOp? {t : Token} {op : BinaryOp} (h : productOp? t = some op) :
    Level.product.continues t = false := by
  cases t with
  | star => rfl
  | slash => rfl
  | _ => exact nomatch h

theorem product_continues {t : Token} (h : Level.sum.continues t = false) :
    Level.product.continues t = false := by
  cases t with
  | starStar => exact nomatch h
  | _ => rfl

/-! What each reader does in one step, given what the readers below it have answered. -/

section Steps

variable {stop : Nat} {l : Lexeme} {ls rest : List Lexeme} {e f : Expr}

theorem moreSum_cons {op : BinaryOp} (hop : sumOp? l.token = some op)
    (hf : productOf stop ls = .ok (f, rest)) :
    moreSum stop e (l :: ls) = moreSum stop (binary op e f) rest := by
  rw [moreSum_eq]
  simp only [hop]
  rw [hf]
  rfl

theorem moreProduct_cons {op : BinaryOp} (hop : productOp? l.token = some op)
    (hf : signedOf stop ls = .ok (f, rest)) :
    moreProduct stop e (l :: ls) = moreProduct stop (binary op e f) rest := by
  rw [moreProduct_eq]
  simp only [hop]
  rw [hf]
  rfl

theorem signedOf_cons {op : UnaryOp} (hop : sign? l.token = some op)
    (he : signedOf stop ls = .ok (e, rest)) :
    signedOf stop (l :: ls) = .ok (unary op e, rest) := by
  rw [signedOf_eq]
  simp only [hop]
  rw [he]
  rfl

theorem signedOf_of_not_sign (hl : sign? l.token = none) :
    signedOf stop (l :: ls) = powerOf stop (l :: ls) := by
  rw [signedOf_eq]
  simp only [hl]

theorem powerOf_of_starStar {more : List Lexeme} (he : atomOf stop ls = .ok (e, l :: more))
    (hl : l.token = .starStar) (hf : signedOf stop more = .ok (f, rest)) :
    powerOf stop ls = .ok (binary .pow e f, rest) := by
  rw [powerOf_eq, he]
  show (if l.token = .starStar then signedOf stop more >>= fun r =>
    .ok (binary .pow e r.1, r.2) else .ok (e, l :: more) : Answer) = _
  rw [if_pos hl, hf]
  rfl

theorem powerOf_of_stop (he : atomOf stop ls = .ok (e, rest))
    (hrest : ∀ l ∈ rest.head?, l.token ≠ .starStar) : powerOf stop ls = .ok (e, rest) := by
  rw [powerOf_eq, he]
  cases rest with
  | nil => rfl
  | cons l rest =>
    show (if l.token = .starStar then _ else .ok (e, l :: rest) : Answer) = .ok (e, l :: rest)
    rw [if_neg (hrest l rfl)]

theorem atomOf_group {r : Lexeme} (hl : l.token = .leftParen)
    (he : sumOf stop ls = .ok (e, r :: rest)) (hr : r.token = .rightParen) :
    atomOf stop (l :: ls) = .ok (group e, rest) := by
  rw [atomOf_eq]
  simp only [hl]
  rw [he]
  show (if r.token = .rightParen then _ else _ : Answer) = _
  rw [if_pos hr]

end Steps

/-- The lexemes of one symbol. -/
theorem exists_of_map_symbol_singleton {ls : List Lexeme} {w : Symbol}
    (h : ls.map Lexeme.symbol = [w]) : ∃ l, ls = [l] ∧ l.symbol = w := by
  obtain ⟨l, none, rfl, hl, hnone⟩ := List.map_eq_cons_iff.mp h
  obtain rfl := List.map_eq_nil_iff.mp hnone
  exact ⟨l, rfl, hl⟩

/-- The lexemes of two lists of symbols with one symbol between them. -/
theorem exists_of_map_symbol_between {ls : List Lexeme} {ws us : List Symbol} {w : Symbol}
    (h : ls.map Lexeme.symbol = ws ++ w :: us) :
    ∃ front l more, ls = front ++ l :: more ∧ front.map Lexeme.symbol = ws ∧ l.symbol = w ∧
      more.map Lexeme.symbol = us := by
  obtain ⟨front, more, rfl, hfront, hmore⟩ := List.map_eq_append_iff.mp h
  obtain ⟨l, more, rfl, hl, hmore⟩ := List.map_eq_cons_iff.mp hmore
  exact ⟨front, l, more, rfl, hfront, hl, hmore⟩

/-- The reader of a level takes lexemes with these symbols from the front of a list for this
expression, and goes on from there. -/
def Level.Takes (stop : Nat) (level : Level) (ws : List Symbol) (e : Expr) : Prop :=
  ∀ ⦃ls rest : List Lexeme⦄, ls.map Lexeme.symbol = ws →
    (∀ l ∈ rest.head?, level.continues l.token = false) →
    level.read stop (ls ++ rest) = level.finish stop e rest

/-! What is taken by each rule of the grammar, given what is taken by its parts. -/

namespace Level

section Rules

variable {stop : Nat} {w : Symbol} {ws us : List Symbol} {e f : Expr}

theorem Takes.add {op : BinaryOp} (he : Takes stop .sum ws e) (hop : sumOp? w.token = some op)
    (hf : Takes stop .product us f) : Takes stop .sum (ws ++ w :: us) (binary op e f) := by
  intro ls rest hls hrest
  obtain ⟨front, l, more, rfl, rfl, rfl, rfl⟩ := exists_of_map_symbol_between hls
  have he : sumOf stop (front ++ (l :: (more ++ rest))) = moreSum stop e (l :: (more ++ rest)) := by
    refine he rfl fun l' hl' => ?_
    cases hl'
    exact continues_of_sumOp? hop
  have hf : productOf stop (more ++ rest) = moreProduct stop f rest :=
    hf rfl fun l' hl' => product_continues (hrest l' hl')
  rw [moreProduct_of_stop fun l' hl' => productOp?_eq_none (hrest l' hl')] at hf
  show sumOf stop (front ++ l :: more ++ rest) = moreSum stop (binary op e f) rest
  rw [List.append_assoc, List.cons_append, he, moreSum_cons hop hf]

theorem Takes.sum (he : Takes stop .product ws e) : Takes stop .sum ws e := by
  intro ls rest hls hrest
  have he : productOf stop (ls ++ rest) = moreProduct stop e rest :=
    he hls fun l hl => product_continues (hrest l hl)
  show sumOf stop (ls ++ rest) = moreSum stop e rest
  rw [sumOf_eq, he, moreProduct_of_stop fun l hl => productOp?_eq_none (hrest l hl)]
  rfl

theorem Takes.mul {op : BinaryOp} (he : Takes stop .product ws e)
    (hop : productOp? w.token = some op) (hf : Takes stop .signed us f) :
    Takes stop .product (ws ++ w :: us) (binary op e f) := by
  intro ls rest hls hrest
  obtain ⟨front, l, more, rfl, rfl, rfl, rfl⟩ := exists_of_map_symbol_between hls
  have he : productOf stop (front ++ (l :: (more ++ rest))) =
      moreProduct stop e (l :: (more ++ rest)) := by
    refine he rfl fun l' hl' => ?_
    cases hl'
    exact continues_of_productOp? hop
  have hf : signedOf stop (more ++ rest) = .ok (f, rest) := hf rfl hrest
  show productOf stop (front ++ l :: more ++ rest) = moreProduct stop (binary op e f) rest
  rw [List.append_assoc, List.cons_append, he, moreProduct_cons hop hf]

theorem Takes.product (he : Takes stop .signed ws e) : Takes stop .product ws e := by
  intro ls rest hls hrest
  have he : signedOf stop (ls ++ rest) = .ok (e, rest) := he hls hrest
  show productOf stop (ls ++ rest) = moreProduct stop e rest
  rw [productOf_eq, he]
  rfl

theorem Takes.sign {op : UnaryOp} (hop : sign? w.token = some op) (he : Takes stop .signed ws e) :
    Takes stop .signed (w :: ws) (unary op e) := by
  intro ls rest hls hrest
  obtain ⟨l, ls, rfl, rfl, rfl⟩ := List.map_eq_cons_iff.mp hls
  have he : signedOf stop (ls ++ rest) = .ok (e, rest) := he rfl hrest
  exact signedOf_cons hop he

theorem Takes.signed (he : Takes stop .power (w :: ws) e) (hw : sign? w.token = none) :
    Takes stop .signed (w :: ws) e := by
  intro ls rest hls hrest
  obtain ⟨l, ls, rfl, rfl, rfl⟩ := List.map_eq_cons_iff.mp hls
  have hpower : powerOf stop (l :: (ls ++ rest)) = .ok (e, rest) := he hls hrest
  exact (signedOf_of_not_sign hw).trans hpower

theorem Takes.pow (he : Takes stop .atom ws e) (hw : w.token = .starStar)
    (hf : Takes stop .signed us f) : Takes stop .power (ws ++ w :: us) (binary .pow e f) := by
  intro ls rest hls hrest
  obtain ⟨front, l, more, rfl, rfl, rfl, rfl⟩ := exists_of_map_symbol_between hls
  have he : atomOf stop (front ++ (l :: (more ++ rest))) = .ok (e, l :: (more ++ rest)) :=
    he rfl fun _ _ => rfl
  have hf : signedOf stop (more ++ rest) = .ok (f, rest) := hf rfl hrest
  show powerOf stop (front ++ l :: more ++ rest) = .ok (binary .pow e f, rest)
  rw [List.append_assoc, List.cons_append]
  exact powerOf_of_starStar he hw hf

theorem Takes.power (he : Takes stop .atom ws e) : Takes stop .power ws e := by
  intro ls rest hls hrest
  have he : atomOf stop (ls ++ rest) = .ok (e, rest) := he hls fun _ _ => rfl
  exact powerOf_of_stop he fun l hl => beq_eq_false_iff_ne.mp (hrest l hl)

theorem Takes.group {l r : Symbol} (hl : l.token = .leftParen) (he : Takes stop .sum ws e)
    (hr : r.token = .rightParen) : Takes stop .atom (l :: (ws ++ [r])) (group e) := by
  intro ls rest hls _
  obtain ⟨left, more, rfl, rfl, hmore⟩ := List.map_eq_cons_iff.mp hls
  obtain ⟨inner, last, rfl, rfl, hlast⟩ := List.map_eq_append_iff.mp hmore
  obtain ⟨right, rfl, rfl⟩ := exists_of_map_symbol_singleton hlast
  have hr : right.token = .rightParen := hr
  -- the parenthesis neither goes on with the sum nor is an operator of one
  have he : sumOf stop (inner ++ (right :: rest)) = moreSum stop e (right :: rest) := by
    refine he rfl fun l' hl' => ?_
    cases hl'
    rw [hr]
    rfl
  rw [moreSum_of_stop fun l' hl' => by cases hl'; rw [hr]; rfl] at he
  show atomOf stop (left :: (inner ++ [right] ++ rest)) = .ok (group e, rest)
  rw [List.append_assoc, List.singleton_append]
  exact atomOf_group hl he hr

theorem takes_integer {n : Int} (hw : w.token = .integer)
    (hn : Whole.fit? (Nat.ofDigitChars 10 w.text 0) = some n) :
    Takes stop .atom [w] (literal (.int n)) := by
  intro ls rest hls _
  obtain ⟨l, rfl, rfl⟩ := exists_of_map_symbol_singleton hls
  have hw : l.token = .integer := hw
  have hn : Whole.fit? (Nat.ofDigitChars 10 l.text 0) = some n := hn
  show atomOf stop (l :: rest) = .ok (literal (.int n), rest)
  rw [atomOf_eq]
  simp only [hw, hn]

theorem takes_decimal (hw : w.token = .decimal) :
    Takes stop .atom [w] (literal (.float (decimalValue w.text))) := by
  intro ls rest hls _
  obtain ⟨l, rfl, rfl⟩ := exists_of_map_symbol_singleton hls
  have hw : l.token = .decimal := hw
  show atomOf stop (l :: rest) = .ok (literal (.float (decimalValue l.text)), rest)
  rw [atomOf_eq]
  simp only [hw]

theorem takes_name (hw : w.token = .name) : Takes stop .atom [w] (Expr.name w.text) := by
  intro ls rest hls _
  obtain ⟨l, rfl, rfl⟩ := exists_of_map_symbol_singleton hls
  have hw : l.token = .name := hw
  show atomOf stop (l :: rest) = .ok (Expr.name l.text, rest)
  rw [atomOf_eq]
  simp only [hw]

end Rules

end Level

/-- **A derived front is read**, and the reader goes on from there. -/
theorem takes_of_derives (stop : Nat) {level : Level} {ws : List Symbol} {e : Expr}
    (h : Derives level ws e) : level.Takes stop ws e := by
  induction h with
  | add _ hop _ ihe ihf => exact ihe.add hop ihf
  | product _ ih => exact ih.sum
  | mul _ hop _ ihe ihf => exact ihe.mul hop ihf
  | signed _ ih => exact ih.product
  | sign hop _ ih => exact ih.sign hop
  | power he ih =>
    obtain ⟨w, us, rfl, hw⟩ := sign?_of_derives he (Or.inl rfl)
    exact ih.signed hw
  | pow _ hw _ ihe ihf => exact ihe.pow hw ihf
  | atom _ ih => exact ih.power
  | group hl _ hr ih => exact Level.Takes.group hl ih hr
  | integer hw hn => exact Level.takes_integer hw hn
  | decimal hw => exact Level.takes_decimal hw
  | name hw => exact Level.takes_name hw

/-- A sum with nothing behind it. -/
theorem ofLexemes_eq (stop : Nat) (ls : List Lexeme) :
    ofLexemes stop ls = sumOf stop ls >>= fun r =>
      if r.2.isEmpty then .ok r.1 else .error (refuse stop [] r.2) := by
  unfold ofLexemes sumOf
  cases readSum stop ls with
  | error e => rfl
  | ok r =>
    obtain ⟨⟨f, rest⟩, _⟩ := r
    cases rest with
    | nil => rfl
    | cons l rest => rfl

/-- **Lexemes are an expression exactly if a sum derives them.** -/
theorem ofLexemes_eq_ok_iff {stop : Nat} {ls : List Lexeme} {e : Expr} :
    ofLexemes stop ls = .ok e ↔ Derives .sum (ls.map Lexeme.symbol) e := by
  rw [ofLexemes_eq]
  constructor
  · intro h
    obtain ⟨⟨f, rest⟩, hf, hrest⟩ := exists_of_bind_eq_ok h
    obtain ⟨front, hls, hfront⟩ := front_of_sumOf stop ls hf
    cases rest with
    | nil =>
      cases hrest
      rw [hls, List.append_nil]
      exact hfront
    | cons l rest => exact nomatch hrest
  · intro h
    have hread : sumOf stop (ls ++ []) = moreSum stop e [] :=
      takes_of_derives stop h rfl fun l hl => nomatch hl
    rw [List.append_nil, moreSum_eq] at hread
    rw [hread]
    rfl

/-- **A text spells an expression exactly if a sum derives its symbols.** -/
theorem parse_eq_ok_iff {t : Text} {e : Expr} : parse t = .ok e ↔ Derives .sum (symbols t) e :=
  ofLexemes_eq_ok_iff

end Expr

end DiceNotation
