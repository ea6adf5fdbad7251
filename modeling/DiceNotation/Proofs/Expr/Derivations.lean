import DiceNotation.Proofs.Expr.Grammar

/-!
# Derivations of expressions

`Derives` says which expression a list of symbols stands for.  Here the rules of the grammar are
written down once more without expressions, as the shapes of derivation trees:

    sum     := product (('+' | '-') product)*
    product := signed (('*' | '/') signed)*
    signed  := ('+' | '-') signed | power
    power   := atom ['**' signed]
    atom    := integer | decimal | name | '(' sum ')'

A repetition is a nonterminal of its own, which goes on with what stands before it.  So the
expression of a tree groups sums and products to the left and powers to the right, and a sign
applies to the whole power behind it.  Trees know nothing of the range of integers: it is asked for
separately, in `Symbol.Fits`.

## One tree

A list of symbols is the yield of one tree at most.  Two trees are compared from left to right, with
more symbols behind each of them.  They can only part where a repetition or a power goes on in one
tree and ends in the other, and the first symbol behind a tree is one that its nonterminal does not
go on with (`Nonterminal.Stops`, `Derivation.Only`).

* `Nonterminal`, `Derivation`, with `Derivation.symbols` and `Derivation.expr`.
* `Derivation.derives`, `grown_of_derives`: trees and `Derives`.
* `Derivation.only`, `Derivation.eq_of_symbols_eq`: one tree.
* `ofLexemes_accepts_grammar`: what is read, and as which expression.
-/

namespace DiceNotation

/-- If a symbol is an integer, it is in the range. -/
def Symbol.Fits (w : Symbol) : Prop :=
  w.token = .integer → Whole.fits (Nat.ofDigitChars 10 w.text 0) = true

namespace Expr

/-- What the rules of the grammar are about. -/
inductive Nonterminal where
  | sum
  /-- Any number of signs with a product after each. -/
  | sumTail
  | product
  /-- Any number of operators with an operand after each. -/
  | productTail
  | signed
  | power
  | atom
  deriving DecidableEq, Repr

/-- What a nonterminal stands for: a repetition makes an expression of the one before it. -/
def Nonterminal.Meaning : Nonterminal → Type
  | sumTail => Expr → Expr
  | productTail => Expr → Expr
  | _ => Expr

/-- The derivation trees of a nonterminal. -/
inductive Derivation : Nonterminal → Type where
  | sum (first : Derivation .product) (more : Derivation .sumTail) : Derivation .sum
  | sumEnd : Derivation .sumTail
  | sumStep (w : Symbol) {op : BinaryOp} (hop : sumOp? w.token = some op)
    (next : Derivation .product) (more : Derivation .sumTail) : Derivation .sumTail
  | product (first : Derivation .signed) (more : Derivation .productTail) : Derivation .product
  | productEnd : Derivation .productTail
  | productStep (w : Symbol) {op : BinaryOp} (hop : productOp? w.token = some op)
    (next : Derivation .signed) (more : Derivation .productTail) : Derivation .productTail
  | sign (w : Symbol) {op : UnaryOp} (hop : sign? w.token = some op)
    (operand : Derivation .signed) : Derivation .signed
  | unsigned (p : Derivation .power) : Derivation .signed
  | pow (base : Derivation .atom) (w : Symbol) (hw : w.token = .starStar)
    (exponent : Derivation .signed) : Derivation .power
  | bare (a : Derivation .atom) : Derivation .power
  | integer (w : Symbol) (hw : w.token = .integer) : Derivation .atom
  | decimal (w : Symbol) (hw : w.token = .decimal) : Derivation .atom
  | name (w : Symbol) (hw : w.token = .name) : Derivation .atom
  | group (l : Symbol) (hl : l.token = .leftParen) (inner : Derivation .sum) (r : Symbol)
    (hr : r.token = .rightParen) : Derivation .atom

namespace Derivation

/-- The yield of a tree. -/
def symbols : {n : Nonterminal} → Derivation n → List Symbol
  | _, sum first more => first.symbols ++ more.symbols
  | _, sumEnd => []
  | _, sumStep w _ next more => w :: (next.symbols ++ more.symbols)
  | _, product first more => first.symbols ++ more.symbols
  | _, productEnd => []
  | _, productStep w _ next more => w :: (next.symbols ++ more.symbols)
  | _, sign w _ operand => w :: operand.symbols
  | _, unsigned p => p.symbols
  | _, pow base w _ exponent => base.symbols ++ w :: exponent.symbols
  | _, bare a => a.symbols
  | _, integer w _ => [w]
  | _, decimal w _ => [w]
  | _, name w _ => [w]
  | _, group l _ inner r _ => l :: (inner.symbols ++ [r])

section Yields

variable {w l r : Symbol}

@[simp] theorem symbols_sum (first : Derivation .product) (more : Derivation .sumTail) :
    (sum first more).symbols = first.symbols ++ more.symbols := rfl

@[simp] theorem symbols_sumStep {op : BinaryOp} (hop : sumOp? w.token = some op)
    (next : Derivation .product) (more : Derivation .sumTail) :
    (sumStep w hop next more).symbols = w :: (next.symbols ++ more.symbols) := rfl

@[simp] theorem symbols_product (first : Derivation .signed) (more : Derivation .productTail) :
    (product first more).symbols = first.symbols ++ more.symbols := rfl

@[simp] theorem symbols_productStep {op : BinaryOp} (hop : productOp? w.token = some op)
    (next : Derivation .signed) (more : Derivation .productTail) :
    (productStep w hop next more).symbols = w :: (next.symbols ++ more.symbols) := rfl

@[simp] theorem symbols_sign {op : UnaryOp} (hop : sign? w.token = some op)
    (operand : Derivation .signed) : (sign w hop operand).symbols = w :: operand.symbols := rfl

@[simp] theorem symbols_pow (base : Derivation .atom) (hw : w.token = .starStar)
    (exponent : Derivation .signed) :
    (pow base w hw exponent).symbols = base.symbols ++ w :: exponent.symbols := rfl

@[simp] theorem symbols_group (hl : l.token = .leftParen) (inner : Derivation .sum)
    (hr : r.token = .rightParen) :
    (group l hl inner r hr).symbols = l :: (inner.symbols ++ [r]) := rfl

end Yields

/-- What a tree stands for. -/
def expr : {n : Nonterminal} → Derivation n → n.Meaning
  | _, sum first more => more.expr first.expr
  | _, sumEnd => fun e => e
  | _, @sumStep _ op _ next more => fun e => more.expr (binary op e next.expr)
  | _, product first more => more.expr first.expr
  | _, productEnd => fun e => e
  | _, @productStep _ op _ next more => fun e => more.expr (binary op e next.expr)
  | _, @sign _ op _ operand => unary op operand.expr
  | _, unsigned p => p.expr
  | _, pow base _ _ exponent => binary .pow base.expr exponent.expr
  | _, bare a => a.expr
  | _, integer w _ => literal (.int (Nat.ofDigitChars 10 w.text 0))
  | _, decimal w _ => literal (.float (decimalValue w.text))
  | _, name w _ => Expr.name w.text
  | _, group _ _ inner _ _ => Expr.group inner.expr

end Derivation

/-! ## Trees and what is derived -/

/-- What a nonterminal derives from a list of symbols.  A repetition goes on with a sum or product
that stands before it. -/
def Nonterminal.Derived : (n : Nonterminal) → List Symbol → n.Meaning → Prop
  | sum, ws, e => Derives .sum ws e
  | sumTail, ws, f => ∀ {front e}, Derives .sum front e → Derives .sum (front ++ ws) (f e)
  | product, ws, e => Derives .product ws e
  | productTail, ws, f =>
    ∀ {front e}, Derives .product front e → Derives .product (front ++ ws) (f e)
  | signed, ws, e => Derives .signed ws e
  | power, ws, e => Derives .power ws e
  | atom, ws, e => Derives .atom ws e

/-- The yield of a tree derives what the tree stands for. -/
theorem Derivation.derives {n : Nonterminal} (d : Derivation n) (hfits : ∀ w ∈ d.symbols, w.Fits) :
    n.Derived d.symbols d.expr := by
  induction d with
  | sum first more ihfirst ihmore =>
    obtain ⟨hfirst, hmore⟩ := List.forall_mem_append.mp hfits
    exact ihmore hmore (.product (ihfirst hfirst))
  | sumEnd =>
    intro front e he
    simpa [symbols, expr] using he
  | sumStep w hop next more ihnext ihmore =>
    obtain ⟨hnext, hmore⟩ := List.forall_mem_append.mp (List.forall_mem_cons.mp hfits).2
    intro front e he
    have hstep := ihmore hmore (.add he hop (ihnext hnext))
    simpa [symbols, expr] using hstep
  | product first more ihfirst ihmore =>
    obtain ⟨hfirst, hmore⟩ := List.forall_mem_append.mp hfits
    exact ihmore hmore (.signed (ihfirst hfirst))
  | productEnd =>
    intro front e he
    simpa [symbols, expr] using he
  | productStep w hop next more ihnext ihmore =>
    obtain ⟨hnext, hmore⟩ := List.forall_mem_append.mp (List.forall_mem_cons.mp hfits).2
    intro front e he
    have hstep := ihmore hmore (.mul he hop (ihnext hnext))
    simpa [symbols, expr] using hstep
  | sign w hop operand ih => exact .sign hop (ih (List.forall_mem_cons.mp hfits).2)
  | unsigned p ih => exact .power (ih hfits)
  | pow base w hw exponent ihbase ihexponent =>
    obtain ⟨hbase, hrest⟩ := List.forall_mem_append.mp hfits
    exact .pow (ihbase hbase) hw (ihexponent (List.forall_mem_cons.mp hrest).2)
  | bare a ih => exact .atom (ih hfits)
  | integer w hw =>
    have hfit : Whole.fits (Nat.ofDigitChars 10 w.text 0) = true := hfits w List.mem_cons_self hw
    exact .integer hw (Whole.fit?_eq_some_iff.mpr ⟨rfl, hfit⟩)
  | decimal w hw => exact .decimal hw
  | name w hw => exact .name hw
  | group l hl inner r hr ih =>
    have hinner := (List.forall_mem_append.mp (List.forall_mem_cons.mp hfits).2).1
    exact .group hl (ih hinner) hr

/-- The trees for what is derived at a level.  A sum or product has one for every way to go on. -/
def Level.Grown : Level → List Symbol → Expr → Prop
  | sum, ws, e => ∀ more : Derivation .sumTail,
    ∃ d : Derivation .sum, d.symbols = ws ++ more.symbols ∧ d.expr = more.expr e
  | product, ws, e => ∀ more : Derivation .productTail,
    ∃ d : Derivation .product, d.symbols = ws ++ more.symbols ∧ d.expr = more.expr e
  | signed, ws, e => ∃ d : Derivation .signed, d.symbols = ws ∧ d.expr = e
  | power, ws, e => ∃ d : Derivation .power, d.symbols = ws ∧ d.expr = e
  | atom, ws, e => ∃ d : Derivation .atom, d.symbols = ws ∧ d.expr = e

/-- A tree that ends where the list of symbols does. -/
theorem Level.Grown.sum {ws : List Symbol} {e : Expr} (h : Level.Grown .sum ws e) :
    ∃ d : Derivation .sum, d.symbols = ws ∧ d.expr = e := by
  obtain ⟨d, hd, he⟩ := h .sumEnd
  exact ⟨d, hd.trans (List.append_nil ws), he⟩

/-- A tree that ends where the list of symbols does. -/
theorem Level.Grown.product {ws : List Symbol} {e : Expr} (h : Level.Grown .product ws e) :
    ∃ d : Derivation .product, d.symbols = ws ∧ d.expr = e := by
  obtain ⟨d, hd, he⟩ := h .productEnd
  exact ⟨d, hd.trans (List.append_nil ws), he⟩

/-- **What is derived has a tree.** -/
theorem grown_of_derives {level : Level} {ws : List Symbol} {e : Expr} (h : Derives level ws e) :
    level.Grown ws e := by
  induction h with
  | @add ws us w op e f _ hop _ ihe ihf =>
    -- the sum in front goes on with this operator, and then as the whole sum does
    intro more
    obtain ⟨next, rfl, rfl⟩ := Level.Grown.product ihf
    obtain ⟨d, hd, he⟩ := ihe (.sumStep w hop next more)
    exact ⟨d, by simp [hd], he⟩
  | product _ ih =>
    intro more
    obtain ⟨first, rfl, rfl⟩ := Level.Grown.product ih
    exact ⟨.sum first more, rfl, rfl⟩
  | @mul ws us w op e f _ hop _ ihe ihf =>
    intro more
    obtain ⟨next, rfl, rfl⟩ := ihf
    obtain ⟨d, hd, he⟩ := ihe (.productStep w hop next more)
    exact ⟨d, by simp [hd], he⟩
  | signed _ ih =>
    intro more
    obtain ⟨first, rfl, rfl⟩ := ih
    exact ⟨.product first more, rfl, rfl⟩
  | @sign _ w _ _ hop _ ih =>
    obtain ⟨operand, rfl, rfl⟩ := ih
    exact ⟨.sign w hop operand, rfl, rfl⟩
  | power _ ih =>
    obtain ⟨p, rfl, rfl⟩ := ih
    exact ⟨.unsigned p, rfl, rfl⟩
  | @pow _ _ w _ _ _ hw _ ihe ihf =>
    obtain ⟨base, rfl, rfl⟩ := ihe
    obtain ⟨exponent, rfl, rfl⟩ := ihf
    exact ⟨.pow base w hw exponent, rfl, rfl⟩
  | atom _ ih =>
    obtain ⟨a, rfl, rfl⟩ := ih
    exact ⟨.bare a, rfl, rfl⟩
  | @group _ l r _ hl _ hr ih =>
    obtain ⟨inner, rfl, rfl⟩ := Level.Grown.sum ih
    exact ⟨.group l hl inner r hr, rfl, rfl⟩
  | @integer w n hw hn =>
    obtain ⟨rfl, -⟩ := Whole.fit?_eq_some_iff.mp hn
    exact ⟨.integer w hw, rfl, rfl⟩
  | @decimal w hw => exact ⟨.decimal w hw, rfl, rfl⟩
  | @name w hw => exact ⟨.name w hw, rfl, rfl⟩

/-- A symbol that is no integer fits. -/
theorem fits_of_token {w : Symbol} {t : Token} (h : w.token = t) (ht : t ≠ .integer) : w.Fits :=
  fun hw => absurd (h.symm.trans hw) ht

/-- Integers outside of the range are not derived. -/
theorem forall_fits_of_derives {level : Level} {ws : List Symbol} {e : Expr}
    (h : Derives level ws e) : ∀ w ∈ ws, w.Fits := by
  induction h with
  | @add _ _ w _ _ _ _ hop _ ihe ihf =>
    have hw : w.Fits := fun hw => by simp [hw, sumOp?] at hop
    exact List.forall_mem_append.mpr ⟨ihe, List.forall_mem_cons.mpr ⟨hw, ihf⟩⟩
  | product _ ih => exact ih
  | @mul _ _ w _ _ _ _ hop _ ihe ihf =>
    have hw : w.Fits := fun hw => by simp [hw, productOp?] at hop
    exact List.forall_mem_append.mpr ⟨ihe, List.forall_mem_cons.mpr ⟨hw, ihf⟩⟩
  | signed _ ih => exact ih
  | @sign _ w _ _ hop _ ih =>
    have hw : w.Fits := fun hw => by simp [hw, sign?] at hop
    exact List.forall_mem_cons.mpr ⟨hw, ih⟩
  | power _ ih => exact ih
  | pow _ hw _ ihe ihf =>
    have hw := fits_of_token hw (by decide)
    exact List.forall_mem_append.mpr ⟨ihe, List.forall_mem_cons.mpr ⟨hw, ihf⟩⟩
  | atom _ ih => exact ih
  | group hl _ hr ih =>
    have hr := List.forall_mem_singleton.mpr (fits_of_token hr (by decide))
    exact List.forall_mem_cons.mpr
      ⟨fits_of_token hl (by decide), List.forall_mem_append.mpr ⟨ih, hr⟩⟩
  | integer _ hn =>
    exact List.forall_mem_singleton.mpr fun _ => (Whole.fit?_eq_some_iff.mp hn).2
  | decimal hw => exact List.forall_mem_singleton.mpr (fits_of_token hw (by decide))
  | name hw => exact List.forall_mem_singleton.mpr (fits_of_token hw (by decide))

/-! ## One tree -/

/-- Whether a token goes on with what a nonterminal derives. -/
def Nonterminal.continues : Nonterminal → Token → Bool
  | sum, t | sumTail, t => (sumOp? t).isSome || (productOp? t).isSome || t == .starStar
  | product, t | productTail, t => (productOp? t).isSome || t == .starStar
  | signed, t | power, t => t == .starStar
  | atom, _ => false

/-- A list of symbols does not start with one that goes on with a nonterminal. -/
def Nonterminal.Stops (n : Nonterminal) (rest : List Symbol) : Prop :=
  ∀ w ∈ rest.head?, n.continues w.token = false

@[simp] theorem Nonterminal.stops_nil (n : Nonterminal) : n.Stops [] := fun _ hw => nomatch hw

@[simp] theorem Nonterminal.stops_cons {n : Nonterminal} {w : Symbol} {rest : List Symbol} :
    n.Stops (w :: rest) ↔ n.continues w.token = false := by
  simp [Nonterminal.Stops]

@[simp] theorem Nonterminal.stops_atom (rest : List Symbol) : Nonterminal.atom.Stops rest :=
  fun _ _ => rfl

/-- A sum ends before a closing parenthesis. -/
theorem Nonterminal.stops_rightParen {r : Symbol} (hr : r.token = .rightParen)
    {rest : List Symbol} : Nonterminal.sum.Stops (r :: rest) := by
  simp [hr, Nonterminal.continues, sumOp?, productOp?]

theorem Nonterminal.Stops.product {rest : List Symbol} (h : Nonterminal.sum.Stops rest) :
    Nonterminal.product.Stops rest := by
  intro w hw
  have hw := h w hw
  simp only [continues, Bool.or_eq_false_iff] at hw ⊢
  exact ⟨hw.1.2, hw.2⟩

theorem Nonterminal.Stops.signed {rest : List Symbol} (h : Nonterminal.product.Stops rest) :
    Nonterminal.signed.Stops rest := by
  intro w hw
  have hw := h w hw
  simp only [continues, Bool.or_eq_false_iff] at hw ⊢
  exact hw.2

/-- What comes behind a product of a sum does not go on with the product. -/
theorem Derivation.stops_sumTail {rest : List Symbol} (hrest : Nonterminal.sum.Stops rest)
    (more : Derivation .sumTail) : Nonterminal.product.Stops (more.symbols ++ rest) := by
  cases more with
  | sumEnd => exact hrest.product
  | sumStep w hop next more =>
    have hw := continues_of_sumOp? hop
    have hproduct := productOp?_eq_none hw
    simp only [Level.continues, Bool.or_eq_false_iff] at hw
    exact Nonterminal.stops_cons.mpr (by simp [Nonterminal.continues, hproduct, hw])

/-- What comes behind an operand of a product does not go on with the operand. -/
theorem Derivation.stops_productTail {rest : List Symbol} (hrest : Nonterminal.product.Stops rest)
    (more : Derivation .productTail) : Nonterminal.signed.Stops (more.symbols ++ rest) := by
  cases more with
  | productEnd => exact hrest.signed
  | productStep w hop next more =>
    exact Nonterminal.stops_cons.mpr (continues_of_productOp? hop)

/-- Atoms do not begin with a sign. -/
theorem Derivation.exists_cons_of_atom (a : Derivation .atom) :
    ∃ w us, a.symbols = w :: us ∧ sign? w.token = none := by
  cases a with
  | integer w hw => exact ⟨w, _, rfl, by rw [hw]; rfl⟩
  | decimal w hw => exact ⟨w, _, rfl, by rw [hw]; rfl⟩
  | name w hw => exact ⟨w, _, rfl, by rw [hw]; rfl⟩
  | group l hl inner r hr => exact ⟨l, _, rfl, by rw [hl]; rfl⟩

/-- Powers do not begin with a sign. -/
theorem Derivation.exists_cons_of_power (p : Derivation .power) :
    ∃ w us, p.symbols = w :: us ∧ sign? w.token = none := by
  cases p with
  | pow base w hw exponent =>
    obtain ⟨v, us, hbase, hv⟩ := base.exists_cons_of_atom
    exact ⟨v, us ++ w :: exponent.symbols, by simp [hbase], hv⟩
  | bare a => exact a.exists_cons_of_atom

/-- A power is no operand with a sign. -/
theorem Derivation.sign_ne_power {p : Derivation .power} {w : Symbol} {op : UnaryOp}
    (hop : sign? w.token = some op) {us rest : List Symbol} : w :: us ≠ p.symbols ++ rest := by
  intro h
  obtain ⟨v, vs, hp, hv⟩ := p.exists_cons_of_power
  rw [hp] at h
  obtain rfl := (List.cons.inj h).1
  simp [hv] at hop

/-- The first symbols of equal lists have the same token. -/
theorem token_eq_of_cons_eq {w v : Symbol} {ws vs : List Symbol} (h : w :: ws = v :: vs)
    {t u : Token} (hw : w.token = t) (hv : v.token = u) : t = u := by
  obtain rfl := (List.cons.inj h).1
  exact hw.symm.trans hv

/-- No other tree of the nonterminal is at the start of a list of symbols that starts with the yield
of this one, among those that end where the nonterminal is not gone on with. -/
def Derivation.Only {n : Nonterminal} (d : Derivation n) : Prop :=
  ∀ ⦃d' : Derivation n⦄ ⦃rest rest' : List Symbol⦄, n.Stops rest → n.Stops rest' →
    d.symbols ++ rest = d'.symbols ++ rest' → d = d' ∧ rest = rest'

namespace Derivation

/-! A rule for each constructor: a tree is the only one if its parts are. -/

section Rules

variable {w : Symbol}

theorem Only.sum {first : Derivation .product} {more : Derivation .sumTail} (hfirst : first.Only)
    (hmore : more.Only) : (Derivation.sum first more).Only := by
  intro d' rest rest' hrest hrest' h
  cases d' with
  | sum first' more' =>
    simp only [symbols_sum, List.append_assoc] at h
    obtain ⟨rfl, htail⟩ := hfirst (stops_sumTail hrest more) (stops_sumTail hrest' more') h
    obtain ⟨rfl, rfl⟩ := hmore hrest hrest' htail
    exact ⟨rfl, rfl⟩

theorem only_sumEnd : sumEnd.Only := by
  intro d' rest rest' hrest hrest' h
  cases d' with
  | sumEnd => exact ⟨rfl, h⟩
  | sumStep w hop next more =>
    obtain rfl : rest = w :: (next.symbols ++ more.symbols ++ rest') := h
    exact absurd (Nonterminal.stops_cons.mp hrest) (by simp [Nonterminal.continues, hop])

theorem Only.sumStep {op : BinaryOp} (hop : sumOp? w.token = some op) {next : Derivation .product}
    {more : Derivation .sumTail} (hnext : next.Only) (hmore : more.Only) :
    (Derivation.sumStep w hop next more).Only := by
  intro d' rest rest' hrest hrest' h
  cases d' with
  | sumEnd =>
    obtain rfl : w :: (next.symbols ++ more.symbols ++ rest) = rest' := h
    exact absurd (Nonterminal.stops_cons.mp hrest') (by simp [Nonterminal.continues, hop])
  | sumStep w' hop' next' more' =>
    simp only [symbols_sumStep, List.cons_append, List.append_assoc, List.cons.injEq] at h
    obtain ⟨rfl, h⟩ := h
    obtain rfl := Option.some.inj (hop.symm.trans hop')
    obtain ⟨rfl, htail⟩ := hnext (stops_sumTail hrest more) (stops_sumTail hrest' more') h
    obtain ⟨rfl, rfl⟩ := hmore hrest hrest' htail
    exact ⟨rfl, rfl⟩

theorem Only.product {first : Derivation .signed} {more : Derivation .productTail}
    (hfirst : first.Only) (hmore : more.Only) : (Derivation.product first more).Only := by
  intro d' rest rest' hrest hrest' h
  cases d' with
  | product first' more' =>
    simp only [symbols_product, List.append_assoc] at h
    obtain ⟨rfl, htail⟩ := hfirst (stops_productTail hrest more) (stops_productTail hrest' more') h
    obtain ⟨rfl, rfl⟩ := hmore hrest hrest' htail
    exact ⟨rfl, rfl⟩

theorem only_productEnd : productEnd.Only := by
  intro d' rest rest' hrest hrest' h
  cases d' with
  | productEnd => exact ⟨rfl, h⟩
  | productStep w hop next more =>
    obtain rfl : rest = w :: (next.symbols ++ more.symbols ++ rest') := h
    exact absurd (Nonterminal.stops_cons.mp hrest) (by simp [Nonterminal.continues, hop])

theorem Only.productStep {op : BinaryOp} (hop : productOp? w.token = some op)
    {next : Derivation .signed} {more : Derivation .productTail} (hnext : next.Only)
    (hmore : more.Only) : (Derivation.productStep w hop next more).Only := by
  intro d' rest rest' hrest hrest' h
  cases d' with
  | productEnd =>
    obtain rfl : w :: (next.symbols ++ more.symbols ++ rest) = rest' := h
    exact absurd (Nonterminal.stops_cons.mp hrest') (by simp [Nonterminal.continues, hop])
  | productStep w' hop' next' more' =>
    simp only [symbols_productStep, List.cons_append, List.append_assoc, List.cons.injEq] at h
    obtain ⟨rfl, h⟩ := h
    obtain rfl := Option.some.inj (hop.symm.trans hop')
    obtain ⟨rfl, htail⟩ := hnext (stops_productTail hrest more) (stops_productTail hrest' more') h
    obtain ⟨rfl, rfl⟩ := hmore hrest hrest' htail
    exact ⟨rfl, rfl⟩

theorem Only.sign {op : UnaryOp} (hop : sign? w.token = some op) {operand : Derivation .signed}
    (hoperand : operand.Only) : (Derivation.sign w hop operand).Only := by
  intro d' rest rest' hrest hrest' h
  cases d' with
  | sign w' hop' operand' =>
    simp only [symbols_sign, List.cons_append, List.cons.injEq] at h
    obtain ⟨rfl, h⟩ := h
    obtain rfl := Option.some.inj (hop.symm.trans hop')
    obtain ⟨rfl, rfl⟩ := hoperand hrest hrest' h
    exact ⟨rfl, rfl⟩
  | unsigned p => exact absurd h (sign_ne_power hop)

theorem Only.unsigned {p : Derivation .power} (hp : p.Only) : (Derivation.unsigned p).Only := by
  intro d' rest rest' hrest hrest' h
  cases d' with
  | sign w hop operand => exact absurd h.symm (sign_ne_power hop)
  | unsigned p' =>
    obtain ⟨rfl, rfl⟩ := hp hrest hrest' h
    exact ⟨rfl, rfl⟩

/-- An atom that two powers begin with, whatever comes behind it: nothing goes on with an atom. -/
theorem Only.base {base base' : Derivation .atom} (hbase : base.Only) {rest rest' : List Symbol}
    (h : base.symbols ++ rest = base'.symbols ++ rest') : base = base' ∧ rest = rest' :=
  hbase (Nonterminal.stops_atom _) (Nonterminal.stops_atom _) h

theorem Only.pow (hw : w.token = .starStar) {base : Derivation .atom}
    {exponent : Derivation .signed} (hbase : base.Only) (hexponent : exponent.Only) :
    (Derivation.pow base w hw exponent).Only := by
  intro d' rest rest' hrest hrest' h
  cases d' with
  | pow base' w' hw' exponent' =>
    simp only [symbols_pow, List.append_assoc, List.cons_append] at h
    obtain ⟨rfl, htail⟩ := hbase.base h
    obtain ⟨rfl, hbehind⟩ := List.cons.inj htail
    obtain ⟨rfl, rfl⟩ := hexponent hrest hrest' hbehind
    exact ⟨rfl, rfl⟩
  | bare a =>
    simp only [symbols_pow, List.append_assoc, List.cons_append] at h
    obtain ⟨-, rfl⟩ := hbase.base h
    exact absurd (Nonterminal.stops_cons.mp hrest') (by simp [Nonterminal.continues, hw])

theorem Only.bare {a : Derivation .atom} (ha : a.Only) : (Derivation.bare a).Only := by
  intro d' rest rest' hrest hrest' h
  cases d' with
  | pow base w hw exponent =>
    simp only [symbols_pow, List.append_assoc, List.cons_append] at h
    obtain ⟨-, rfl⟩ := ha.base h
    exact absurd (Nonterminal.stops_cons.mp hrest) (by simp [Nonterminal.continues, hw])
  | bare a' =>
    obtain ⟨rfl, rfl⟩ := ha.base h
    exact ⟨rfl, rfl⟩

theorem only_integer (hw : w.token = .integer) : (integer w hw).Only := by
  intro d' rest rest' _ _ h
  cases d' with
  | integer w' hw' =>
    obtain ⟨rfl, rfl⟩ := List.cons.inj h
    exact ⟨rfl, rfl⟩
  | decimal w' hw' => exact nomatch token_eq_of_cons_eq h hw hw'
  | name w' hw' => exact nomatch token_eq_of_cons_eq h hw hw'
  | group l hl inner r hr => exact nomatch token_eq_of_cons_eq h hw hl

theorem only_decimal (hw : w.token = .decimal) : (decimal w hw).Only := by
  intro d' rest rest' _ _ h
  cases d' with
  | integer w' hw' => exact nomatch token_eq_of_cons_eq h hw hw'
  | decimal w' hw' =>
    obtain ⟨rfl, rfl⟩ := List.cons.inj h
    exact ⟨rfl, rfl⟩
  | name w' hw' => exact nomatch token_eq_of_cons_eq h hw hw'
  | group l hl inner r hr => exact nomatch token_eq_of_cons_eq h hw hl

theorem only_name (hw : w.token = .name) : (name w hw).Only := by
  intro d' rest rest' _ _ h
  cases d' with
  | integer w' hw' => exact nomatch token_eq_of_cons_eq h hw hw'
  | decimal w' hw' => exact nomatch token_eq_of_cons_eq h hw hw'
  | name w' hw' =>
    obtain ⟨rfl, rfl⟩ := List.cons.inj h
    exact ⟨rfl, rfl⟩
  | group l hl inner r hr => exact nomatch token_eq_of_cons_eq h hw hl

theorem Only.group {l r : Symbol} (hl : l.token = .leftParen) (hr : r.token = .rightParen)
    {inner : Derivation .sum} (hinner : inner.Only) : (Derivation.group l hl inner r hr).Only := by
  intro d' rest rest' _ _ h
  cases d' with
  | integer w' hw' => exact nomatch token_eq_of_cons_eq h hl hw'
  | decimal w' hw' => exact nomatch token_eq_of_cons_eq h hl hw'
  | name w' hw' => exact nomatch token_eq_of_cons_eq h hl hw'
  | group l' hl' inner' r' hr' =>
    simp only [symbols_group, List.cons_append, List.append_assoc, List.cons.injEq] at h
    obtain ⟨rfl, h⟩ := h
    obtain ⟨rfl, htail⟩ :=
      hinner (Nonterminal.stops_rightParen hr) (Nonterminal.stops_rightParen hr') h
    obtain ⟨rfl, rfl⟩ := List.cons.inj htail
    exact ⟨rfl, rfl⟩

end Rules

/-- **A list of symbols starts with the yield of one tree at most**, among those that end where the
nonterminal is not gone on with. -/
theorem only {n : Nonterminal} (d : Derivation n) : d.Only := by
  induction d with
  | sum _ _ hfirst hmore => exact hfirst.sum hmore
  | sumEnd => exact only_sumEnd
  | sumStep _ hop _ _ hnext hmore => exact hnext.sumStep hop hmore
  | product _ _ hfirst hmore => exact hfirst.product hmore
  | productEnd => exact only_productEnd
  | productStep _ hop _ _ hnext hmore => exact hnext.productStep hop hmore
  | sign _ hop _ hoperand => exact hoperand.sign hop
  | unsigned _ hp => exact hp.unsigned
  | pow _ _ hw _ hbase hexponent => exact hbase.pow hw hexponent
  | bare _ ha => exact ha.bare
  | integer _ hw => exact only_integer hw
  | decimal _ hw => exact only_decimal hw
  | name _ hw => exact only_name hw
  | group _ hl _ _ hr hinner => exact hinner.group hl hr

end Derivation

/-- **A list of symbols is the yield of one tree at most.** -/
theorem Derivation.eq_of_symbols_eq {n : Nonterminal} {d d' : Derivation n}
    (h : d.symbols = d'.symbols) : d = d' :=
  (d.only n.stops_nil n.stops_nil (congrArg (· ++ []) h)).1

/-! ## What is read -/

/-- **Lexemes are an expression exactly if they are the yield of a tree and their integers are in
the range**, and then there is one such tree, and the expression is what it stands for. -/
theorem ofLexemes_accepts_grammar (stop : Nat) (ls : List Lexeme) :
    ((∃ e, ofLexemes stop ls = .ok e) ↔
      (∃ d : Derivation .sum, d.symbols = ls.map Lexeme.symbol) ∧ ∀ l ∈ ls, l.symbol.Fits) ∧
    ∀ e, ofLexemes stop ls = .ok e → ∃ d : Derivation .sum,
      d.symbols = ls.map Lexeme.symbol ∧ d.expr = e ∧
        ∀ d' : Derivation .sum, d'.symbols = ls.map Lexeme.symbol → d' = d := by
  refine ⟨⟨?_, ?_⟩, ?_⟩
  · rintro ⟨e, he⟩
    have he := ofLexemes_eq_ok_iff.mp he
    obtain ⟨d, hd, -⟩ := Level.Grown.sum (grown_of_derives he)
    exact ⟨⟨d, hd⟩, List.forall_mem_map.mp (forall_fits_of_derives he)⟩
  · rintro ⟨⟨d, hd⟩, hfits⟩
    have he : Derives .sum d.symbols d.expr :=
      d.derives (by rw [hd]; exact List.forall_mem_map.mpr hfits)
    rw [hd] at he
    exact ⟨d.expr, ofLexemes_eq_ok_iff.mpr he⟩
  · intro e he
    obtain ⟨d, hd, rfl⟩ := Level.Grown.sum (grown_of_derives (ofLexemes_eq_ok_iff.mp he))
    exact ⟨d, hd, rfl, fun d' hd' => Derivation.eq_of_symbols_eq (hd'.trans hd.symm)⟩

/-- A sign applies to the whole power behind it, powers group to the right and differences to the
left. -/
example : parse "-a ** b ** c - d - e".toList =
    .ok (binary .sub
      (binary .sub
        (unary .minus (binary .pow (name ['a']) (binary .pow (name ['b']) (name ['c']))))
        (name ['d']))
      (name ['e'])) := by cbv

end Expr

end DiceNotation
