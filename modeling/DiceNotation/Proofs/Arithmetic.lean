import Mathlib
import DiceNotation.Proofs.Expr.Spliceable
import DiceNotation.Proofs.Splices
import DiceNotation.Roller.Scripted

/-!
# Arithmetic in sessions

A text can be evaluated as an expression.  It can also be evaluated in a session, which rolls
the groups of the text, puts the results in their place as digits and folds what is left.  The
two agree if the digits of the groups can stand for them and the signs stand directly before
digits or groups.

## The induction

It is over the derivation of the expression.  Each level of the grammar derives the symbols of a
text, and after the groups were replaced it derives the symbols of what is left (`Comes`).  Only
a power whose base is a negative group is not a power any more: it is a minus before the power
of the opposite base.

* `Comes`, `Leaves`: what is left of a text.
* `session_evaluates_expression`.
-/

namespace DiceNotation

open Text NumberRun DiceNotation.Expr

/-! ## What is left of a text -/

/-- Whether a level is that of powers and atoms. -/
def Expr.Level.isOperand : Level → Bool
  | power => true
  | atom => true
  | _ => false

/-- The text `t` spells the expression `e` of the value `v`, and `u` is left of it, with the
symbols `us`. -/
structure Comes (level : Level) (e : Expr) (v : Int) (t u : Text) (us : List Symbol) : Prop where
  spliced : Spliced e.nesting t u
  strung : Strung false u us
  means : Means level us v ∨ level.isOperand = true ∧ e.leadsNegative = true ∧
    ∃ us', us = ⟨.minus, ['-']⟩ :: us' ∧ Means level us' (-v)
  start : startsOperand t = true → e.leadsNegative = false → ∃ c ∈ u.head?, c.isDigit = true

variable {level : Level} {e : Expr} {v : Int} {t u : Text} {us : List Symbol}

theorem Comes.means_of_not_operand (h : Comes level e v t u us) (hlevel : level.isOperand = false) :
    Means level us v := by
  rcases h.means with hmeans | ⟨hoperand, -⟩
  · exact hmeans
  · exact nomatch hlevel.symm.trans hoperand

theorem isSmooth_of_isSpace {b : Text} (hb : ∀ c ∈ b, Token.isSpace c = true) :
    ∀ c ∈ b, isSmooth c = true := fun c hc =>
  forall_of_isSpace (p := fun c => isSmooth c = true) (by decide) (hb c hc)

theorem isSmooth_of_joins {token : Token} {u : Text} (hjoins : token.joins = true)
    (hu : token.spelling? = some u) : ∀ c ∈ u, isSmooth c = true :=
  forall_of_joins (p := fun u => ∀ c ∈ u, isSmooth c = true) (by decide) hjoins hu

theorem spelling?_of_joins {w : Symbol} (hw : w.Spelled) (hjoins : w.token.joins = true) :
    w.token.spelling? = some w.text := by
  obtain ⟨token, text⟩ := w
  cases token with
  | plus => exact congrArg some (hw.fixed _ rfl).symm
  | minus => exact congrArg some (hw.fixed _ rfl).symm
  | star => exact congrArg some (hw.fixed _ rfl).symm
  | starStar => exact congrArg some (hw.fixed _ rfl).symm
  | slash => exact congrArg some (hw.fixed _ rfl).symm
  | _ => exact nomatch hjoins

theorem strung_spaces {b : Text} (hb : ∀ c ∈ b, Token.isSpace c = true) : Strung true b [] := by
  have happend := Strung.stop.spaces_append hb
  rw [List.append_nil] at happend
  exact happend

/-- Two operands with an operator between them. -/
theorem comes_binary {la lb : Level} {l r : Expr} {x y : Int} {a a' b b' sp : Text}
    {us us' : List Symbol} {w : Symbol} {op : BinaryOp} (ha : Comes la l x a a' us)
    (hb : Comes lb r y b b' us') (hne : a ≠ []) (hsp : ∀ c ∈ sp, Token.isSpace c = true)
    (hjoins : w.token.joins = true) (hw : w.token.spelling? = some w.text)
    (hmeans : Means level (us ++ w :: us') v ∨ level.isOperand = true ∧ l.leadsNegative = true ∧
      ∃ vs, us ++ w :: us' = ⟨.minus, ['-']⟩ :: vs ∧ Means level vs (-v)) :
    Comes level (binary op l r) v (a ++ (sp ++ (w.text ++ b))) (a' ++ (sp ++ (w.text ++ b')))
      (us ++ w :: us') := by
  refine ⟨?_, ?_, hmeans, ?_⟩
  · have hright := (Spliced.plain (isSmooth_of_joins hjoins hw)).append
      (hb.spliced.mono (Nat.le_max_right l.nesting r.nesting))
    exact (ha.spliced.mono (Nat.le_max_left _ _)).append
      ((Spliced.plain (isSmooth_of_isSpace hsp)).append hright)
  · exact ha.strung.append ((Strung.operator hjoins hw hb.strung).spaces_append hsp)
  · intro hstart hlead
    obtain ⟨c, hc, hdigit⟩ := ha.start (startsOperand_of_append hne hstart) hlead
    refine ⟨c, ?_, hdigit⟩
    obtain ⟨rest, rfl⟩ := List.head?_eq_some_iff.mp hc
    rfl

/-- A sign in front of digits. -/
theorem strung_sign {token : Token} {w : Text} (htoken : token = .plus ∨ token = .minus)
    (hw : token.spelling? = some w) (h : Strung false u us) (hu : ∃ c ∈ u.head?, c.isDigit = true) :
    Strung false (w ++ u) (⟨token, w⟩ :: us) := by
  obtain ⟨d, hd, hdigit⟩ := hu
  cases h with
  | numeral hn h => exact .sign htoken hw hn h
  | space hc _ =>
    cases hd
    have hno := forall_of_isSpace (p := fun c => c.isDigit = false) (by decide) hc
    exact nomatch hno.symm.trans hdigit
  | sign htoken' hu' _ _ =>
    rcases htoken' with rfl | rfl
    · cases hu'; cases hd; exact nomatch hdigit
    · cases hu'; cases hd; exact nomatch hdigit

/-- A numeral between spaces stays what it is. -/
theorem comes_numeral {w b rest : Text} (hw : Numeral w)
    (hn : Whole.fit? (Nat.ofDigitChars 10 w 0) = some v) (hb : ∀ c ∈ b, Token.isSpace c = true)
    (hrest : ∀ c ∈ rest, Token.isSpace c = true) :
    Comes .atom (literal (.int v)) v (b ++ (w ++ rest)) (b ++ (w ++ rest)) [⟨.integer, w⟩] := by
  refine ⟨.plain fun c hc => ?_, ?_, Or.inl (means_numeral hn), fun hstart _ => ?_⟩
  · rcases List.mem_append.mp hc with hc | hc
    · exact isSmooth_of_isSpace hb c hc
    · rcases List.mem_append.mp hc with hc | hc
      · exact hw.forall_mem (p := fun c => isSmooth c = true) (by decide) c hc
      · exact isSmooth_of_isSpace hrest c hc
  · exact (Strung.numeral hw (strung_spaces hrest)).spaces_append hb
  · obtain rfl := eq_nil_of_startsOperand hb hstart
    obtain ⟨c, w, rfl⟩ := List.exists_cons_of_ne_nil hw.ne_nil
    exact ⟨c, rfl, hw.isDigit c List.mem_cons_self⟩

theorem means_renderNat {n : Nat} (h : Whole.fits n = true) :
    Means .atom [⟨.integer, Whole.renderNat n⟩] n := by
  have hdigits : Nat.ofDigitChars 10 (Whole.renderNat n) 0 = n := by simp [Whole.renderNat]
  refine means_numeral ?_
  rw [hdigits]
  exact Whole.fit?_eq_some_iff.mpr ⟨rfl, h⟩

/-- **A run of operands and operators folds to what spells its value.** -/
theorem exists_spells (h : Strung false u us) (hmeans : Means .sum us v)
    (hv : Whole.fits v = true) :
    ∃ x, foldNumbers u = .ok x ∧ Spells x v := by
  have hevaluate : evaluate Bindings.none (us.flatMap Symbol.text) = .ok (.int v) := by
    refine evaluate_of_means ?_
    rw [h.dense.symbols_eq]
    exact hmeans
  obtain ⟨x, hx, ⟨rfl, hnumeral⟩ | rfl⟩ := h.foldNumbers_eq hevaluate
  · exact ⟨_, hx, Or.inl hnumeral, read?_of_evaluate hnumeral hevaluate⟩
  · exact ⟨_, hx, spells_render hv⟩

/-- A group between spaces becomes the digits of its value. -/
theorem comes_group {inner b rest : Text} (h : Comes .sum e v inner u us) (hne : inner ≠ [])
    (hv : Whole.fits v = true) (hlowest : v ≠ Whole.lowest)
    (heval : e.eval Bindings.none = .ok (.int v)) (hb : ∀ c ∈ b, Token.isSpace c = true)
    (hrest : ∀ c ∈ rest, Token.isSpace c = true) :
    ∃ us', Comes .atom (group e) v (b ++ '(' :: (inner ++ ')' :: rest))
      (b ++ (Whole.render v ++ rest)) us' := by
  obtain ⟨x, hx, hspells⟩ := exists_spells h.strung (h.means_of_not_operand rfl) hv
  have hspliced : Spliced (group e).nesting (b ++ '(' :: (inner ++ ')' :: rest))
      (b ++ (Whole.render v ++ rest)) :=
    .group (isSmooth_of_isSpace hb) h.spliced hne hx hspells (.plain (isSmooth_of_isSpace hrest))
  have hlead : (group e).leadsNegative = decide (v < 0) := by
    show e.whole?.any _ = _
    rw [whole?_of_eval heval]
    rfl
  have htail := strung_spaces hrest
  have hfits := Whole.fits_iff.mp hv
  cases v with
  | ofNat n =>
    have hw := numeral_renderNat n
    refine ⟨_, hspliced, (Strung.numeral hw htail).spaces_append hb,
      Or.inl (means_renderNat (n := n) hv), fun hstart _ => ?_⟩
    obtain rfl := eq_nil_of_startsOperand hb hstart
    obtain ⟨c, w, hcons⟩ := List.exists_cons_of_ne_nil hw.ne_nil
    refine ⟨c, ?_, hw.isDigit c (hcons ▸ List.mem_cons_self)⟩
    show c ∈ (Whole.renderNat n ++ rest).head?
    rw [hcons]
    rfl
  | negSucc n =>
    have hw := numeral_renderNat (n + 1)
    have hnegative : Int.negSucc n < 0 := Int.negSucc_lt_zero n
    have hopposite : Whole.fits ((n + 1 : Nat) : Int) = true := by
      refine Whole.fits_iff.mpr ?_
      unfold Whole.lowest Whole.highest at *
      omega
    rw [decide_eq_true hnegative] at hlead
    refine ⟨_, hspliced, (Strung.sign (Or.inr rfl) rfl hw htail).spaces_append hb,
      Or.inr ⟨rfl, hlead, _, rfl, ?_⟩, fun _ hno => ?_⟩
    · rw [Int.neg_negSucc]
      exact means_renderNat hopposite
    · exact nomatch hlead.symm.trans hno

/-! ## The induction -/

theorem joins_of_sumOp? {token : Token} {op : BinaryOp} (h : sumOp? token = some op) :
    token.joins = true := by
  cases token with
  | plus => rfl
  | minus => rfl
  | _ => exact nomatch h

theorem joins_of_productOp? {token : Token} {op : BinaryOp} (h : productOp? token = some op) :
    token.joins = true := by
  cases token with
  | star => rfl
  | slash => rfl
  | _ => exact nomatch h

theorem sign_of_sign? {token : Token} {op : UnaryOp} (h : sign? token = some op) :
    token = .plus ∨ token = .minus := by
  cases token with
  | plus => exact Or.inl rfl
  | minus => exact Or.inr rfl
  | _ => exact nomatch h

/-- Where the symbols of a text are two lists with one symbol between them. -/
theorem exists_of_symbols_between {ws us : List Symbol} {w : Symbol}
    (h : symbols t = ws ++ w :: us) :
    ∃ a sp b, t = a ++ (sp ++ (w.text ++ b)) ∧ symbols a = ws ∧ symbols b = us ∧
      (∀ c ∈ sp, Token.isSpace c = true) ∧ w.Spelled := by
  obtain ⟨a, rest, rfl, ha, hrest⟩ := exists_of_symbols_eq_append h
  obtain ⟨sp, b, rfl, hsp, hb, hw, -⟩ := exists_of_symbols_eq_cons hrest
  exact ⟨a, sp, b, rfl, ha, hb, hsp, hw⟩

theorem ne_nil_of_symbols {ws : List Symbol} (hws : ws ≠ []) (h : symbols t = ws) : t ≠ [] := by
  rintro rfl
  exact hws (h.symm.trans symbols_nil)

/-- Spaces after a text. -/
theorem Comes.spaces {sp : Text} (h : Comes level e v t u us) (hne : t ≠ [])
    (hsp : ∀ c ∈ sp, Token.isSpace c = true) : Comes level e v (t ++ sp) (u ++ sp) us := by
  refine ⟨h.spliced.append (.plain (isSmooth_of_isSpace hsp)), ?_, h.means, fun hstart hlead => ?_⟩
  · have happend := h.strung.append (strung_spaces hsp)
    rw [List.append_nil] at happend
    exact happend
  · obtain ⟨c, hc, hdigit⟩ := h.start (startsOperand_of_append hne hstart) hlead
    refine ⟨c, ?_, hdigit⟩
    obtain ⟨rest, rfl⟩ := List.head?_eq_some_iff.mp hc
    rfl

/-- The same text at a level above. -/
theorem Comes.lift {la lb : Level} (h : Comes la e v t u us) (hmeans : Means lb us v) :
    Comes lb e v t u us := ⟨h.spliced, h.strung, Or.inl hmeans, h.start⟩

theorem fits_neg {n : Int} (h : Whole.fits n = true) (hlowest : n ≠ Whole.lowest) :
    Whole.fits (-n) = true := by
  rw [Whole.fits_iff] at h ⊢
  unfold Whole.lowest Whole.highest at *
  omega

/-- A power, after its base and its exponent. -/
theorem means_pow {l : Expr} {x y : Int} {us' : List Symbol} {w : Symbol} {a a' : Text}
    (ha : Comes .atom l x a a' us) (hb : Means .signed us' y) (hw : w.token = .starStar)
    (hpow : BinaryOp.pow.apply (.int x) (.int y) = .ok (.int v)) (hv : Whole.fits v = true)
    (hneg : l.leadsNegative = true → y % 2 = 1 ∧ v ≠ Whole.lowest) :
    Means .power (us ++ w :: us') v ∨ Level.power.isOperand = true ∧ l.leadsNegative = true ∧
      ∃ vs, us ++ w :: us' = ⟨.minus, ['-']⟩ :: vs ∧ Means .power vs (-v) := by
  obtain ⟨f, hf, hfv⟩ := hb
  rcases ha.means with ⟨e, he, hev⟩ | ⟨-, hlead, us, rfl, e, he, hev⟩
  · exact Or.inl ⟨_, .pow he hw hf, eval_binary hev hfv hpow⟩
  · obtain ⟨hodd, hlowest⟩ := hneg hlead
    have hopposite := Number.pow_neg hpow hodd (fits_neg hv hlowest)
    exact Or.inr ⟨rfl, hlead, _, rfl, _, .pow he hw hf, eval_binary hev hfv hopposite⟩

/-- An operand after its sign. -/
theorem comes_sign {w : Symbol} {op : UnaryOp} {x : Int} {b rest : Text}
    (h : Comes .signed e x rest u us) (hop : sign? w.token = some op) (hw : w.Spelled)
    (hb : ∀ c ∈ b, Token.isSpace c = true) (hstart : startsOperand rest = true)
    (hlead : e.leadsNegative = false) (happly : op.apply (.int x) = .ok (.int v)) :
    Comes .signed (unary op e) v (b ++ (w.text ++ rest)) (b ++ (w.text ++ u)) (w :: us) := by
  have htoken := sign_of_sign? hop
  have hjoins := joins_of_sign htoken
  have hspelling := spelling?_of_joins hw hjoins
  obtain ⟨f, hf, hfx⟩ := h.means_of_not_operand rfl
  refine ⟨?_, ?_, Or.inl ⟨_, .sign hop hf, eval_unary hfx happly⟩, fun hno _ => ?_⟩
  · exact (Spliced.plain (isSmooth_of_isSpace hb)).append
      ((Spliced.plain (isSmooth_of_joins hjoins hspelling)).append h.spliced)
  · exact (strung_sign htoken hspelling h.strung (h.start hstart hlead)).spaces_append hb
  · obtain rfl := eq_nil_of_startsOperand hb hno
    obtain ⟨token, text⟩ := w
    rcases htoken with rfl | rfl
    · cases hspelling
      exact nomatch hno
    · cases hspelling
      exact nomatch hno

/-- Wherever the symbols spell the expression, something is left of the text. -/
def Leaves (level : Level) (ws : List Symbol) (e : Expr) : Prop :=
  ∀ ⦃t before after : Text⦄ ⦃v : Int⦄, symbols t = ws → Placed t before after → e.Spliceable →
    e.eval Bindings.none = .ok (.int v) → ∃ u us, Comes level e v t u us

/-- The operands of an operator leave what they do on their own. -/
theorem leaves_binary {la lb : Level} {ws us : List Symbol} {w : Symbol} {op : BinaryOp}
    {l r : Expr} (hl : Leaves la ws l) (hr : Leaves lb us r) (hne : ws ≠ [])
    (hjoins : w.token.joins = true)
    (hmeans : ∀ {x y v : Int} {ws' us' : List Symbol} {a a' b b' : Text},
      Comes la l x a a' ws' → Comes lb r y b b' us' → l.eval Bindings.none = .ok (.int x) →
      r.eval Bindings.none = .ok (.int y) → op.apply (.int x) (.int y) = .ok (.int v) →
      (binary op l r).Spliceable → (binary op l r).eval Bindings.none = .ok (.int v) →
      Means level (ws' ++ w :: us') v ∨ level.isOperand = true ∧ l.leadsNegative = true ∧
        ∃ vs, ws' ++ w :: us' = ⟨.minus, ['-']⟩ :: vs ∧ Means level vs (-v)) :
    Leaves level (ws ++ w :: us) (binary op l r) := by
  intro t before after v hws hplace hsplice hv
  obtain ⟨a, sp, b, rfl, ha, hb, hsp, hw⟩ := exists_of_symbols_between hws
  obtain ⟨x, y, hx, hy, happly, -⟩ := exists_of_eval_binary hv
  have hspelling := spelling?_of_joins hw hjoins
  have hleft := (spliceable_binary hsplice).1
  have hright := (spliceable_binary hsplice).2
  obtain ⟨a', ws', ha'⟩ := hl ha hplace.left hleft hx
  obtain ⟨b', us', hb'⟩ := hr hb (hplace.right hjoins hspelling) hright hy
  have hmeant := hmeans ha' hb' hx hy happly hsplice hv
  exact ⟨_, _, comes_binary ha' hb' (ne_nil_of_symbols hne ha) hsp hjoins hspelling hmeant⟩

section Rules

variable {ws ws' : List Symbol} {w : Symbol} {l r : Expr}

/-- An operator of sums or of products. -/
theorem Leaves.operator {la lb : Level} {op : BinaryOp} (hl : Leaves la ws l) (hr : Leaves lb ws' r)
    (hne : ws ≠ []) (hjoins : w.token.joins = true) (hla : la.isOperand = false)
    (hlb : lb.isOperand = false)
    (hrule : ∀ {us us' : List Symbol} {f g : Expr}, Derives la us f → Derives lb us' g →
      Derives level (us ++ w :: us') (binary op f g)) :
    Leaves level (ws ++ w :: ws') (binary op l r) := by
  refine leaves_binary hl hr hne hjoins ?_
  intro x y v us us' a a' b b' ha hb _ _ happly _ _
  obtain ⟨f, hf, hfx⟩ := ha.means_of_not_operand hla
  obtain ⟨g, hg, hgy⟩ := hb.means_of_not_operand hlb
  exact Or.inl ⟨_, hrule hf hg, eval_binary hfx hgy happly⟩

/-- A level above one that is not that of operands. -/
theorem Leaves.lift {la lb : Level} (h : Leaves la ws e) (hla : la.isOperand = false)
    (hrule : ∀ {us : List Symbol} {f : Expr}, Derives la us f → Derives lb us f) :
    Leaves lb ws e := by
  intro t before after v hws hplace hsplice hv
  obtain ⟨u, us, hu⟩ := h hws hplace hsplice hv
  obtain ⟨f, hf, hfv⟩ := hu.means_of_not_operand hla
  exact ⟨u, us, hu.lift ⟨f, hrule hf, hfv⟩⟩

theorem Leaves.sign {op : UnaryOp} (h : Leaves .signed ws e) (hop : sign? w.token = some op)
    (hne : ws ≠ []) : Leaves .signed (w :: ws) (unary op e) := by
  intro t before after v hws hplace hsplice hv
  obtain ⟨b, rest, rfl, hb, hrest, hw, -⟩ := exists_of_symbols_eq_cons hws
  obtain ⟨x, hx, happly⟩ := exists_of_eval_unary hv
  have hjoins := joins_of_sign (sign_of_sign? hop)
  have hspelling := spelling?_of_joins hw hjoins
  have hright : Placed rest _ after := Placed.right (a := []) hplace hjoins hspelling
  obtain ⟨u, us, hu⟩ := h hrest hright hsplice.1 hx
  have hstart : startsOperand rest = true :=
    hplace.startsOperand (sign_of_sign? hop) hspelling hb (ne_nil_of_symbols hne hrest)
  exact ⟨_, _, comes_sign hu hop hw hb hstart hsplice.2 happly⟩

/-- A power as an operand with signs.  If its base is a negative group, then a minus was left in
front of the opposite power, and it becomes a sign here. -/
theorem Leaves.signed (h : Leaves .power ws e)
    (hfits : ∀ {v : Int}, e.eval Bindings.none = .ok (.int v) → Whole.fits v = true) :
    Leaves .signed ws e := by
  intro t before after v hws hplace hsplice hv
  obtain ⟨u, us, hu⟩ := h hws hplace hsplice hv
  refine ⟨u, us, hu.lift ?_⟩
  rcases hu.means with ⟨f, hf, hfv⟩ | ⟨-, -, us, rfl, f, hf, hfv⟩
  · exact ⟨f, .power hf, hfv⟩
  · refine ⟨_, .sign rfl (.power hf), eval_unary hfv ?_⟩
    show Number.ofInt (-(-v)) = _
    rw [Int.neg_neg]
    exact Number.ofInt_of_fits (hfits hv)

theorem Leaves.pow (hl : Leaves .atom ws l) (hr : Leaves .signed ws' r) (hne : ws ≠ [])
    (hw : w.token = .starStar) : Leaves .power (ws ++ w :: ws') (binary .pow l r) := by
  have hjoins : w.token.joins = true := by rw [hw]; rfl
  refine leaves_binary hl hr hne hjoins ?_
  intro x y v us us' a a' b b' ha hb _ hy happly hsplice hv
  have hneg : l.leadsNegative = true → y % 2 = 1 ∧ v ≠ Whole.lowest := by
    intro hlead
    obtain ⟨hodd, hlowest⟩ := hsplice.2.2 hlead
    refine ⟨hodd y (whole?_of_eval hy), ?_⟩
    rintro rfl
    exact hlowest (whole?_of_eval hv)
  obtain ⟨-, -, -, -, -, hfits⟩ := exists_of_eval_binary hv
  exact means_pow ha (hb.means_of_not_operand rfl) hw happly hfits hneg

theorem Leaves.power (h : Leaves .atom ws e) : Leaves .power ws e := by
  intro t before after v hws hplace hsplice hv
  obtain ⟨u, us, hu⟩ := h hws hplace hsplice hv
  refine ⟨u, us, hu.spliced, hu.strung, ?_, hu.start⟩
  rcases hu.means with ⟨f, hf, hfv⟩ | ⟨-, hlead, us, rfl, f, hf, hfv⟩
  · exact Or.inl ⟨f, .atom hf, hfv⟩
  · exact Or.inr ⟨rfl, hlead, us, rfl, f, .atom hf, hfv⟩

/-- A group, of which the digits of its value are left. -/
theorem Leaves.group {left right : Symbol} (he : Derives .sum ws e) (h : Leaves .sum ws e)
    (hl : left.token = .leftParen) (hr : right.token = .rightParen) :
    Leaves .atom (left :: (ws ++ [right])) (group e) := by
  intro t before after v hws hplace hsplice hv
  obtain ⟨b, body, rfl, hb, hbody, hleft, -⟩ := exists_of_symbols_eq_cons hws
  obtain ⟨inner, sp, rest, rfl, hinner, hrest, hsp, hright⟩ := exists_of_symbols_between hbody
  have hopen : left.text = ['('] := hleft.fixed _ (by rw [hl]; rfl)
  have hclose : right.text = [')'] := hright.fixed _ (by rw [hr]; rfl)
  rw [hopen, hclose] at hplace ⊢
  obtain ⟨u, us, hu⟩ := h hinner (Placed.inner (a := inner) hplace) hsplice.1 hv
  have hne := ne_nil_of_symbols (ne_nil_of_derives he) hinner
  have hlowest : v ≠ Whole.lowest := by
    rintro rfl
    exact hsplice.2 (whole?_of_eval hv)
  obtain ⟨us', hgroup⟩ :=
    comes_group (hu.spaces hne hsp) (List.append_ne_nil_of_left_ne_nil hne sp)
      (fits_of_derives he hv) hlowest hv hb (isSpace_of_symbols_eq_nil hrest)
  rw [List.append_assoc] at hgroup
  exact ⟨_, us', hgroup⟩

theorem leaves_integer {n : Int} (hw : w.token = .integer)
    (hn : Whole.fit? (Nat.ofDigitChars 10 w.text 0) = some n) :
    Leaves .atom [w] (literal (.int n)) := by
  intro t before after v hws _ _ hv
  obtain ⟨b, rest, rfl, hb, hrest, hspelled, -⟩ := exists_of_symbols_eq_cons hws
  cases hv
  exact ⟨_, _, comes_numeral (hspelled.numeral hw) hn hb (isSpace_of_symbols_eq_nil hrest)⟩

end Rules

/-- **A text of a whole value becomes one without groups that has the same value.** -/
theorem leaves_of_derives {ws : List Symbol} (h : Derives level ws e) : Leaves level ws e := by
  induction h with
  | add hl hop _ ihl ihr =>
    have hjoins := joins_of_sumOp? hop
    exact ihl.operator ihr (ne_nil_of_derives hl) hjoins rfl rfl fun hf hg => .add hf hop hg
  | product _ ih => exact ih.lift rfl .product
  | mul hl hop _ ihl ihr =>
    have hjoins := joins_of_productOp? hop
    exact ihl.operator ihr (ne_nil_of_derives hl) hjoins rfl rfl fun hf hg => .mul hf hop hg
  | signed _ ih => exact ih.lift rfl .signed
  | sign hop he ih => exact ih.sign hop (ne_nil_of_derives he)
  | power he ih => exact ih.signed (fits_of_derives he)
  | pow hl hw _ ihl ihr => exact ihl.pow ihr (ne_nil_of_derives hl) hw
  | atom _ ih => exact ih.power
  | group hl he hr ih => exact Leaves.group he ih hl hr
  | integer hw hn => exact leaves_integer hw hn
  | decimal _ =>
    intro t before after v _ _ _ hv
    exact nomatch hv
  | name _ =>
    intro t before after v _ _ _ hv
    exact nomatch hv

/-! ## The two evaluations -/

/-- **A session evaluates a text to the value of its expression**, if the digits of its groups
can stand for them and its signs stand directly before digits or groups. -/
theorem session_evaluates_expression {ρ : Type} [Roller ρ] {c : Config} {t : Text} {e : Expr}
    {v : Int}
    (hparse : Expr.parse t = .ok e) (hvalue : evaluate Bindings.none t = .ok (.int v))
    (hdepth : 0 < c.maxDepth) (hnesting : e.nesting ≤ c.maxDepth) (hsigns : signsStand [] t = true)
    (hgroups : e.Spliceable) (roller : ρ) :
    ∃ r s, Turn.evaluate t (Session.start c roller) = .ok r s ∧ r.result = some v := by
  have hv : e.eval Bindings.none = .ok (.int v) := by
    rw [← hvalue, evaluate_of_parse hparse]
  have hderives := parse_eq_ok_iff.mp hparse
  have hplace : Placed t [] [] := ⟨rfl, by rw [List.append_nil]; exact hsigns⟩
  obtain ⟨u, us, hu⟩ := leaves_of_derives hderives rfl hplace hgroups hv
  obtain ⟨x, hx, hspells⟩ :=
    exists_spells hu.strung (hu.means_of_not_operand rfl) (fits_of_derives hderives hv)
  obtain ⟨s, hs⟩ := hu.spliced.evaluateWith_eq (reentry (reach c)) hx hspells
    (s := Session.start c roller) rfl hnesting hdepth
  exact ⟨counted x v, s, hs, result_counted x v⟩

/-- In `2-(1-4)**3` a negative group has an odd exponent, and the session gives the value as
well. -/
theorem session_evaluates_expression_with_negative_group :
    Expr.parse "2-(1-4)**3".toList = .ok (binary .sub (literal (.int 2))
      (binary .pow (group (binary .sub (literal (.int 1)) (literal (.int 4))))
        (literal (.int 3)))) ∧
    evaluate Bindings.none "2-(1-4)**3".toList = .ok (.int 29) ∧
    signsStand [] "2-(1-4)**3".toList = true ∧
    ∃ r s, Turn.evaluate "2-(1-4)**3".toList (Session.start {} (Scripted.mk [])) = .ok r s ∧
      r.result = some 29 := by
  have hparse : Expr.parse "2-(1-4)**3".toList = .ok (binary .sub (literal (.int 2))
      (binary .pow (group (binary .sub (literal (.int 1)) (literal (.int 4))))
        (literal (.int 3)))) := by
    cbv
  have hvalue : evaluate Bindings.none "2-(1-4)**3".toList = .ok (.int 29) := by cbv
  have hsigns : signsStand [] "2-(1-4)**3".toList = true := by decide
  refine ⟨hparse, hvalue, hsigns, session_evaluates_expression hparse hvalue (by decide) (by decide)
    hsigns ?_ (Scripted.mk [])⟩
  exact ⟨trivial, ⟨⟨trivial, trivial⟩, by decide⟩, trivial, fun _ => ⟨by decide, by decide⟩⟩

/-- The result of a text in a session in which nothing has happened. -/
def firstResult (t : Text) : Except Halt (Option Int) :=
  ((Turn.evaluate t).outcome (Session.start {} (Scripted.mk []))).map Roll.result

theorem outcome_evaluate {ρ : Type} [Roller ρ] (t : Text) (s : Session ρ) :
    (Turn.evaluate t).outcome s = (Turn.evaluateWith (reentry (reach s.config)) t).outcome s := by
  unfold Turn.outcome Turn.evaluate
  rw [Turn.get_bind]

theorem firstResult_eq {t : Text} {r : Except Halt (Option Int)}
    (h : ∀ again : Reentry Scripted,
      ((Turn.evaluateWith again t).outcome (Session.start {} (Scripted.mk []))).map
        Roll.result = r) :
    firstResult t = r := by
  unfold firstResult
  rw [outcome_evaluate]
  exact h _

/-- None of the conditions can be left out: a negative group with an even exponent, a sign
before a negative group, the least whole number as a group, and a sign apart from its digits. -/
theorem session_differs_from_expression :
    (evaluate Bindings.none "0-3".toList = .ok (.int (-3)) ∧
      evaluate Bindings.none "(0-3)**2".toList = .ok (.int 9) ∧
      firstResult "(0-3)**2".toList = .ok (some (-9))) ∧
    (evaluate Bindings.none "-(0-3)".toList = .ok (.int 3) ∧
      firstResult "-(0-3)".toList = .error (.failed (.leftOver "--3".toList "--3".toList))) ∧
    (evaluate Bindings.none "0-9223372036854775807-1".toList = .ok (.int Whole.lowest) ∧
      evaluate Bindings.none "(0-9223372036854775807-1)+1".toList = .ok (.int (Whole.lowest + 1)) ∧
      firstResult "(0-9223372036854775807-1)+1".toList =
        .error (.failed (.arith
          (.parse (.badNumber ⟨.integer, "9223372036854775808".toList, 1⟩))))) ∧
    (evaluate Bindings.none "- 3".toList = .ok (.int (-3)) ∧
      firstResult "- 3".toList = .error (.failed (.leftOver "- 3".toList "3".toList))) := by
  refine ⟨⟨by cbv, by cbv, firstResult_eq fun again => by cbv⟩,
    ⟨by cbv, firstResult_eq fun again => by cbv⟩,
    ⟨by cbv, by cbv, firstResult_eq fun again => by cbv⟩,
    ⟨by cbv, firstResult_eq fun again => by cbv⟩⟩

end DiceNotation
