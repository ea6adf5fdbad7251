import DiceNotation.Proofs.Expr.Values
import DiceNotation.Proofs.Numbers.Whole
import Mathlib.Algebra.Order.Field.Rat
import Mathlib.Data.Int.Cast.Field
import Mathlib.Data.Int.CharZero

/-!
# Whole values are exact

An expression has an exact value over the rational numbers, unless it divides by zero, raises zero
to a negative power or has a power whose exponent is not whole.  The value that is computed may be
something else: a double, or nothing at all where a number is out of the range.  But when it is a
whole number, it is the exact value.

One operator is described by `apply_eq_int_iff`: it gives a whole number exactly when the exact
answer is one in the range and, for a power, the exponent is neither negative nor `2^32` or more.
The induction over the expression then needs nothing but that a double never becomes whole again,
which is what `Expr.exists_of_eval_binary` and `Expr.exists_of_eval_unary` say.

* `BinaryOp.exactValue?`, `UnaryOp.exactValue`, `Expr.exactValue?`: the exact value.
* `Expr.Whole`: every literal and every name stands for a whole number.
* `Expr.eval_eq_int_iff`: when the computed value is whole.
* `Expr.whole_value_is_exact`.
-/

namespace DiceNotation

/-- The exact value of an operator.  A quotient by zero has none, nor has a negative power of zero;
`0 ^ 0` is `1`.  Powers are defined for whole exponents. -/
def BinaryOp.exactValue? : BinaryOp → ℚ → ℚ → Option ℚ
  | .add, x, y => some (x + y)
  | .sub, x, y => some (x - y)
  | .mul, x, y => some (x * y)
  | .div, x, y => if y = 0 then none else some (x / y)
  | .pow, x, y => if y.den = 1 ∧ (x = 0 → 0 ≤ y) then some (x ^ y.num) else none

/-- The exact value of a sign. -/
def UnaryOp.exactValue : UnaryOp → ℚ → ℚ
  | .plus, x => x
  | .minus, x => -x

/-- A number as a rational one, if it is whole. -/
def Number.exactValue? : Number → Option ℚ
  | .int n => some n
  | .float _ => none

/-- The exponents that a whole power has. -/
def BinaryOp.Admits (op : BinaryOp) (y : Int) : Prop := op = .pow → 0 ≤ y ∧ y < 2 ^ 32

namespace Expr

/-- **The exact value of an expression** whose literals and names stand for whole numbers. -/
def exactValue? (values : Bindings) : Expr → Option ℚ
  | literal n => n.exactValue?
  | name n => (values n).bind Number.exactValue?
  | group e => e.exactValue? values
  | unary op e => (e.exactValue? values).map op.exactValue
  | binary op l r =>
    (l.exactValue? values).bind fun x => (r.exactValue? values).bind fun y => op.exactValue? x y

/-- Every literal and every name stands for a whole number. -/
def Whole (values : Bindings) : Expr → Prop
  | literal n => ∃ k, n = .int k
  | name n => ∃ k, values n = some (.int k)
  | group e => e.Whole values
  | unary _ e => e.Whole values
  | binary _ l r => l.Whole values ∧ r.Whole values

/-- Besides literals and names, all values in an expression are whole numbers in the range, and no
power has an exponent that is refused. -/
def StaysWhole (values : Bindings) : Expr → Prop
  | literal _ => True
  | name _ => True
  | group e => e.StaysWhole values
  | unary op e => e.StaysWhole values ∧ ∃ x v : Int, e.exactValue? values = some (x : ℚ) ∧
      op.exactValue x = v ∧ (op = .minus → Whole.fits v = true)
  | binary op l r => l.StaysWhole values ∧ r.StaysWhole values ∧
      ∃ x y v : Int, l.exactValue? values = some (x : ℚ) ∧ r.exactValue? values = some (y : ℚ) ∧
        op.exactValue? x y = some (v : ℚ) ∧ op.Admits y ∧ Whole.fits v = true

end Expr

/-! ## One operator -/

theorem Number.ofInt_eq_int_iff {n v : Int} :
    ofInt n = .ok (.int v) ↔ (n : ℚ) = v ∧ Whole.fits v = true := by
  rw [ofInt_eq_ok_iff, Number.int.injEq, Int.cast_inj, eq_comm (a := v)]
  constructor
  · rintro ⟨rfl, hfits⟩
    exact ⟨rfl, hfits⟩
  · rintro ⟨rfl, hfits⟩
    exact ⟨rfl, hfits⟩

/-- A quotient is whole exactly when the exact one is, so no remainder is ever dropped. -/
theorem div_eq_int_iff {x y v : Int} :
    Number.div (.int x) (.int y) = .ok (.int v) ↔
      BinaryOp.exactValue? .div x y = some (v : ℚ) ∧ Whole.fits v = true := by
  by_cases hy : y = 0
  · subst hy
    rw [Number.div_zero]
    simp [BinaryOp.exactValue?]
  · have hyq : (y : ℚ) ≠ 0 := Int.cast_ne_zero.mpr hy
    rw [BinaryOp.exactValue?, if_neg hyq, Option.some.injEq]
    by_cases hdvd : y ∣ x
    · rw [Number.div_of_dvd hy hdvd, Number.ofInt_eq_int_iff, Int.cast_div hdvd hyq]
    · obtain ⟨q, hq⟩ := Number.exists_div_of_not_dvd hy hdvd
      rw [hq]
      constructor
      · exact fun h => nomatch h
      · rintro ⟨h, -⟩
        rw [div_eq_iff hyq] at h
        exact absurd (Dvd.intro_left v (mod_cast h.symm)) hdvd

/-- A power is whole exactly when its exponent is admitted and the exact power is in the range. -/
theorem pow_eq_int_iff {x y v : Int} :
    Number.pow (.int x) (.int y) = .ok (.int v) ↔
      BinaryOp.exactValue? .pow x y = some (v : ℚ) ∧ (0 ≤ y ∧ y < 2 ^ 32) ∧
        Whole.fits v = true := by
  have hexact : ∀ k : Nat, BinaryOp.exactValue? .pow x (k : ℤ) = some (((x ^ k : Int)) : ℚ) := by
    intro k
    simp [BinaryOp.exactValue?]
  constructor
  · intro h
    obtain ⟨k, rfl, hk, -, hfits⟩ := Number.exists_of_pow h
    rw [Number.pow_of_lt x hk, Number.ofInt_eq_int_iff] at h
    exact ⟨by rw [hexact, h.1], ⟨Int.natCast_nonneg k, mod_cast hk⟩, hfits⟩
  · rintro ⟨h, ⟨hnonneg, hlt⟩, hfits⟩
    obtain ⟨k, rfl⟩ := Int.eq_ofNat_of_zero_le hnonneg
    rw [hexact, Option.some.injEq] at h
    rw [Number.pow_of_lt x (by omega), Number.ofInt_eq_int_iff]
    exact ⟨h, hfits⟩

/-- An operator whose answer is always whole, for whole numbers. -/
theorem ofInt_eq_int_iff_of_ne_pow {op : BinaryOp} {x y n v : Int} (hop : op ≠ .pow)
    (hexact : op.exactValue? x y = some (n : ℚ)) :
    Number.ofInt n = .ok (.int v) ↔
      op.exactValue? x y = some (v : ℚ) ∧ op.Admits y ∧ Whole.fits v = true := by
  have hadmits : op.Admits y := fun h => absurd h hop
  rw [Number.ofInt_eq_int_iff, hexact, Option.some.injEq, and_iff_right hadmits]

/-- **When an operator gives a whole number.** -/
theorem apply_eq_int_iff {op : BinaryOp} {x y v : Int} :
    op.apply (.int x) (.int y) = .ok (.int v) ↔
      op.exactValue? x y = some (v : ℚ) ∧ op.Admits y ∧ Whole.fits v = true := by
  cases op with
  | add =>
    exact ofInt_eq_int_iff_of_ne_pow (by decide) (congrArg some (Int.cast_add x y).symm)
  | sub =>
    exact ofInt_eq_int_iff_of_ne_pow (by decide) (congrArg some (Int.cast_sub x y).symm)
  | mul =>
    exact ofInt_eq_int_iff_of_ne_pow (by decide) (congrArg some (Int.cast_mul x y).symm)
  | div =>
    have hadmits : BinaryOp.div.Admits y := nofun
    rw [and_iff_right hadmits]
    exact div_eq_int_iff
  | pow =>
    have hadmits : BinaryOp.pow.Admits y ↔ 0 ≤ y ∧ y < 2 ^ 32 := ⟨fun h => h rfl, fun h _ => h⟩
    rw [hadmits]
    exact pow_eq_int_iff

/-- When a sign gives a whole number. -/
theorem UnaryOp.apply_eq_int_iff {op : UnaryOp} {x v : Int} :
    op.apply (.int x) = .ok (.int v) ↔
      op.exactValue x = v ∧ (op = .minus → Whole.fits v = true) := by
  cases op with
  | plus => simp [UnaryOp.apply, UnaryOp.exactValue]
  | minus =>
    have hfits : (UnaryOp.minus = .minus → Whole.fits v = true) ↔ Whole.fits v = true :=
      ⟨fun h => h rfl, fun h _ => h⟩
    rw [hfits, UnaryOp.exactValue, ← Int.cast_neg]
    exact Number.ofInt_eq_int_iff

/-! ## Whole expressions -/

namespace Expr

variable {values : Bindings} {e : Expr} {v : Int}

/-- A number with a whole exact value is that number. -/
theorem eq_int_of_exactValue? {n : Number} (h : n.exactValue? = some (v : ℚ)) : n = .int v := by
  cases n with
  | int k => rw [Int.cast_injective (Option.some.inj h)]
  | float x => exact nomatch h

theorem exactValue?_unary {op : UnaryOp} {x : ℚ} (h : e.exactValue? values = some x) :
    (unary op e).exactValue? values = some (op.exactValue x) := by
  rw [exactValue?, h, Option.map_some]

theorem exactValue?_binary {op : BinaryOp} {l r : Expr} {x y : ℚ}
    (hl : l.exactValue? values = some x) (hr : r.exactValue? values = some y) :
    (binary op l r).exactValue? values = op.exactValue? x y := by
  rw [exactValue?, hl, hr, Option.bind_some, Option.bind_some]

/-- **When the value of an expression is whole**: the exact value is that whole number, and on the
way there no value left the whole numbers of the range. -/
theorem eval_eq_int_iff : e.eval values = .ok (.int v) ↔
    e.exactValue? values = some (v : ℚ) ∧ e.Whole values ∧ e.StaysWhole values := by
  induction e generalizing v with
  | literal n =>
    constructor
    · rintro ⟨⟩
      exact ⟨rfl, ⟨v, rfl⟩, trivial⟩
    · rintro ⟨h, -, -⟩
      rw [eq_int_of_exactValue? h]
      rfl
  | name n =>
    unfold eval exactValue? Whole
    cases hn : values n with
    | none => simp
    | some w =>
      constructor
      · rintro ⟨⟩
        exact ⟨rfl, ⟨v, rfl⟩, trivial⟩
      · rintro ⟨h, -, -⟩
        exact congrArg Except.ok (eq_int_of_exactValue? h)
  | group e ih => exact ih
  | unary op e ih =>
    constructor
    · intro h
      obtain ⟨x, hx, happly⟩ := exists_of_eval_unary h
      obtain ⟨hexact, hwhole, hstays⟩ := ih.mp hx
      obtain ⟨hv, hfits⟩ := UnaryOp.apply_eq_int_iff.mp happly
      exact ⟨by rw [exactValue?_unary hexact, hv], hwhole, hstays, x, v, hexact, hv, hfits⟩
    · rintro ⟨h, hwhole, hstays, x, w, hexact, hw, hfits⟩
      rw [exactValue?_unary hexact, hw, Option.some.injEq, Int.cast_inj] at h
      subst h
      exact eval_unary (ih.mpr ⟨hexact, hwhole, hstays⟩) (UnaryOp.apply_eq_int_iff.mpr ⟨hw, hfits⟩)
  | binary op l r ihl ihr =>
    constructor
    · intro h
      obtain ⟨x, y, hx, hy, happly, -⟩ := exists_of_eval_binary h
      obtain ⟨hl, hwholel, hstaysl⟩ := ihl.mp hx
      obtain ⟨hr, hwholer, hstaysr⟩ := ihr.mp hy
      obtain ⟨hv, hadmits, hfits⟩ := apply_eq_int_iff.mp happly
      exact ⟨by rw [exactValue?_binary hl hr, hv], ⟨hwholel, hwholer⟩, hstaysl, hstaysr,
        x, y, v, hl, hr, hv, hadmits, hfits⟩
    · rintro ⟨h, ⟨hwholel, hwholer⟩, hstaysl, hstaysr, x, y, w, hl, hr, hw, hadmits, hfits⟩
      rw [exactValue?_binary hl hr, hw, Option.some.injEq, Int.cast_inj] at h
      subst h
      exact eval_binary (ihl.mpr ⟨hl, hwholel, hstaysl⟩) (ihr.mpr ⟨hr, hwholer, hstaysr⟩)
        (apply_eq_int_iff.mpr ⟨hw, hadmits, hfits⟩)

/-- **A whole value is the exact value.**  Every literal and every name then stands for a whole
number, and the exact value of the expression is defined: nothing was rounded, nothing wrapped
around and no remainder was dropped. -/
theorem whole_value_is_exact (h : e.eval values = .ok (.int v)) :
    e.Whole values ∧ e.exactValue? values = some (v : ℚ) := by
  obtain ⟨hexact, hwhole, -⟩ := eval_eq_int_iff.mp h
  exact ⟨hwhole, hexact⟩

/-- An exact quotient and the zeroth power of zero: `-(x - 7) ** 3 / 4 + 0 ** 0`, where `x` is `9`.
-/
def quarteredCube : Expr :=
  binary .add
    (binary .div
      (unary .minus (binary .pow (group (binary .sub (name ['x']) (literal (.int 7))))
        (literal (.int 3))))
      (literal (.int 4)))
    (binary .pow (literal (.int 0)) (literal (.int 0)))

theorem whole_value_is_exact_of_quarteredCube :
    quarteredCube.eval (fun _ => some (.int 9)) = .ok (.int (-1)) ∧
      quarteredCube.Whole (fun _ => some (.int 9)) ∧
      quarteredCube.exactValue? (fun _ => some (.int 9)) = some ((-1 : Int) : ℚ) :=
  have h : quarteredCube.eval (fun _ => some (.int 9)) = .ok (.int (-1)) := rfl
  ⟨h, whole_value_is_exact h⟩

end Expr

end DiceNotation
