import DiceNotation.Text.Basic

/-!
# Whole numbers of bounded size

Amounts, faces, results and goals are integers between `-2^63` and `2^63 - 1`.  They are plain
`Int`s here, and every operation that could leave the range asks `fit?` first: a total that is too
large is an error of the operation that made it, and no value ever wraps around.

## Reading and writing

A whole number is written as its decimal digits after at most one minus sign.  It is read from ASCII
digits after at most one sign of either kind, and only if it fits, so that what was written reads
back (`read?_render`) while `+5` and `007` are read as well.

* `fits`, `fit?`, `clamp`: the range.
* `render`, `read?`: the decimal text, with `read?_render`.
-/

namespace DiceNotation.Whole

/-- The least whole number. -/
def lowest : Int := -9223372036854775808

/-- The greatest whole number. -/
def highest : Int := 9223372036854775807

/-- Whether an integer is in the range. -/
def fits (n : Int) : Bool := decide (lowest ≤ n) && decide (n ≤ highest)

theorem fits_iff {n : Int} : fits n = true ↔ lowest ≤ n ∧ n ≤ highest := by
  simp [fits]

/-- The integer itself, if it is in the range. -/
def fit? (n : Int) : Option Int := if fits n then some n else none

theorem fit?_eq_some_iff {n m : Int} : fit? n = some m ↔ n = m ∧ fits n = true := by
  unfold fit?
  split <;> simp_all

theorem fit?_eq_none_iff {n : Int} : fit? n = none ↔ fits n = false := by
  unfold fit?
  split <;> simp_all

/-- The nearest whole number. -/
def clamp (n : Int) : Int := max lowest (min n highest)

/-- A number in the range is its own nearest. -/
theorem clamp_of_fits {n : Int} (h : fits n = true) : clamp n = n := by
  rw [fits_iff] at h
  unfold clamp
  omega

/-- The decimal digits of a natural number. -/
def renderNat (n : Nat) : Text := Nat.toDigits 10 n

/-- The decimal text of an integer. -/
def render : Int → Text
  | .ofNat n => renderNat n
  | .negSucc n => '-' :: renderNat (n + 1)

/-- The value of a text of ASCII digits, of which there must be at least one. -/
def readDigits? (t : Text) : Option Nat :=
  if t.isEmpty || !t.all Char.isDigit then none else some (Nat.ofDigitChars 10 t 0)

/-- The integer that a text spells, of any size. -/
def readInt? : Text → Option Int
  | '-' :: t => (readDigits? t).map fun n => -(n : Int)
  | '+' :: t => (readDigits? t).map Int.ofNat
  | t => (readDigits? t).map Int.ofNat

/-- The whole number that a text spells. -/
def read? (t : Text) : Option Int := (readInt? t).bind fit?

theorem renderNat_ne_nil (n : Nat) : renderNat n ≠ [] := Nat.toDigits_ne_nil

theorem isDigit_of_mem_renderNat {n : Nat} {c : Char} (h : c ∈ renderNat n) : c.isDigit = true :=
  Nat.isDigit_of_mem_toDigits (by decide) (by decide) h

/-- The digits of a natural number spell it. -/
theorem readDigits?_renderNat (n : Nat) : readDigits? (renderNat n) = some n := by
  have hne : (renderNat n).isEmpty = false := by
    rw [List.isEmpty_eq_false_iff]
    exact renderNat_ne_nil n
  have hall : (renderNat n).all Char.isDigit = true :=
    List.all_eq_true.mpr fun c h => isDigit_of_mem_renderNat h
  rw [readDigits?, hne, hall]
  simp [renderNat]

/-- A text that starts with a digit is read as the digits it is. -/
theorem readInt?_of_isDigit {c : Char} (hc : c.isDigit = true) (t : Text) :
    readInt? (c :: t) = (readDigits? (c :: t)).map Int.ofNat := by
  unfold readInt?
  split
  · next h => rw [List.cons.injEq] at h; rw [h.1] at hc; exact absurd hc (by decide)
  · next h => rw [List.cons.injEq] at h; rw [h.1] at hc; exact absurd hc (by decide)
  · rfl

/-- The decimal text of an integer spells it. -/
theorem readInt?_render (n : Int) : readInt? (render n) = some n := by
  cases n with
  | ofNat n =>
    show readInt? (renderNat n) = _
    cases h : renderNat n with
    | nil => exact absurd h (renderNat_ne_nil n)
    | cons c t =>
      have hc : c.isDigit = true := isDigit_of_mem_renderNat (n := n) (h ▸ List.mem_cons_self)
      rw [readInt?_of_isDigit hc, ← h, readDigits?_renderNat]
      rfl
  | negSucc n =>
    show readInt? ('-' :: renderNat (n + 1)) = _
    rw [readInt?, readDigits?_renderNat]
    rfl

/-- What was written reads back. -/
theorem read?_render {n : Int} (h : fits n = true) : read? (render n) = some n := by
  rw [read?, readInt?_render]
  exact fit?_eq_some_iff.mpr ⟨rfl, h⟩

end DiceNotation.Whole
