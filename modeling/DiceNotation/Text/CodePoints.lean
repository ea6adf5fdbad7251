/-!
# Sets of code points

A property of characters, such as being a digit in some script, holds of a few hundred stretches of
code points.  Such a set is given by the ascending list of the points where membership changes:
the first entry is the first member, the second the first non-member after it, and so on.

The list is read from the left, so `memFlips_lt` and `memFlips_ge` are all that is ever needed
about it.
-/

namespace DiceNotation.Text

/-- Whether `n` is a member, when membership below the first entry of the list is `inside` and
changes at every entry. -/
def memFlips (inside : Bool) : List Nat → Nat → Bool
  | [], _ => inside
  | f :: fs, n => if n < f then inside else memFlips (!inside) fs n

theorem memFlips_lt {inside : Bool} {f n : Nat} {fs : List Nat} (h : n < f) :
    memFlips inside (f :: fs) n = inside := by
  rw [memFlips, if_pos h]

theorem memFlips_ge {inside : Bool} {f n : Nat} {fs : List Nat} (h : f ≤ n) :
    memFlips inside (f :: fs) n = memFlips (!inside) fs n := by
  rw [memFlips, if_neg (Nat.not_lt.mpr h)]

end DiceNotation.Text
