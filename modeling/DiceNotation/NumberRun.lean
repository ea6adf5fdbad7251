import DiceNotation.Expr.Eval
import DiceNotation.Text.Alphanumeric
import DiceNotation.Text.Blank
import DiceNotation.Text.DecimalDigit

/-!
# Folding runs of numbers

Where a roll or a define has been replaced by its result, numbers come to stand next to one
another, and a dice code holds only single ones.  A *run* is a number followed by any number of
further ones, each with an optional operator before it, with blanks between the three.  Every run
is replaced by its value; numbers with no operator between them add up.

## What is a run

A number has digits, and may have a sign directly before it and a fraction.  A run is as long as
possible, and no character of it has to be given back: an operator belongs to the run exactly if a
number follows it.

A number that is glued to the character before it, because that is a letter, a numeral, an
underscore or a point, belongs to a word such as `d10` or `1.2.3`.  It is copied and nothing is
folded into it.

A run that is one number in ASCII digits stays as it is written, leading zeros included.  All others
are written by `Number.text`.

* `number?`, `operand?`, `continuation`: the parts of a run.
* `expression`: the tokens of a run as an expression.
* `foldNumbers`: a text with all runs folded.
-/

namespace DiceNotation.NumberRun

open Text

/-- The unsigned number at the start of a text, and what follows it. -/
def number? (t : Text) : Option (Text × Text) :=
  if (digits t).isEmpty then none
  else
    match afterDigits t with
    | '.' :: rest =>
      if (digits rest).isEmpty then some (digits t, '.' :: rest)
      else some (digits t ++ '.' :: digits rest, afterDigits rest)
    | rest => some (digits t, rest)

/-- A number and what follows it make up the text. -/
theorem eq_append_of_number? {t n rest : Text} (h : number? t = some (n, rest)) :
    t = n ++ rest := by
  have ht := digits_append_afterDigits t
  unfold number? at h
  split at h
  · exact absurd h (by simp)
  · split at h
    · next rest' heq =>
      have hr := digits_append_afterDigits rest'
      split at h
      · cases h; rw [← heq, ht]
      · cases h; rw [List.append_assoc, List.cons_append, hr, ← heq, ht]
    · cases h; exact ht.symm

/-- A number has a digit. -/
theorem ne_nil_of_number? {t n rest : Text} (h : number? t = some (n, rest)) : n ≠ [] := by
  unfold number? at h
  split at h
  · exact absurd h (by simp)
  · next hd =>
    have hne : digits t ≠ [] := fun he => hd (by rw [he]; rfl)
    split at h
    · split at h
      · cases h; exact hne
      · cases h; simp
    · cases h; exact hne

theorem length_number?_lt {t n rest : Text} (h : number? t = some (n, rest)) :
    rest.length < t.length := by
  have hn := List.length_pos_iff.mpr (ne_nil_of_number? h)
  rw [eq_append_of_number? h, List.length_append]
  omega

/-- Whether a character is a sign. -/
def isSign (c : Char) : Bool := c == '+' || c == '-'

/-- The tokens of the number at the start of a text, which may have a sign, and what follows it. -/
def operand? (t : Text) : Option (List Text × Text) :=
  match t with
  | [] => none
  | c :: rest =>
    if isSign c then (number? rest).map fun cut => ([[c], cut.1], cut.2)
    else (number? t).map fun cut => ([cut.1], cut.2)

theorem length_operand?_lt {t rest : Text} {tokens : List Text}
    (h : operand? t = some (tokens, rest)) : rest.length < t.length := by
  unfold operand? at h
  split at h
  · exact absurd h (by simp)
  · split at h
    · obtain ⟨⟨n, r⟩, hcut, heq⟩ := Option.map_eq_some_iff.mp h
      cases heq
      exact Nat.lt_succ_of_lt (length_number?_lt hcut)
    · obtain ⟨⟨n, r⟩, hcut, heq⟩ := Option.map_eq_some_iff.mp h
      cases heq
      exact length_number?_lt hcut

/-- The operator at the start of a text, which may be none, and what follows it. -/
def operator : Text → List Text × Text
  | '*' :: '*' :: t => ([['*', '*']], t)
  | '*' :: t => ([['*']], t)
  | '/' :: t => ([['/']], t)
  | '+' :: t => ([['+']], t)
  | '-' :: t => ([['-']], t)
  | t => ([], t)

theorem length_operator_le (t : Text) : (operator t).2.length ≤ t.length := by
  unfold operator
  split <;> simp only [List.length_cons] <;> omega

/-- The tokens of the next number of a run with the operator before it, and what follows. -/
def next? (t : Text) : Option (List Text × Text) :=
  let cut := operator (trimStart t)
  (operand? (trimStart cut.2)).map fun number => (cut.1 ++ number.1, number.2)

theorem length_next?_lt {t rest : Text} {tokens : List Text} (h : next? t = some (tokens, rest)) :
    rest.length < t.length := by
  obtain ⟨⟨n, r⟩, hcut, heq⟩ := Option.map_eq_some_iff.mp h
  cases heq
  have h₁ : r.length < (trimStart (operator (trimStart t)).2).length := length_operand?_lt hcut
  have h₂ := length_trimStart_le (operator (trimStart t)).2
  have h₃ := length_operator_le (trimStart t)
  have h₄ := length_trimStart_le t
  show r.length < t.length
  omega

/-- The tokens that go on a run, and what follows it. -/
def continuation (t : Text) : List Text × Text :=
  match _h : next? t with
  | none => ([], t)
  | some (tokens, rest) =>
    let more := continuation rest
    (tokens ++ more.1, more.2)
termination_by t.length
decreasing_by exact length_next?_lt _h

theorem length_continuation_le (t : Text) : (continuation t).2.length ≤ t.length := by
  fun_induction continuation t with
  | case1 t h => exact Nat.le_refl _
  | case2 t tokens rest h more ih => exact Nat.le_trans ih (Nat.le_of_lt (length_next?_lt h))

/-- Whether a token is a number with a value. -/
def isNumber : Text → Bool
  | [] => false
  | c :: _ => c.isDigit

/-- The tokens of a run as an expression, where `plus` says whether the token before was a number.
-/
def expression (plus : Bool) : List Text → Text
  | [] => []
  | t :: ts =>
    let rest := expression (isNumber t) ts
    if plus && isNumber t then '+' :: t ++ rest else t ++ rest

/-- Whether a run is written as its own value. -/
def isPlainNumber : List Text → Bool
  | [t] => t.all Char.isDigit
  | _ => false

/-- The text that replaces a run. -/
def fold (tokens : List Text) : Except ArithError Text :=
  if isPlainNumber tokens then .ok tokens.flatten
  else do
    let value ← evaluate Bindings.none (expression false tokens)
    return value.text

/-- Whether a number that follows the character belongs to a word. -/
def glues (c : Char) : Bool := isAlphanumeric c || c == '_' || c == '.'

/-- Folds the runs of a text, where `glued` says whether a number at its start belongs to a word.
The last character of a number glues. -/
def foldFrom (glued : Bool) (t : Text) : Except ArithError Text :=
  match t with
  | [] => .ok []
  | c :: t =>
    match _h : operand? (c :: t) with
    | none => do
      let rest ← foldFrom (glues c) t
      return c :: rest
    | some (tokens, rest) =>
      if glued then do
        let rest ← foldFrom true rest
        return tokens.flatten ++ rest
      else do
        let value ← fold (tokens ++ (continuation rest).1)
        let rest ← foldFrom true (continuation rest).2
        return value ++ rest
termination_by t.length
decreasing_by
  · exact Nat.lt_succ_self _
  · exact length_operand?_lt _h
  · exact Nat.lt_of_le_of_lt (length_continuation_le _) (length_operand?_lt _h)

/-- The text with every run of numbers replaced by its value, without blanks at its ends and with
one space for every stretch of blanks. -/
def foldNumbers (t : Text) : Except ArithError Text := foldFrom false (squeeze (trim t))

end DiceNotation.NumberRun
