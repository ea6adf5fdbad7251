import DiceNotation.Text.Blank

/-!
# The text around a trigger

While a trigger fires, the text around it lies in stretches: those between triggers, and the
outputs of the triggers that have fired already.  The stretches before it are listed from the
nearest to the first, those after it from the nearest to the last, and the triggers that are still
to fire are not seen.

A trigger can take words away from the end of this text.  A word is a stretch without blanks,
except that blanks inside parentheses belong to the word.  It never spans two stretches, and the
blanks after it in its stretch go with it.

* `lastWord?`: the last word of a stretch, and what stays.
* `Surroundings`, `Surroundings.takeWord?`.
-/

namespace DiceNotation

open Text

/-- The characters of a word that ends where a text starts, both read backward, and what is before
it.  So many parentheses have been closed and not yet opened. -/
def spanWord (depth : Nat) : Text → Text × Text
  | [] => ([], [])
  | c :: t =>
    if c = ')' then
      let (word, rest) := spanWord (depth + 1) t
      (c :: word, rest)
    else if c = '(' then
      let (word, rest) := spanWord (depth - 1) t
      (c :: word, rest)
    else if isBlank c && depth == 0 then ([], c :: t)
    else
      let (word, rest) := spanWord depth t
      (c :: word, rest)

/-- Nothing is lost between a word and what is before it. -/
theorem spanWord_append (depth : Nat) (t : Text) :
    (spanWord depth t).1 ++ (spanWord depth t).2 = t := by
  induction t generalizing depth with
  | nil => rfl
  | cons c t ih =>
    unfold spanWord
    split
    · exact congrArg (c :: ·) (ih (depth + 1))
    · split
      · exact congrArg (c :: ·) (ih (depth - 1))
      · split
        · rfl
        · exact congrArg (c :: ·) (ih depth)

/-- The last word of a stretch, and what stays when it is taken. -/
def lastWord? (t : Text) : Option (Text × Text) :=
  let backward := trimStart t.reverse
  if backward.isEmpty then none
  else
    let (word, rest) := spanWord 0 backward
    some (word.reverse, rest.reverse)

/-- Takes the last word of the first of the stretches that has one. -/
def takeFromFirst? : List Text → Option (Text × List Text)
  | [] => none
  | t :: ts =>
    match lastWord? t with
    | some (word, t) => some (word, t :: ts)
    | none => (takeFromFirst? ts).map fun taken => (taken.1, t :: taken.2)

/-- Takes the last word of the last of the stretches that has one. -/
def takeFromLast? : List Text → Option (Text × List Text)
  | [] => none
  | t :: ts =>
    match takeFromLast? ts with
    | some (word, ts) => some (word, t :: ts)
    | none => (lastWord? t).map fun taken => (taken.1, taken.2 :: ts)

/-- The stretches of text before and after a trigger, the nearest first. -/
structure Surroundings where
  before : List Text
  after : List Text
  deriving DecidableEq, Repr

namespace Surroundings

/-- Takes the last word of the text around. -/
def takeWord? (s : Surroundings) : Option (Text × Surroundings) :=
  match takeFromLast? s.after with
  | some (word, after) => some (word, { s with after })
  | none => (takeFromFirst? s.before).map fun taken => (taken.1, { s with before := taken.2 })

/-- What is around the next trigger, when the one that has fired is replaced by its output. -/
def advance (output : Text) (s : Surroundings) : Surroundings :=
  match s.after with
  | [] => ⟨output :: s.before, []⟩
  | t :: ts => ⟨t :: output :: s.before, ts⟩

/-- The text of all stretches. -/
def text (s : Surroundings) : Text := s.before.reverse.flatten ++ s.after.flatten

/-- The output stands between the text before and the text after. -/
theorem text_advance (output : Text) (s : Surroundings) :
    (s.advance output).text = s.before.reverse.flatten ++ output ++ s.after.flatten := by
  obtain ⟨before, after⟩ := s
  cases after with
  | nil => simp [advance, text]
  | cons t ts => simp [advance, text]

end Surroundings

end DiceNotation
