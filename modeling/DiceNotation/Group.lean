import DiceNotation.Error

/-!
# Groups

A group is a stretch of text between a `(` and the `)` that closes it.  Groups nest, and the depth
at a character is the number of groups around it that are still open.

## Finding the end of a group

`cutClose` reads on from inside a group and stops at the `)` that brings the depth down to zero.  It
stops as well at a `)` when no group is open: a text that is entered in the middle has its first
unpaired `)` as the end.

## Splitting a text

A text is a sequence of plain stretches and groups, and `parts?` finds it or names the leftmost
parenthesis without a partner.  A group whose end is missing is reported at its start.

* `cutClose`, with `eq_append_of_cutClose` and `length_cutClose_lt`.
* `firstGroup?`, `closingPosition?`, `wrapped?`.
* `Part`, `parts?`.
* `dropEmptyGroups`: the text after every `()` has vanished, and those that appear by this.
-/

namespace DiceNotation.Group

/-- The text before and after the `)` that closes the outermost of `depth` open groups. -/
def cutClose (depth : Nat) : Text → Option (Text × Text)
  | [] => none
  | '(' :: t => (cutClose (depth + 1) t).map fun cut => ('(' :: cut.1, cut.2)
  | ')' :: t =>
    if depth ≤ 1 then some ([], t)
    else (cutClose (depth - 1) t).map fun cut => (')' :: cut.1, cut.2)
  | c :: t => (cutClose depth t).map fun cut => (c :: cut.1, cut.2)

/-- The inside of a group, the `)` that closes it and what follows make up the text. -/
theorem eq_append_of_cutClose {depth : Nat} {t a b : Text} (h : cutClose depth t = some (a, b)) :
    t = a ++ ')' :: b := by
  fun_induction cutClose depth t generalizing a b with
  | case1 => exact absurd h (by simp)
  | case2 depth t ih =>
    obtain ⟨⟨x, y⟩, hcut, heq⟩ := Option.map_eq_some_iff.mp h
    cases heq
    rw [ih hcut, List.cons_append]
  | case3 depth t hd => cases h; rfl
  | case4 depth t hd ih =>
    obtain ⟨⟨x, y⟩, hcut, heq⟩ := Option.map_eq_some_iff.mp h
    cases heq
    rw [ih hcut, List.cons_append]
  | case5 depth c t _ _ ih =>
    obtain ⟨⟨x, y⟩, hcut, heq⟩ := Option.map_eq_some_iff.mp h
    cases heq
    rw [ih hcut, List.cons_append]

/-- What follows a group is shorter than the text from its start. -/
theorem length_cutClose_lt {depth : Nat} {t a b : Text} (h : cutClose depth t = some (a, b)) :
    b.length < t.length := by
  rw [eq_append_of_cutClose h, List.length_append, List.length_cons]
  omega

/-- The text from a byte position on. -/
def dropBytes : Nat → Text → Text
  | 0, t => t
  | _ + 1, [] => []
  | n + 1, c :: t => dropBytes (n + 1 - c.utf8Size) t

/-- The position of the `)` that closes the group which starts at the position `start`. -/
def closingPosition? (t : Text) (start : Nat) : Except RollError Nat :=
  match cutClose 0 (dropBytes start t) with
  | some (inner, _) => .ok (start + Text.byteLength inner)
  | none => .error (.unmatched .opening start)

/-- The inside of the first group of a text. -/
def firstGroup? (t : Text) : Except RollError Text :=
  match Text.cutFirst (· == '(') t with
  | none => .error .noGroup
  | some (before, after) =>
    match Text.cutFirst (· == ')') before with
    | some (plain, _) => .error (.unmatched .closing (Text.byteLength plain))
    | none =>
      match cutClose 1 after with
      | some (inner, _) => .ok inner
      | none => .error (.unmatched .opening (Text.byteLength before))

/-- The inside of a text that is one group and nothing else. -/
def wrapped? : Text → Option Text
  | '(' :: t =>
    match cutClose 1 t with
    | some (inner, []) => some inner
    | _ => none
  | _ => none

/-- A stretch of a text. -/
inductive Part where
  /-- Text without parentheses. -/
  | plain (t : Text)
  /-- A group, by its inside. -/
  | group (inner : Text)
  deriving DecidableEq, Repr

/-- The text of a part. -/
def Part.text : Part → Text
  | .plain t => t
  | .group inner => '(' :: inner ++ [')']

/-- A plain part, or none if it were empty. -/
def plainPart (t : Text) : List Part := if t.isEmpty then [] else [.plain t]

theorem flatMap_text_plainPart (t : Text) : (plainPart t).flatMap Part.text = t := by
  cases t <;> simp [plainPart, Part.text]

/-- Whether a character is no parenthesis. -/
def isPlain (c : Char) : Bool := c != '(' && c != ')'

theorem isPlain_iff {c : Char} : isPlain c = true ↔ c ≠ '(' ∧ c ≠ ')' := by
  rw [isPlain, Bool.and_eq_true, bne_iff_ne, bne_iff_ne]

/-- The parts of a text that starts at a position. -/
def partsFrom? (position : Nat) (t : Text) : Except RollError (List Part) :=
  let plain := t.takeWhile isPlain
  let start := position + Text.byteLength plain
  match _h : t.dropWhile isPlain with
  | [] => .ok (plainPart plain)
  | c :: rest =>
    if c = ')' then .error (.unmatched .closing start)
    else
      match _hc : cutClose 1 rest with
      | none => .error (.unmatched .opening start)
      | some (inner, after) => do
        let parts ← partsFrom? (start + Text.byteLength inner + 2) after
        return plainPart plain ++ .group inner :: parts
termination_by t.length
decreasing_by
  have h₁ := length_cutClose_lt _hc
  have h₂ := (List.dropWhile_suffix isPlain (l := t)).length_le
  rw [_h, List.length_cons] at h₂
  omega

/-- The plain stretches and groups of a text in order. -/
def parts? (t : Text) : Except RollError (List Part) := partsFrom? 0 t

/-- Moves a text onto the characters kept so far, the latest first, where a `)` removes the `(` that
it follows. -/
def keepGroups (kept : Text) : Text → Text
  | [] => kept.reverse
  | c :: t =>
    match c, kept with
    | ')', '(' :: kept => keepGroups kept t
    | c, kept => keepGroups (c :: kept) t

/-- The text without empty groups. -/
def dropEmptyGroups (t : Text) : Text := keepGroups [] t

@[simp] theorem dropEmptyGroups_nil : dropEmptyGroups [] = [] := rfl

end DiceNotation.Group
