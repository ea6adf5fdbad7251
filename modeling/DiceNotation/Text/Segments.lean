import DiceNotation.Text.Basic

/-!
# The segments of a text

A request asks for several rolls at once by writing semicolons between them.  A semicolon between
two ampersands belongs to a trigger and divides nothing, so that a trigger can hold assignments.

An ampersand without a partner starts a trigger that never ends, and everything after it is one
segment.  The segments with semicolons between them are the text again (`join_segments`).
-/

namespace DiceNotation.Text

/-- The stretches of a text between the semicolons outside of triggers; the flag says whether the
text starts inside of one. -/
def segmentsFrom (inTrigger : Bool) : Text → List Text
  | [] => [[]]
  | c :: t =>
    if c = ';' ∧ inTrigger = false then [] :: segmentsFrom false t
    else
      match segmentsFrom (inTrigger != (c == '&')) t with
      | [] => [[c]]
      | s :: ss => (c :: s) :: ss

/-- The segments of a text. -/
def segments (t : Text) : List Text := segmentsFrom false t

/-- Even the empty text has a segment. -/
theorem segmentsFrom_ne_nil (inTrigger : Bool) (t : Text) : segmentsFrom inTrigger t ≠ [] := by
  cases t with
  | nil => exact List.cons_ne_nil _ _
  | cons c t =>
    unfold segmentsFrom
    split
    · exact List.cons_ne_nil _ _
    · split <;> exact List.cons_ne_nil _ _

/-- A character before the first of some texts is a character before their join. -/
theorem join_cons_cons (sep c : Char) (t : Text) (ts : List Text) :
    join sep ((c :: t) :: ts) = c :: join sep (t :: ts) := by
  cases ts <;> rfl

theorem join_segmentsFrom (inTrigger : Bool) (t : Text) :
    join ';' (segmentsFrom inTrigger t) = t := by
  induction t generalizing inTrigger with
  | nil => rfl
  | cons c t ih =>
    unfold segmentsFrom
    split
    · next h =>
      have ht := ih false
      cases hs : segmentsFrom false t with
      | nil => exact absurd hs (segmentsFrom_ne_nil false t)
      | cons s ss =>
        rw [hs] at ht
        show [] ++ ';' :: join ';' (s :: ss) = c :: t
        rw [ht, h.1, List.nil_append]
    · have ht := ih (inTrigger != (c == '&'))
      cases hs : segmentsFrom (inTrigger != (c == '&')) t with
      | nil => exact absurd hs (segmentsFrom_ne_nil _ t)
      | cons s ss =>
        rw [hs] at ht
        show join ';' ((c :: s) :: ss) = c :: t
        rw [join_cons_cons, ht]

/-- The segments with semicolons between them are the text. -/
theorem join_segments (t : Text) : join ';' (segments t) = t := join_segmentsFrom false t

end DiceNotation.Text
