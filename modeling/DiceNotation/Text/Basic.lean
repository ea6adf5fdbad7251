/-!
# Text as characters

Dice codes, names, define values and triggers are all read as lists of characters.  A list is the
form in which a reader can be written by recursion on what it still has to read, and in which
"what was read, followed by what is left, is the text" is an equation about `++`.

Two units of length meet here.  Cutting and counting is done in characters, and only messages
speak of positions: a position is the number of *bytes* that the text before it takes in UTF-8,
which is `byteLength`.

* `byteLength`: the measure of positions, additive over `++`.
* `cutFirst`, `cutLast`: the text before and after the first or last character of a kind.
* `pieces`: the text between the characters of a kind, with `length_pieces_pos`.
* `join`: pieces with a character between each two, the inverse of `pieces` (`pieces_join`).
-/

namespace DiceNotation

/-- The characters of a text in reading order. -/
abbrev Text := List Char

namespace Text

/-- How many bytes the text takes in UTF-8. -/
def byteLength (t : Text) : Nat := t.foldr (fun c n => c.utf8Size + n) 0

@[simp] theorem byteLength_nil : byteLength [] = 0 := rfl

@[simp] theorem byteLength_cons (c : Char) (t : Text) :
    byteLength (c :: t) = c.utf8Size + byteLength t := rfl

@[simp] theorem byteLength_append (t u : Text) :
    byteLength (t ++ u) = byteLength t + byteLength u := by
  induction t with
  | nil => simp
  | cons c t ih => simp [ih, Nat.add_assoc]

/-- A stretch of characters of a kind ends before one that is not of the kind. -/
theorem takeWhile_dropWhile_append {p : Char → Bool} {w t : Text} (hw : ∀ c ∈ w, p c = true)
    (ht : ∀ c ∈ t.head?, p c = false) :
    (w ++ t).takeWhile p = w ∧ (w ++ t).dropWhile p = t := by
  rw [List.takeWhile_append_of_pos hw, List.dropWhile_append_of_pos hw]
  cases t with
  | nil => exact ⟨List.append_nil w, rfl⟩
  | cons c t =>
    have hc : ¬ p c = true := by
      rw [ht c rfl]
      exact Bool.false_ne_true
    rw [List.takeWhile_cons_of_neg hc, List.dropWhile_cons_of_neg hc, List.append_nil]
    exact ⟨rfl, rfl⟩

/-- The text before and after the first character that satisfies `p`, which belongs to neither. -/
def cutFirst (p : Char → Bool) : Text → Option (Text × Text)
  | [] => none
  | c :: t => if p c then some ([], t) else (cutFirst p t).map fun cut => (c :: cut.1, cut.2)

theorem cutFirst_eq_none {p : Char → Bool} {t : Text} (h : ∀ c ∈ t, p c = false) :
    cutFirst p t = none := by
  induction t with
  | nil => rfl
  | cons c t ih =>
    rw [cutFirst, h c List.mem_cons_self, if_neg Bool.false_ne_true,
      ih fun d hd => h d (List.mem_cons_of_mem c hd)]
    rfl

/-- The first character of a kind is found after a text without such characters. -/
theorem cutFirst_append {p : Char → Bool} {t : Text} {c : Char} (ht : ∀ d ∈ t, p d = false)
    (hc : p c = true) (u : Text) : cutFirst p (t ++ c :: u) = some (t, u) := by
  induction t with
  | nil => rw [List.nil_append, cutFirst, if_pos hc]
  | cons d t ih =>
    rw [List.cons_append, cutFirst, ht d List.mem_cons_self, if_neg Bool.false_ne_true,
      ih fun e he => ht e (List.mem_cons_of_mem d he)]
    rfl

/-- The text before and after the last character that satisfies `p`, which belongs to neither. -/
def cutLast (p : Char → Bool) (t : Text) : Option (Text × Text) :=
  (cutFirst p t.reverse).map fun cut => (cut.2.reverse, cut.1.reverse)

/-- The stretches between the characters that satisfy `p`, empty ones included. -/
def pieces (p : Char → Bool) : Text → List Text
  | [] => [[]]
  | c :: t =>
    if p c then [] :: pieces p t
    else match pieces p t with
      | [] => [[c]]
      | w :: ws => (c :: w) :: ws

@[simp] theorem pieces_nil (p : Char → Bool) : pieces p [] = [[]] := rfl

/-- Even the empty text has a piece. -/
theorem length_pieces_pos (p : Char → Bool) : ∀ t : Text, 0 < (pieces p t).length
  | [] => Nat.one_pos
  | c :: t => by
    unfold pieces
    split
    · exact Nat.succ_pos _
    · split <;> exact Nat.succ_pos _

/-- A text without the character is its only piece. -/
theorem pieces_of_forall_not {p : Char → Bool} :
    ∀ {t : Text}, (∀ c ∈ t, p c = false) → pieces p t = [t]
  | [], _ => rfl
  | c :: t, h => by
    have hc : p c = false := h c List.mem_cons_self
    have ht := pieces_of_forall_not (t := t) fun d hd => h d (List.mem_cons_of_mem _ hd)
    rw [pieces, hc, if_neg Bool.false_ne_true, ht]

/-- A separator ends a piece. -/
theorem pieces_append_cons {p : Char → Bool} {sep : Char} (hsep : p sep = true) (u : Text) :
    ∀ {t : Text}, (∀ c ∈ t, p c = false) → pieces p (t ++ sep :: u) = t :: pieces p u
  | [], _ => by rw [List.nil_append, pieces, if_pos hsep]
  | c :: t, h => by
    have hc : p c = false := h c List.mem_cons_self
    have ht := pieces_append_cons hsep u (t := t) fun d hd => h d (List.mem_cons_of_mem _ hd)
    rw [List.cons_append, pieces, hc, if_neg Bool.false_ne_true, ht]

/-- The texts in order, with a separator between each two. -/
def join (sep : Char) : List Text → Text
  | [] => []
  | [t] => t
  | t :: u :: ts => t ++ sep :: join sep (u :: ts)

/-- Texts without the separator are the pieces of their join. -/
theorem pieces_join {sep : Char} :
    ∀ {ts : List Text}, ts ≠ [] → (∀ t ∈ ts, sep ∉ t) → pieces (· == sep) (join sep ts) = ts
  | [], h, _ => absurd rfl h
  | [t], _, h => by
    rw [join]
    refine pieces_of_forall_not fun c hc => ?_
    rw [beq_eq_false_iff_ne]
    rintro rfl
    exact h t List.mem_cons_self hc
  | t :: u :: ts, _, h => by
    rw [join, pieces_append_cons (p := fun c => c == sep) (beq_self_eq_true sep),
      pieces_join (List.cons_ne_nil u ts)]
    · exact fun v hv => h v (List.mem_cons_of_mem _ hv)
    · intro c hc
      rw [beq_eq_false_iff_ne]
      rintro rfl
      exact h t List.mem_cons_self hc

end Text

end DiceNotation
