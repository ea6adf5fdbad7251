import DiceNotation.Error
import DiceNotation.Text.Blank
import DiceNotation.Text.Name

/-!
# Defines

A define is a name that stands for text.  The table of defines is kept in ascending order of the
names, by their code points, so that two tables with the same entries are equal and are listed in
the same way.  The order is part of the type, and `insert` and `erase` keep it.

## Assignments

Defines can be written as `name = value` or `name: value`, one after another with semicolons or
line ends between them.  Blanks around names and values do not count, and a value goes on to the
end of its part, so it can hold commas as lists of ranks do.  Either all of the assignments take
effect or none does.

* `Defines.get?`, `Defines.insert`, `Defines.erase`, with `get?_insert_self` and
  `get?_insert_of_ne`.
* `Defines.assign`: the table after the assignments of a text.
-/

namespace DiceNotation

/-- Names with the text they stand for, in ascending order of the names. -/
structure Defines where
  entries : List (Text × Text)
  ascending : entries.Pairwise fun a b => a.1 < b.1

namespace Defines

instance : DecidableEq Defines := fun a b =>
  if h : a.entries = b.entries then isTrue (by cases a; cases b; cases h; rfl)
  else isFalse fun he => h (by rw [he])

/-- Of two different names one comes before the other. -/
theorem lt_of_not_lt_of_ne {a b : Text} (h : ¬a < b) (hne : a ≠ b) : b < a := by
  rcases List.le_iff_lt_or_eq.mp (List.not_lt.mp h) with h | h
  · exact h
  · exact absurd h.symm hne

/-- Puts an entry in its place, where it replaces one of the same name. -/
def insertEntry (name value : Text) : List (Text × Text) → List (Text × Text)
  | [] => [(name, value)]
  | e :: es =>
    if name < e.1 then (name, value) :: e :: es
    else if name = e.1 then (name, value) :: es
    else e :: insertEntry name value es

/-- The names after an insertion are the new one and those before. -/
theorem mem_insertEntry {name value : Text} {x : Text × Text} :
    ∀ {es : List (Text × Text)}, x ∈ insertEntry name value es → x = (name, value) ∨ x ∈ es
  | [], h => Or.inl (List.mem_singleton.mp h)
  | e :: es, h => by
    unfold insertEntry at h
    split at h
    · exact List.mem_cons.mp h
    · split at h
      · rcases List.mem_cons.mp h with h | h
        · exact Or.inl h
        · exact Or.inr (List.mem_cons_of_mem e h)
      · rcases List.mem_cons.mp h with h | h
        · exact Or.inr (h ▸ List.mem_cons_self)
        · rcases mem_insertEntry h with h | h
          · exact Or.inl h
          · exact Or.inr (List.mem_cons_of_mem e h)

/-- Insertion keeps the order. -/
theorem ascending_insertEntry (name value : Text) :
    ∀ {es : List (Text × Text)}, es.Pairwise (fun a b => a.1 < b.1) →
      (insertEntry name value es).Pairwise fun a b => a.1 < b.1
  | [], _ => List.pairwise_singleton _ _
  | e :: es, h => by
    obtain ⟨hfirst, hrest⟩ := List.pairwise_cons.mp h
    unfold insertEntry
    split
    · next hlt =>
      refine List.pairwise_cons.mpr ⟨fun x hx => ?_, h⟩
      rcases List.mem_cons.mp hx with rfl | hx
      · exact hlt
      · exact List.lt_trans hlt (hfirst x hx)
    · next hlt =>
      split
      · next heq => exact List.pairwise_cons.mpr ⟨fun x hx => heq ▸ hfirst x hx, hrest⟩
      · next hne =>
        refine List.pairwise_cons.mpr ⟨fun x hx => ?_, ascending_insertEntry name value hrest⟩
        rcases mem_insertEntry hx with rfl | hx
        · exact lt_of_not_lt_of_ne hlt hne
        · exact hfirst x hx

/-- The table without entries. -/
def empty : Defines := ⟨[], List.Pairwise.nil⟩

/-- The text that a name stands for. -/
def get? (d : Defines) (name : Text) : Option Text :=
  (d.entries.find? fun e => e.1 = name).map Prod.snd

/-- Whether a name stands for something. -/
def contains (d : Defines) (name : Text) : Bool := (d.get? name).isSome

/-- The table in which the name stands for the value. -/
def insert (d : Defines) (name value : Text) : Defines :=
  ⟨insertEntry name value d.entries, ascending_insertEntry name value d.ascending⟩

/-- The table in which the name stands for nothing. -/
def erase (d : Defines) (name : Text) : Defines :=
  ⟨d.entries.filter fun e => e.1 ≠ name, d.ascending.filter _⟩

/-- The table after insertions in order. -/
def insertAll (d : Defines) (pairs : List (Text × Text)) : Defines :=
  pairs.foldl (fun d pair => d.insert pair.1 pair.2) d

/-- The table of some pairs, of which the last counts for every name. -/
def ofList (pairs : List (Text × Text)) : Defines := empty.insertAll pairs

/-- How many names stand for something. -/
def size (d : Defines) : Nat := d.entries.length

@[simp] theorem get?_empty (name : Text) : empty.get? name = none := rfl

/-- A name that was inserted stands for the new value. -/
theorem get?_insert_self (d : Defines) (name value : Text) :
    (d.insert name value).get? name = some value := by
  obtain ⟨es, h⟩ := d
  show ((insertEntry name value es).find? _).map Prod.snd = _
  clear h
  induction es with
  | nil => simp [insertEntry]
  | cons e es ih =>
    unfold insertEntry
    split
    · simp
    · split
      · simp
      · next hne => rw [List.find?_cons_of_neg (by simpa using Ne.symm hne), ih]

/-- Other names stand for what they stood for. -/
theorem get?_insert_of_ne (d : Defines) {name other : Text} (value : Text) (h : other ≠ name) :
    (d.insert name value).get? other = d.get? other := by
  obtain ⟨es, hes⟩ := d
  show ((insertEntry name value es).find? _).map Prod.snd = (es.find? _).map Prod.snd
  clear hes
  induction es with
  | nil => simp [insertEntry, Ne.symm h]
  | cons e es ih =>
    unfold insertEntry
    split
    · rw [List.find?_cons_of_neg (by simpa using Ne.symm h)]
    · split
      · next heq =>
        rw [List.find?_cons_of_neg (by simpa using Ne.symm h),
          List.find?_cons_of_neg (by simpa [← heq] using Ne.symm h)]
      · by_cases he : e.1 = other
        · rw [List.find?_cons_of_pos (by simpa using he),
            List.find?_cons_of_pos (by simpa using he)]
        · rw [List.find?_cons_of_neg (by simpa using he),
            List.find?_cons_of_neg (by simpa using he), ih]

/-- The name and the value of an assignment. -/
def assignment? (part : Text) : Option (Text × Text) :=
  let part := Text.trimStart part
  let name := part.takeWhile Text.isNameChar
  if Text.isName name then
    match Text.trimStart (part.drop name.length) with
    | '=' :: value => some (name, Text.trim value)
    | ':' :: value => some (name, Text.trim value)
    | _ => none
  else none

/-- The assignments of the parts that are not blank. -/
def assignmentsOf? : List Text → Except RollError (List (Text × Text))
  | [] => .ok []
  | part :: parts =>
    if Text.isAllBlank part then assignmentsOf? parts
    else
      match assignment? part with
      | none => .error (.malformedAssignment (Text.trim part))
      | some pair => do
        let pairs ← assignmentsOf? parts
        return pair :: pairs

/-- The assignments of a text. -/
def assignments? (body : Text) : Except RollError (List (Text × Text)) :=
  assignmentsOf? (Text.pieces (fun c => c == ';' || c == '\n') body)

/-- The table after the assignments of a text, and how many these are. -/
def assign (d : Defines) (body : Text) : Except RollError (Defines × Nat) := do
  let pairs ← assignments? body
  return (d.insertAll pairs, pairs.length)

end Defines

end DiceNotation
