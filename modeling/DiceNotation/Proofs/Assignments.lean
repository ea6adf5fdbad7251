import DiceNotation.Proofs.Blanks
import DiceNotation.Proofs.Coupling.Firing
import DiceNotation.Proofs.PlainText
import DiceNotation.Roller.Stepping
import DiceNotation.Session.Pipeline

/-!
# Texts of assignments

A text of assignments is cut at its semicolons and line ends, and every part is blank or an
assignment: a name, a sign and a value, with blanks around the three.  Here such texts are described
as they are written, without reading them, and reading turns out to find what was written: the
values come back as they are, with equals signs, colons and commas in them and with the blanks
inside of them.

## All or nothing

The parts are read before anything is set.  So a part that is neither blank nor an assignment leaves
the table as it is, wherever it stands, and the error quotes the first such part.

* `Assigns`, `assignment?_of_assigns`, `assigns_of_assignment?`: one assignment.
* `Written`, `assignments?_eq_ok_iff`: texts of assignments.
* `exists_of_assignments?_error`: the part that is named in the error.
* `get?_insertAll`, `get?_insertAll_of_not_mem`: what names stand for afterwards.
* `assignments_are_read_as_written`.
-/

namespace DiceNotation

namespace Text

/-- A text without blanks at its ends. -/
def IsTrimmed (t : Text) : Prop :=
  (∀ c ∈ t.head?, isBlank c = false) ∧ ∀ c ∈ t.getLast?, isBlank c = false

theorem isTrimmed_trim (t : Text) : IsTrimmed (trim t) :=
  ⟨fun _ hc => not_blank_of_head?_trim hc, fun _ hc => not_blank_of_getLast?_trimEnd hc⟩

/-- No character of a name is a blank. -/
theorem not_isBlank_of_isNameChar {c : Char} (h : isNameChar c = true) : isBlank c = false := by
  rw [Bool.eq_false_iff]
  intro hblank
  have hname : isNameChar c = false :=
    forall_of_isBlank (p := fun c => isNameChar c = false) (by decide) hblank
  exact Bool.false_ne_true (hname.symm.trans h)

theorem isNameChar_of_mem_isName {t : Text} (h : isName t = true) {c : Char} (hc : c ∈ t) :
    isNameChar c = true := by
  cases t with
  | nil => exact absurd hc List.not_mem_nil
  | cons d t =>
    rw [isName_cons, Bool.and_eq_true, List.all_eq_true] at h
    rcases List.mem_cons.mp hc with rfl | hc
    · exact isNameChar_of_isNameStart h.1
    · exact h.2 c hc

/-- The first piece of a text is followed by a separator and the other pieces, or it is all. -/
theorem cases_of_pieces {p : Char → Bool} {t w : Text} {ws : List Text}
    (h : pieces p t = w :: ws) :
    (∀ c ∈ w, p c = false) ∧
      (ws = [] ∧ t = w ∨ ∃ sep rest, p sep = true ∧ t = w ++ sep :: rest ∧ pieces p rest = ws) := by
  induction t generalizing w with
  | nil =>
    obtain ⟨rfl, rfl⟩ := List.cons.inj h
    exact ⟨List.forall_mem_nil _, Or.inl ⟨rfl, rfl⟩⟩
  | cons c t ih =>
    rw [pieces] at h
    split at h
    · next hc =>
      obtain ⟨rfl, rfl⟩ := List.cons.inj h
      exact ⟨List.forall_mem_nil _, Or.inr ⟨c, t, hc, rfl, rfl⟩⟩
    · next hc =>
      have hc : p c = false := Bool.eq_false_iff.mpr hc
      split at h
      · next hnil => exact absurd (length_pieces_pos p t) (by rw [hnil]; exact Nat.lt_irrefl 0)
      · next v vs hpieces =>
        obtain ⟨rfl, rfl⟩ := List.cons.inj h
        obtain ⟨hplain, hrest⟩ := ih hpieces
        refine ⟨List.forall_mem_cons.mpr ⟨hc, hplain⟩, ?_⟩
        rcases hrest with ⟨hnil, rfl⟩ | ⟨sep, rest, hsep, rfl, hrest⟩
        · exact Or.inl ⟨hnil, rfl⟩
        · exact Or.inr ⟨sep, rest, hsep, rfl, hrest⟩

end Text

namespace Defines

open Text

/-! ## One assignment -/

/-- Whether a character ends a part. -/
def isSeparator (c : Char) : Bool := c == ';' || c == '\n'

/-- Blanks that end no part, such as spaces and tabs. -/
def IsGap (g : Text) : Prop := ∀ c ∈ g, isBlank c = true ∧ isSeparator c = false

/-- A name, a sign and a value, with blanks around the three.  The value has no blank at its ends
and nothing in it that would end the part. -/
inductive Assigns : Text → Text × Text → Prop
  | written {g₁ name g₂ g₃ value g₄ : Text} {sign : Char} (hname : isName name = true)
      (hsign : sign = '=' ∨ sign = ':') (hvalue : IsTrimmed value)
      (hplain : ∀ c ∈ value, isSeparator c = false)
      (h₁ : IsGap g₁) (h₂ : IsGap g₂) (h₃ : IsGap g₃) (h₄ : IsGap g₄) :
      Assigns (g₁ ++ (name ++ (g₂ ++ sign :: (g₃ ++ (value ++ g₄))))) (name, value)

variable {part : Text} {pair : Text × Text}

/-- Reading drops the blanks around the three parts of an assignment. -/
theorem assignment?_of_assigns (h : Assigns part pair) : assignment? part = some pair := by
  cases h with
  | @written g₁ name g₂ g₃ value g₄ sign hname hsign hvalue _ h₁ h₂ h₃ h₄ =>
    have hchars := fun c => isNameChar_of_mem_isName (c := c) hname
    have hne : name ≠ [] := by
      rintro rfl
      exact nomatch hname
    have hsign' : isBlank sign = false ∧ isNameChar sign = false := by
      rcases hsign with rfl | rfl
      · exact ⟨by decide, by decide⟩
      · exact ⟨by decide, by decide⟩
    -- what stands after the name cannot go on with it
    have hafter : ∀ c ∈ (g₂ ++ sign :: (g₃ ++ (value ++ g₄))).head?, isNameChar c = false := by
      intro c hc
      cases g₂ with
      | nil =>
        obtain rfl := Option.some.inj hc
        exact hsign'.2
      | cons d g₂ =>
        obtain rfl := Option.some.inj hc
        rw [Bool.eq_false_iff]
        intro hchar
        exact nomatch (h₂ _ List.mem_cons_self).1.symm.trans (not_isBlank_of_isNameChar hchar)
    have hstart : trimStart (g₁ ++ (name ++ (g₂ ++ sign :: (g₃ ++ (value ++ g₄))))) =
        name ++ (g₂ ++ sign :: (g₃ ++ (value ++ g₄))) := by
      refine trimStart_blanks_append (fun c hc => (h₁ c hc).1) fun c hc => ?_
      rw [List.head?_append_of_ne_nil _ hne] at hc
      exact not_isBlank_of_isNameChar (hchars c (List.mem_of_head? hc))
    have hsplit : trimStart (g₂ ++ sign :: (g₃ ++ (value ++ g₄))) =
        sign :: (g₃ ++ (value ++ g₄)) := by
      refine trimStart_blanks_append (fun c hc => (h₂ c hc).1) fun c hc => ?_
      obtain rfl := Option.some.inj hc
      exact hsign'.1
    have htrim : trim (g₃ ++ (value ++ g₄)) = value :=
      trim_between_blanks (fun c hc => (h₃ c hc).1) (fun c hc => (h₄ c hc).1) hvalue.1 hvalue.2
    unfold assignment?
    rw [hstart]
    dsimp only
    rw [(takeWhile_dropWhile_append hchars hafter).1, if_pos hname, List.drop_left, hsplit]
    rcases hsign with rfl | rfl <;> exact congrArg (fun value => some (name, value)) htrim

theorem assigns_of_assignment? (hplain : ∀ c ∈ part, isSeparator c = false)
    (h : assignment? part = some pair) : Assigns part pair := by
  unfold assignment? at h
  dsimp only at h
  -- a part is blanks, the name, blanks, and the rest from the sign on
  have hfront : part = part.takeWhile isBlank ++ trimStart part :=
    List.takeWhile_append_dropWhile.symm
  have hsplit : trimStart part = (trimStart part).takeWhile isNameChar ++
      (trimStart part).dropWhile isNameChar := List.takeWhile_append_dropWhile.symm
  generalize (trimStart part).takeWhile isNameChar = name at h hsplit
  generalize (trimStart part).dropWhile isNameChar = rest at hsplit
  rw [hsplit, List.drop_left] at h
  rw [hsplit] at hfront
  have hmiddle : rest = rest.takeWhile isBlank ++ trimStart rest :=
    List.takeWhile_append_dropWhile.symm
  have hblank : ∀ u : Text, ∀ c ∈ u.takeWhile isBlank, isBlank c = true :=
    fun _ _ hc => List.mem_takeWhile_imp hc
  have hassigns : ∀ sign value, isName name = true → (sign = '=' ∨ sign = ':') →
      trimStart rest = sign :: value → Assigns part (name, trim value) := by
    intro sign value hname hsign hvalue
    obtain ⟨g₃, g₄, heq, h₃, h₄⟩ := exists_eq_append_trim value
    have hpart : part = part.takeWhile isBlank ++ (name ++ (rest.takeWhile isBlank ++
        sign :: (g₃ ++ (trim value ++ g₄)))) := by
      rw [← heq, ← hvalue, ← hmiddle]
      exact hfront
    have hin : ∀ c, c ∈ part.takeWhile isBlank ∨ c ∈ rest.takeWhile isBlank ∨ c ∈ g₃ ∨
        c ∈ trim value ∨ c ∈ g₄ → isSeparator c = false := by
      intro c hc
      refine hplain c ?_
      rw [hpart]
      simp only [List.mem_append, List.mem_cons]
      tauto
    rw [hpart]
    exact .written hname hsign (isTrimmed_trim value) (fun c hc => hin c (by tauto))
      (fun c hc => ⟨hblank _ c hc, hin c (Or.inl hc)⟩)
      (fun c hc => ⟨hblank _ c hc, hin c (Or.inr (Or.inl hc))⟩)
      (fun c hc => ⟨h₃ c hc, hin c (by tauto)⟩) fun c hc => ⟨h₄ c hc, hin c (by tauto)⟩
  split at h
  · next hname =>
    split at h
    · next value hvalue =>
      obtain rfl := Option.some.inj h
      exact hassigns '=' value hname (Or.inl rfl) hvalue
    · next value hvalue =>
      obtain rfl := Option.some.inj h
      exact hassigns ':' value hname (Or.inr rfl) hvalue
    · exact nomatch h
  · exact nomatch h

/-- An assignment has a name, and so it is not blank. -/
theorem Assigns.not_isAllBlank (h : Assigns part pair) : isAllBlank part = false := by
  cases h with
  | @written g₁ name g₂ g₃ value g₄ sign hname =>
    cases name with
    | nil => exact nomatch hname
    | cons c name =>
      refine List.all_eq_false.mpr ⟨c, by simp, ?_⟩
      rw [not_isBlank_of_isNameChar (isNameChar_of_mem_isName hname List.mem_cons_self)]
      exact Bool.false_ne_true

theorem Assigns.no_separator (h : Assigns part pair) : ∀ c ∈ part, isSeparator c = false := by
  cases h with
  | @written g₁ name g₂ g₃ value g₄ sign hname hsign _ hplain h₁ h₂ h₃ h₄ =>
    have hchars : ∀ c ∈ name, isSeparator c = false := by
      intro c hc
      rw [Bool.eq_false_iff]
      intro hsep
      have hchar := isNameChar_of_mem_isName hname hc
      rw [isSeparator, Bool.or_eq_true, beq_iff_eq, beq_iff_eq] at hsep
      rcases hsep with rfl | rfl <;> exact absurd hchar (by decide)
    have hsign' : isSeparator sign = false := by
      rcases hsign with rfl | rfl <;> decide
    intro c hc
    simp only [List.mem_append, List.mem_cons] at hc
    rcases hc with hc | hc | hc | rfl | hc | hc | hc
    · exact (h₁ c hc).2
    · exact hchars c hc
    · exact (h₂ c hc).2
    · exact hsign'
    · exact (h₃ c hc).2
    · exact hplain c hc
    · exact (h₄ c hc).2

/-! ## Texts of assignments -/

/-- What a part assigns: nothing if it is blank, or one value to a name. -/
inductive Contributes : Text → List (Text × Text) → Prop
  | blank {part : Text} (h : IsGap part) : Contributes part []
  | assignment {part : Text} {pair : Text × Text} (h : Assigns part pair) : Contributes part [pair]

/-- A text of assignments: parts with a separator between each two. -/
inductive Written : Text → List (Text × Text) → Prop
  | last {part : Text} {pairs : List (Text × Text)} (hpart : Contributes part pairs) :
      Written part pairs
  | more {part rest : Text} {sep : Char} {pairs later : List (Text × Text)}
      (hpart : Contributes part pairs) (hsep : isSeparator sep = true)
      (hrest : Written rest later) : Written (part ++ sep :: rest) (pairs ++ later)

variable {parts : List Text} {pairs : List (Text × Text)} {body : Text}

theorem assignments?_eq (body : Text) :
    assignments? body = assignmentsOf? (pieces isSeparator body) := rfl

theorem Contributes.no_separator (h : Contributes part pairs) :
    ∀ c ∈ part, isSeparator c = false := by
  cases h with
  | blank h => exact fun c hc => (h c hc).2
  | assignment h => exact h.no_separator

theorem Contributes.assignmentsOf?_cons (h : Contributes part pairs) (parts : List Text) :
    assignmentsOf? (part :: parts) = (assignmentsOf? parts).map (pairs ++ ·) := by
  rw [assignmentsOf?]
  cases h with
  | blank h =>
    have hblank : isAllBlank part = true := List.all_eq_true.mpr fun c hc => (h c hc).1
    rw [if_pos hblank]
    cases assignmentsOf? parts <;> rfl
  | assignment h =>
    rw [if_neg (by rw [h.not_isAllBlank]; exact Bool.false_ne_true), assignment?_of_assigns h]
    cases assignmentsOf? parts <;> rfl

/-- A part that contributes nothing fails with itself. -/
theorem cases_of_part (hplain : ∀ c ∈ part, isSeparator c = false) :
    (∃ pairs, Contributes part pairs) ∨ (∀ pairs, ¬Contributes part pairs) ∧
      ∀ parts, assignmentsOf? (part :: parts) = .error (.malformedAssignment (trim part)) := by
  by_cases hblank : isAllBlank part = true
  · have hall := List.all_eq_true.mp hblank
    exact Or.inl ⟨[], .blank fun c hc => ⟨hall c hc, hplain c hc⟩⟩
  cases hpair : assignment? part with
  | some pair => exact Or.inl ⟨[pair], .assignment (assigns_of_assignment? hplain hpair)⟩
  | none =>
    refine Or.inr ⟨?_, fun parts => ?_⟩
    · rintro _ (h | h)
      · exact hblank (List.all_eq_true.mpr fun c hc => (h c hc).1)
      · rw [assignment?_of_assigns h] at hpair
        exact nomatch hpair
    · rw [assignmentsOf?, if_neg hblank, hpair]

/-- **What was written is what is read.** -/
theorem assignments?_of_written (h : Written body pairs) : assignments? body = .ok pairs := by
  rw [assignments?_eq]
  induction h with
  | last hpart =>
    rw [pieces_of_forall_not hpart.no_separator, hpart.assignmentsOf?_cons, assignmentsOf?]
    exact congrArg Except.ok (List.append_nil _)
  | more hpart hsep _ ih =>
    rw [pieces_append_cons hsep _ hpart.no_separator, hpart.assignmentsOf?_cons, ih]
    rfl

theorem written_of_assignmentsOf? (hbody : pieces isSeparator body = parts)
    (h : assignmentsOf? parts = .ok pairs) : Written body pairs := by
  induction parts generalizing body pairs with
  | nil =>
    have hpos := length_pieces_pos isSeparator body
    rw [hbody] at hpos
    exact absurd hpos (Nat.lt_irrefl 0)
  | cons part parts ih =>
    obtain ⟨hplain, hbody⟩ := cases_of_pieces hbody
    rcases cases_of_part hplain with ⟨first, hfirst⟩ | ⟨-, herror⟩
    · rw [hfirst.assignmentsOf?_cons] at h
      cases hlater : assignmentsOf? parts with
      | error e =>
        rw [hlater] at h
        exact nomatch h
      | ok later =>
        rw [hlater] at h
        obtain rfl : first ++ later = pairs := Except.ok.inj h
        rcases hbody with ⟨rfl, rfl⟩ | ⟨sep, rest, hsep, rfl, hrest⟩
        · obtain rfl : [] = later := Except.ok.inj hlater
          rw [List.append_nil]
          exact .last hfirst
        · exact .more hfirst hsep (ih hrest hlater)
    · rw [herror] at h
      exact nomatch h

/-- **Texts of assignments are those that are read**, and with the pairs that were written. -/
theorem assignments?_eq_ok_iff : assignments? body = .ok pairs ↔ Written body pairs :=
  ⟨written_of_assignmentsOf? rfl, assignments?_of_written⟩

/-- **The error names the first part that is neither blank nor an assignment.** -/
theorem exists_of_assignmentsOf?_error {e : RollError}
    (hplain : ∀ p ∈ parts, ∀ c ∈ p, isSeparator c = false) (h : assignmentsOf? parts = .error e) :
    ∃ before part after, parts = before ++ part :: after ∧
      (∀ p ∈ before, ∃ pairs, Contributes p pairs) ∧ (∀ pairs, ¬Contributes part pairs) ∧
      e = .malformedAssignment (trim part) := by
  induction parts with
  | nil => exact nomatch h
  | cons part parts ih =>
    obtain ⟨hpart, hparts⟩ := List.forall_mem_cons.mp hplain
    rcases cases_of_part hpart with ⟨first, hfirst⟩ | ⟨hbad, herror⟩
    · rw [hfirst.assignmentsOf?_cons] at h
      cases hlater : assignmentsOf? parts with
      | ok later =>
        rw [hlater] at h
        exact nomatch h
      | error e' =>
        rw [hlater] at h
        obtain rfl : e' = e := Except.error.inj h
        obtain ⟨before, bad, after, rfl, hbefore, hrest⟩ := ih hparts hlater
        exact ⟨part :: before, bad, after, rfl,
          List.forall_mem_cons.mpr ⟨⟨first, hfirst⟩, hbefore⟩, hrest⟩
    · rw [herror] at h
      exact ⟨[], part, parts, rfl, List.forall_mem_nil _, hbad, (Except.error.inj h).symm⟩

/-! ## The table afterwards -/

/-- Other names stand for what they stood for. -/
theorem get?_insertAll_of_not_mem {name : Text} (h : name ∉ pairs.map Prod.fst) (d : Defines) :
    (d.insertAll pairs).get? name = d.get? name := by
  unfold insertAll
  induction pairs generalizing d with
  | nil => rfl
  | cons pair pairs ih =>
    rw [List.map_cons, List.mem_cons, not_or] at h
    rw [List.foldl_cons, ih h.2, get?_insert_of_ne _ _ h.1]

/-- **The last value that is assigned to a name counts.** -/
theorem get?_insertAll {before after : List (Text × Text)} {name : Text}
    (h : name ∉ after.map Prod.fst) (value : Text) (d : Defines) :
    (d.insertAll (before ++ (name, value) :: after)).get? name = some value := by
  have hsplit : d.insertAll (before ++ (name, value) :: after) =
      ((d.insertAll before).insert name value).insertAll after := by
    unfold insertAll
    rw [List.foldl_append, List.foldl_cons]
  rw [hsplit, get?_insertAll_of_not_mem h, get?_insert_self]

/-- Assigning reads all of the text before it changes the table. -/
theorem assign_eq (d : Defines) (body : Text) :
    d.assign body = (assignments? body).map fun pairs => (d.insertAll pairs, pairs.length) := by
  unfold assign
  cases assignments? body <;> rfl

theorem assign_of_written (h : Written body pairs) (d : Defines) :
    d.assign body = .ok (d.insertAll pairs, pairs.length) := by
  rw [assign_eq, assignments?_of_written h]
  rfl

theorem exists_of_assign_eq_ok {d d' : Defines} {n : Nat} (h : d.assign body = .ok (d', n)) :
    ∃ pairs, Written body pairs ∧ d' = d.insertAll pairs ∧ n = pairs.length := by
  rw [assign_eq] at h
  cases hpairs : assignments? body with
  | error e =>
    rw [hpairs] at h
    exact nomatch h
  | ok pairs =>
    rw [hpairs] at h
    obtain ⟨rfl, rfl⟩ := Prod.mk.inj (Except.ok.inj h)
    exact ⟨pairs, assignments?_eq_ok_iff.mp hpairs, rfl, rfl⟩

/-- **The error names the first part that is neither blank nor an assignment.** -/
theorem exists_of_assign_eq_error {d : Defines} {e : RollError} (h : d.assign body = .error e) :
    ∃ before part after, pieces isSeparator body = before ++ part :: after ∧
      (∀ p ∈ before, ∃ pairs, Contributes p pairs) ∧ (∀ pairs, ¬Contributes part pairs) ∧
      e = .malformedAssignment (trim part) := by
  rw [assign_eq] at h
  cases hpairs : assignments? body with
  | error e' =>
    rw [hpairs] at h
    obtain rfl : e' = e := Except.error.inj h
    exact exists_of_assignmentsOf?_error (fun p hp c hc => (mem_of_mem_pieces hp hc).2) hpairs
  | ok pairs =>
    rw [hpairs] at h
    exact nomatch h

end Defines

/-! ## Setting defines -/

section Firing

open Trigger (fire)

variable {ρ : Type} {again : Reentry ρ} {around : Surroundings} {body : Text} {s : Session ρ}

theorem fire_values_of_ok {d : Defines} {n : Nat} (h : s.defines.assign body = .ok (d, n)) :
    fire again (.values body) around s = .ok ([], around) { s with defines := d } := by
  have halone := Coupling.Fair.run_values again body s
  rw [h] at halone
  exact Turn.bind_of_ok _ halone

theorem fire_values_of_error {e : RollError} (h : s.defines.assign body = .error e) :
    fire again (.values body) around s = .error (.failed e) s := by
  have halone := Coupling.Fair.run_values again body s
  rw [h] at halone
  exact Turn.bind_of_error _ halone

open Defines (Contributes Written isSeparator)

/-- **Assignments are read as they are written, all of them or none.**  Texts of assignments have
blank parts and assignments, with a semicolon or a line end between each two.  For a text of
assignments, however it is laid out, the table is the one with the pairs inserted in their order and
the count is their number; afterwards a name stands for the last value that was assigned to it, and
other names for what they stood for.  Any other text fails with its first part that is neither
blank nor an assignment, and a trigger that sets it leaves the whole session as it was. -/
theorem assignments_are_read_as_written (again : Reentry ρ) (d : Defines) (body : Text) :
    (∀ pairs, Written body pairs → d.assign body = .ok (d.insertAll pairs, pairs.length)) ∧
    (∀ d' n, d.assign body = .ok (d', n) →
      ∃ pairs, Written body pairs ∧ d' = d.insertAll pairs ∧ n = pairs.length) ∧
    (∀ before name value after, name ∉ after.map Prod.fst →
      (d.insertAll (before ++ (name, value) :: after)).get? name = some value) ∧
    (∀ pairs name, name ∉ pairs.map Prod.fst → (d.insertAll pairs).get? name = d.get? name) ∧
    (∀ pairs around (s : Session ρ), s.defines = d → Written body pairs →
      fire again (.values body) around s =
        .ok ([], around) { s with defines := d.insertAll pairs }) ∧
    ∀ e, d.assign body = .error e →
      (∃ before part after, Text.pieces isSeparator body = before ++ part :: after ∧
        (∀ p ∈ before, ∃ pairs, Contributes p pairs) ∧ (∀ pairs, ¬Contributes part pairs) ∧
        e = .malformedAssignment (Text.trim part)) ∧
      ∀ around (s : Session ρ), s.defines = d →
        fire again (.values body) around s = .error (.failed e) s := by
  refine ⟨fun pairs h => Defines.assign_of_written h d,
    fun d' n h => Defines.exists_of_assign_eq_ok h,
    fun before name value after h => Defines.get?_insertAll h value d,
    fun pairs name h => Defines.get?_insertAll_of_not_mem h d, ?_, ?_⟩
  · rintro pairs around s rfl h
    exact fire_values_of_ok (Defines.assign_of_written h s.defines)
  · intro e h
    refine ⟨Defines.exists_of_assign_eq_error h, ?_⟩
    rintro around s rfl
    exact fire_values_of_error h

/-- An equals sign, blanks and a comma in a value, a value without characters, and a blank part; the
second assignment to a name counts, and a part without a name undoes the one before it. -/
theorem assignments_are_read_as_written_of_three :
    let s := Session.start {} (Stepping.mk 1 1)
    let body := " x =1, 2@5d10 ; ;y:\tz = 3\nx:".toList
    let pairs := [("x".toList, "1, 2@5d10".toList), ("y".toList, "z = 3".toList), ("x".toList, [])]
    let faulty := "x = 1; = 3".toList
    (Written body pairs ∧ s.defines.assign body = .ok (s.defines.insertAll pairs, 3) ∧
      (s.defines.insertAll pairs).get? "x".toList = some []) ∧
    ∃ e, s.defines.assign faulty = .error e ∧
      ∀ around, fire (reentry 1) (.values faulty) around s = .error (.failed e) s := by
  intro s body pairs faulty
  have hwritten : Written body pairs := Defines.assignments?_eq_ok_iff.mp (by decide +kernel)
  have hfaulty : s.defines.assign faulty = .error (.malformedAssignment "= 3".toList) := by
    decide +kernel
  have hbody := assignments_are_read_as_written (reentry 1 : Reentry Stepping) s.defines body
  have hfails := assignments_are_read_as_written (reentry 1 : Reentry Stepping) s.defines faulty
  exact ⟨⟨hwritten, hbody.1 pairs hwritten,
      hbody.2.2.1 (pairs.take 2) "x".toList [] [] List.not_mem_nil⟩,
    _, hfaulty, fun around => (hfails.2.2.2.2.2 _ hfaulty).2 around s rfl⟩

end Firing

end DiceNotation
