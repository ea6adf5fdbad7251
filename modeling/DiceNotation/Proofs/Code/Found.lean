import DiceNotation.Proofs.Code.Marks

/-!
# What a rule finds

A part of a code is found by its rule where it fits: where the characters before it and after it
are such that the rule looks there, and goes as far as the part does and no further.  Since the mark
of the rule occurs nowhere else, it finds nothing else (`find_of_fits`).  A rule whose mark does not
occur finds nothing (`find_eq_nil`), and of the two rules for the amount the one finds nothing where
a part of the other stands (`findLiteral_of_count`, `findAmount_of_literal`).

* `Stops`, `EndsWith`, `Leads`, `Placed`, `Fits`: the places for the parts of a rule.
* `stretches_eq_singleton`, `withoutBangs_append`, `rankList?_append`, `amountPlace_append`: how the
  rules look at a code.
* `find_of_fits`, `find_eq_nil`.
-/

namespace DiceNotation.DiceCode

open Text

/-! ## Places -/

/-- No number goes on at the start of a text. -/
def Stops (b : Text) : Prop := ∀ c ∈ b.head?, isDecimalDigit c = false

/-- The last character of a text is of a kind. -/
def EndsWith (p : Char → Bool) (a : Text) : Prop := ∃ c ∈ a.getLast?, p c = true

theorem EndsWith.append {p : Char → Bool} {b : Text} (h : EndsWith p b) (a : Text) :
    EndsWith p (a ++ b) := by
  obtain ⟨c, hc, hp⟩ := h
  refine ⟨c, ?_, hp⟩
  rw [List.getLast?_append_of_ne_nil]
  · exact hc
  · rintro rfl
    exact nomatch hc

theorem endsWith_of_forall {p : Char → Bool} {x : Text} (hne : x ≠ []) (hp : ∀ c ∈ x, p c = true) :
    EndsWith p x :=
  ⟨x.getLast hne, List.getLast?_eq_some_getLast hne, hp _ (List.getLast_mem hne)⟩

theorem endsWith_concat_iff {p : Char → Bool} {a : Text} {c : Char} :
    EndsWith p (a ++ [c]) ↔ p c = true := by
  unfold EndsWith
  rw [List.getLast?_concat]
  exact ⟨fun ⟨d, hd, hp⟩ => Option.some.inj hd ▸ hp, fun hp => ⟨c, rfl, hp⟩⟩

/-- What can be missing does not change what a text ends with. -/
theorem EndsWith.append_right {p : Char → Bool} {a x : Text} (ha : EndsWith p a)
    (hx : x = [] ∨ EndsWith p x) : EndsWith p (a ++ x) := by
  rcases hx with rfl | hx
  · rwa [List.append_nil]
  · exact hx.append a

theorem EndsWith.of_append {p : Char → Bool} {a x : Text} (h : EndsWith p (a ++ x)) :
    (x = [] ∧ EndsWith p a) ∨ EndsWith p x := by
  rcases List.eq_nil_or_concat x with rfl | ⟨x, c, rfl⟩
  · rw [List.append_nil] at h
    exact Or.inl ⟨rfl, h⟩
  · rw [List.concat_eq_append] at h ⊢
    rw [← List.append_assoc, endsWith_concat_iff] at h
    exact Or.inr (endsWith_concat_iff.mpr h)

/-- What can stand before a number of dropped faces, and before the wish to sort. -/
def isTight (c : Char) : Bool := isDecimalDigit c || c == '-'

/-- What can stand before a number of sides. -/
def isLoose (c : Char) : Bool := isDecimalDigit c || isBlank c || c == '-'

theorem EndsWith.isLoose {a : Text} (h : EndsWith isTight a) : EndsWith isLoose a := by
  obtain ⟨c, hc, htight⟩ := h
  refine ⟨c, hc, ?_⟩
  unfold isTight at htight
  unfold DiceCode.isLoose
  rw [Bool.or_eq_true] at htight ⊢
  exact htight.imp_left fun hdigit => by rw [hdigit, Bool.true_or]

theorem endsWith_of_spells {x : Text} {n : Int} (h : Spells x n) : EndsWith isTight x :=
  endsWith_of_forall h.ne_nil (h.forall_mem (by decide))

/-- What can stand before an amount: ranks or nothing, and then blanks. -/
def Leads (a : Text) : Prop :=
  (∀ c ∈ a, isBlank c = true) ∨
    ∃ x g l, a = x ++ g ∧ Writes .selectors x l ∧ ∀ c ∈ g, isBlank c = true

/-- An amount has its place at the start or behind the ranks, and no ranks follow. -/
def Placed (a y : Text) : Prop := '@' ∉ y ∧ Leads a

/-- The ranks end with their mark. -/
theorem Writes.exists_append_at {x : Text} {l : List Setting} (h : Writes .selectors x l) :
    ∃ w, x = w ++ ['@'] := by
  cases h with
  | selectors _ => exact ⟨_, rfl⟩

/-- What stands directly before an amount. -/
theorem Leads.last {a : Text} (h : Leads a) {c : Char} (hc : c ∈ a.getLast?) :
    isBlank c = true ∨ c = '@' := by
  rcases h with hblank | ⟨x, g, l, rfl, hx, hg⟩
  · exact Or.inl (hblank c (List.mem_of_getLast? hc))
  · rcases List.eq_nil_or_concat g with rfl | ⟨g', d, rfl⟩
    · obtain ⟨w, rfl⟩ := hx.exists_append_at
      rw [List.append_nil, List.getLast?_concat] at hc
      exact Or.inr (Option.some.inj hc).symm
    · rw [List.concat_eq_append, ← List.append_assoc, List.getLast?_concat] at hc
      cases hc
      exact Or.inl (hg _ (by simp))

/-- Where the parts of a rule fit, between what is before them and what is after them. -/
def Fits : Rule → Text → Text → Text → Prop
  | .selectors, a, _, _ => a = []
  | .sides, a, _, b => EndsWith isLoose a ∧ Stops b
  | .rerolls, a, _, b => EndsWith isTight a ∧ Stops b
  | .sort, a, _, _ => EndsWith isTight a
  | .amount, a, x, b => Placed a (x ++ b) ∧ Stops b
  | .literal, a, x, b => Placed a (x ++ b) ∧ endsLiteral b = true
  | .suffix, _, _, b => ∀ c ∈ b, c = '!'
  | .threshold, _, _, b => ∀ c ∈ b, c = '!'
  | .explosion, _, _, b => b = []

theorem Fits.placed {r : Rule} {a x b : Text} (h : Fits r a x b) (hr : r.setsAmount = true) :
    Placed a (x ++ b) := by
  cases r with
  | amount => exact h.1
  | literal => exact h.1
  | _ => exact nomatch hr

/-! ## Stretches -/

/-- There are no stretches if none begins at a character of the text. -/
theorem stretches_eq_nil {lead : Char → Bool} {body : Text → Nat} (hnil : body [] = 0) {t : Text}
    (h : ∀ c ∈ t, ∀ rest, body (c :: rest) = 0) (position : Nat) :
    stretches lead body position t = [] := by
  induction t generalizing position with
  | nil => rw [stretches]
  | cons c t ih =>
    have hbody : body t = 0 := by
      cases t with
      | nil => exact hnil
      | cons d t => exact h d (List.mem_cons_of_mem c List.mem_cons_self) t
    rw [stretches, hbody, if_neg, ih fun d hd => h d (List.mem_cons_of_mem c hd)]
    simp

section Stretches

variable {lead : Char → Bool} {body : Text → Nat}

/-- A stretch is found behind characters at which none begins. -/
theorem stretches_append {init t : Text} {e : Char}
    (hinit : ∀ c ∈ init ++ [e], ∀ rest, body (c :: rest) = 0) (he : lead e = true)
    (ht : body t ≠ 0) (n : Nat) :
    stretches lead body n (init ++ e :: t) =
      (n + init.length + 1, t.take (body t)) ::
        stretches lead body (n + init.length + 1 + body t) (t.drop (body t)) := by
  induction init generalizing n with
  | nil =>
    have hfound : (lead e && body t != 0) = true := by
      rw [he, Bool.true_and, bne_iff_ne]
      exact ht
    rw [List.nil_append, stretches, if_pos hfound]
    rfl
  | cons c init ih =>
    have hbody : body (init ++ e :: t) = 0 := by
      cases init with
      | nil => exact hinit e (List.mem_cons_of_mem c List.mem_cons_self) t
      | cons d init => exact hinit d (List.mem_cons_of_mem c List.mem_cons_self) _
    have hnone : ¬ (lead c && body (init ++ e :: t) != 0) = true := by
      rw [hbody]
      simp
    rw [List.cons_append, stretches, if_neg hnone,
      ih (fun d hd => hinit d (List.mem_cons_of_mem c hd)), List.length_cons]
    congr 3 <;> omega

/-- A single stretch is all that is found. -/
theorem stretches_eq_singleton {a x b : Text} (hnil : body [] = 0)
    (ha : ∀ c ∈ a, ∀ rest, body (c :: rest) = 0) (hb : ∀ c ∈ b, ∀ rest, body (c :: rest) = 0)
    (hlead : EndsWith lead a) (hne : x ≠ []) (hx : body (x ++ b) = x.length) :
    stretches lead body 0 (a ++ (x ++ b)) = [(a.length, x)] := by
  obtain ⟨e, he, hleads⟩ := hlead
  obtain ⟨init, rfl⟩ := List.getLast?_eq_some_iff.mp he
  have hbody : body (x ++ b) ≠ 0 := by
    rw [hx]
    exact fun h => hne (List.eq_nil_of_length_eq_zero h)
  rw [List.append_assoc, List.singleton_append, stretches_append ha hleads hbody, hx,
    List.take_left, List.drop_left, stretches_eq_nil hnil hb, List.length_append, Nat.zero_add]
  rfl

end Stretches

theorem sidesLength_eq_zero {c : Char} (h : mark? c ≠ some .sides) (t : Text) :
    sidesLength (c :: t) = 0 := by
  unfold sidesLength
  split
  · next heq =>
    cases heq
    exact absurd rfl h
  · rfl

theorem rerollsLength_eq_zero {c : Char} (h : mark? c ≠ some .rerolls) (t : Text) :
    rerollsLength (c :: t) = 0 := by
  refine if_neg fun hc => ?_
  rw [Bool.or_eq_true, beq_iff_eq, beq_iff_eq] at hc
  rcases hc with rfl | rfl
  · exact h rfl
  · exact h rfl

theorem sortLength_eq_zero {c : Char} (h : mark? c ≠ some .sort) (t : Text) :
    sortLength (c :: t) = 0 := by
  unfold sortLength
  split
  · next heq =>
    cases heq
    exact absurd rfl h
  · rfl

theorem numberLength_append {w b : Text} (hw : Numeral w) (hb : Stops b) (before : Nat) :
    numberLength before (w ++ b) = before + w.length := by
  have hne : ¬ w.isEmpty = true := fun h => hw.ne_nil (List.isEmpty_iff.mp h)
  unfold numberLength
  rw [(hw.digits_append hb).1, if_neg hne]

theorem rerollsLength_append {c : Char} {sign w b : Text} (hc : c = 'r' ∨ c = 'R')
    (hsign : sign = [] ∨ sign = ['+'] ∨ sign = ['-']) (hw : Numeral w) (hb : Stops b) :
    rerollsLength (c :: (sign ++ w) ++ b) = (c :: (sign ++ w)).length := by
  have hmark : (c == 'r' || c == 'R') = true := by
    rcases hc with rfl | rfl
    · rfl
    · rfl
  have hlength := numberLength_append hw hb
  refine (if_pos hmark).trans ?_
  rcases hsign with rfl | rfl | rfl
  · obtain ⟨d, w, rfl⟩ := List.exists_cons_of_ne_nil hw.ne_nil
    have hplus : d ≠ '+' := hw.forall_mem (p := fun c => c ≠ '+') (by decide) d List.mem_cons_self
    have hminus : d ≠ '-' := hw.forall_mem (p := fun c => c ≠ '-') (by decide) d List.mem_cons_self
    split
    · next heq => exact absurd (List.cons.inj heq).1 hplus
    · next heq => exact absurd (List.cons.inj heq).1 hminus
    · show numberLength 1 (d :: w ++ b) = (c :: d :: w).length
      rw [hlength]
      exact Nat.add_comm _ _
  · show numberLength 2 (w ++ b) = (c :: '+' :: w).length
    rw [hlength, List.length_cons, List.length_cons]
    omega
  · show numberLength 2 (w ++ b) = (c :: '-' :: w).length
    rw [hlength, List.length_cons, List.length_cons]
    omega

/-! ## Ends -/

/-- Bangs at the end are told apart from what is before them. -/
theorem withoutBangs_append {a b : Text} (ha : ∀ c ∈ a.getLast?, c ≠ '!') (hb : ∀ c ∈ b, c = '!') :
    withoutBangs (a ++ b) = (a, b.length) := by
  have hbangs : ∀ c ∈ b.reverse, (c == '!') = true := by
    intro c hc
    rw [hb c (List.mem_reverse.mp hc)]
    rfl
  have hdrop : a.reverse.dropWhile (· == '!') = a.reverse := by
    cases hreverse : a.reverse with
    | nil => rfl
    | cons c rest =>
      have hc : c ≠ '!' := by
        refine ha c ?_
        rw [← List.head?_reverse, hreverse]
        rfl
      rw [List.dropWhile_cons_of_neg]
      simpa using hc
  unfold withoutBangs
  rw [List.reverse_append, List.dropWhile_append_of_pos hbangs, hdrop]
  show (a.reverse.reverse, (a ++ b).length - a.reverse.length) = (a, b.length)
  rw [List.reverse_reverse, List.length_append, List.length_reverse, Nat.add_sub_cancel_left]

/-! ## The front -/

theorem isRank_of_spells {x : Text} {n : Int} (h : Spells x n) : isRank x = true := by
  have hall : ∀ {w : Text}, Numeral w → (!w.isEmpty && w.all isDecimalDigit) = true := by
    intro w hw
    rw [Bool.and_eq_true, Bool.not_eq_true', List.isEmpty_eq_false_iff, List.all_eq_true]
    exact ⟨hw.ne_nil, fun c hc => isDecimalDigit_of_isDigit (hw.isDigit c hc)⟩
  rcases h.shape with hx | ⟨w, rfl, hw⟩
  · unfold isRank
    split
    · exact absurd List.mem_cons_self (hx.not_mem (d := '-') (by decide))
    · exact hall hx
  · exact hall hw

/-- Ranks are told apart by their commas, and from what follows by the `@`. -/
theorem rankList?_append {ws : List Text} {first : Int} {others : List Int}
    (h : List.Forall₂ Spells ws (first :: others)) (b : Text) :
    rankList? (join ',' ws ++ ['@'] ++ b) = some (ws, b) := by
  have hne : ws ≠ [] := by
    rintro rfl
    exact nomatch h
  have hat : ∀ c ∈ join ',' ws, (c == '@') = false := by
    intro c hc
    rw [beq_eq_false_iff_ne]
    rintro rfl
    exact nomatch quiet_join h '@' hc
  have hcomma : ∀ w ∈ ws, ',' ∉ w := by
    intro w hw hc
    obtain ⟨n, -, hn⟩ := exists_of_forall₂ h hw
    exact hn.forall_mem (p := fun c => c ≠ ',') (by decide) ',' hc rfl
  have hranks : ws.all isRank = true := by
    rw [List.all_eq_true]
    intro w hw
    obtain ⟨n, -, hn⟩ := exists_of_forall₂ h hw
    exact isRank_of_spells hn
  unfold rankList?
  rw [List.append_assoc, List.singleton_append, cutFirst_append hat rfl]
  show (if (pieces (· == ',') (join ',' ws)).all isRank = true then _ else _) = _
  rw [pieces_join hne hcomma, if_pos hranks]

theorem rankList?_eq_none {code : Text} (h : '@' ∉ code) : rankList? code = none := by
  unfold rankList?
  rw [cutFirst_eq_none fun c hc => ?_]
  rw [beq_eq_false_iff_ne]
  rintro rfl
  exact h hc

/-- The amount is looked for where it has its place. -/
theorem amountPlace_append {a y : Text} (h : Placed a y) (hy : ∀ c ∈ y.head?, isBlank c = false) :
    amountPlace (a ++ y) = y := by
  unfold amountPlace
  rcases h with ⟨hat, hblank | ⟨x, g, l, rfl, hx, hg⟩⟩
  · have hnone : '@' ∉ a ++ y := by
      rw [List.mem_append, not_or]
      exact ⟨fun hmem => absurd (hblank _ hmem) (by decide), hat⟩
    rw [rankList?_eq_none hnone]
    exact trimStart_blanks_append hblank hy
  · cases hx with
    | selectors hws =>
      rw [List.append_assoc, rankList?_append hws]
      exact trimStart_blanks_append hg hy

theorem amountStart_append {a y : Text} (h : Placed a y) (hy : ∀ c ∈ y.head?, isBlank c = false) :
    amountStart (a ++ y) = a.length := by
  unfold amountStart
  rw [amountPlace_append h hy, List.length_append, Nat.add_sub_cancel]

theorem signedDigits_append {x : Text} {n : Int} (h : Spells x n) {b : Text} (hb : Stops b) :
    signedDigits (x ++ b) = x := by
  rcases h.shape with hx | ⟨w, rfl, hw⟩
  · obtain ⟨c, t, rfl⟩ := List.exists_cons_of_ne_nil hx.ne_nil
    have hminus : c ≠ '-' := hx.forall_mem (p := fun c => c ≠ '-') (by decide) c List.mem_cons_self
    unfold signedDigits
    split
    · next heq => exact absurd (List.cons.inj heq).1 hminus
    · exact (hx.digits_append hb).1
  · have hne : ¬ w.isEmpty = true := fun he => hw.ne_nil (List.isEmpty_iff.mp he)
    show (if (digits (w ++ b)).isEmpty = true then [] else '-' :: digits (w ++ b)) = '-' :: w
    rw [(hw.digits_append hb).1, if_neg hne]

/-! ## Dashes and brackets -/

theorem takeWhile_dashes (n : Nat) {b : Text} (hb : ∀ c ∈ b.head?, c ≠ '-') :
    (List.replicate n '-' ++ b).takeWhile (· == '-') = List.replicate n '-' := by
  rw [List.takeWhile_append_of_pos (by simp)]
  cases b with
  | nil => exact List.append_nil _
  | cons c b => rw [List.takeWhile_cons_of_neg (by simpa using hb c rfl), List.append_nil]

theorem not_dash_of_endsLiteral {b : Text} (h : endsLiteral b = true) : ∀ c ∈ b.head?, c ≠ '-' := by
  intro c hc
  cases b with
  | nil => exact nomatch hc
  | cons d b =>
    cases hc
    have hboth : (!isDecimalDigit c && c != '-') = true := h
    rw [Bool.and_eq_true, bne_iff_ne] at hboth
    exact hboth.2

theorem stops_of_endsLiteral {b : Text} (h : endsLiteral b = true) : Stops b := by
  intro c hc
  cases b with
  | nil => exact nomatch hc
  | cons d b =>
    cases hc
    have hboth : (!isDecimalDigit c && c != '-') = true := h
    rw [Bool.and_eq_true, Bool.not_eq_true'] at hboth
    exact hboth.1

/-- A literal is read as far as it goes. -/
theorem literalText_append {x b : Text} {l : List Setting} (hx : Writes .literal x l)
    (hb : endsLiteral b = true) : literalText (x ++ b) = x := by
  cases hx with
  | @faces inner ns hinner _ =>
    have hcut : cutFirst (· == ']') (inner ++ ']' :: b) = some (inner, b) := by
      refine cutFirst_append (fun c hc => ?_) rfl b
      rw [beq_eq_false_iff_ne]
      rintro rfl
      exact hinner hc
    have htext : '[' :: inner ++ [']'] ++ b = '[' :: (inner ++ ']' :: b) := by
      rw [List.append_assoc, List.singleton_append, List.cons_append]
    rw [htext]
    simp only [literalText, hcut]
  | back n => exact takeWhile_dashes (n + 1) (not_dash_of_endsLiteral hb)

/-- No number is looked for in the place of a literal. -/
theorem findAmount_of_literal {a x b : Text} {l : List Setting} (hx : Writes .literal x l)
    (hplaced : Placed a (x ++ b)) (hb : endsLiteral b = true) :
    findAmount (a ++ (x ++ b)) = .ok [] := by
  have hnone : signedDigits (x ++ b) = [] := by
    cases hx with
    | faces _ _ => rfl
    | back n =>
      have hstops : digits (List.replicate n '-' ++ b) = [] := by
        cases n with
        | zero =>
          show digits b = []
          cases b with
          | nil => rfl
          | cons c b =>
            unfold digits
            rw [List.takeWhile_cons_of_neg]
            rw [stops_of_endsLiteral hb c rfl]
            exact Bool.false_ne_true
        | succ n => rfl
      show (if (digits (List.replicate n '-' ++ b)).isEmpty = true then [] else _) = []
      rw [hstops]
      rfl
  unfold findAmount
  rw [amountPlace_append hplaced (hx.not_blank_head b)]
  dsimp only
  rw [hnone]
  rfl

/-- No literal is looked for in the place of a number. -/
theorem findLiteral_of_count {a x b : Text} {n : Int} (hx : Spells x n)
    (hplaced : Placed a (x ++ b)) : findLiteral (a ++ (x ++ b)) = .ok [] := by
  unfold findLiteral
  rw [amountPlace_append hplaced ((Writes.count hx).not_blank_head b)]
  dsimp only
  rcases hx.shape with hw | ⟨w, rfl, hw⟩
  · obtain ⟨c, t, rfl⟩ := List.exists_cons_of_ne_nil hw.ne_nil
    have hbracket : c ≠ '[' :=
      hw.forall_mem (p := fun c => c ≠ '[') (by decide) c List.mem_cons_self
    have hdash : c ≠ '-' := hw.forall_mem (p := fun c => c ≠ '-') (by decide) c List.mem_cons_self
    have hliteral : literalText (c :: (t ++ b)) = [] := by
      unfold literalText
      split
      · next heq => exact absurd (List.cons.inj heq).1 hbracket
      · rw [List.takeWhile_cons_of_neg (by simpa using hdash)]
    rw [List.cons_append, hliteral]
    rfl
  · obtain ⟨c, t, rfl⟩ := List.exists_cons_of_ne_nil hw.ne_nil
    have hdash : c ≠ '-' := hw.forall_mem (p := fun c => c ≠ '-') (by decide) c List.mem_cons_self
    have hdigit := isDecimalDigit_of_isDigit (hw.isDigit c List.mem_cons_self)
    have hliteral : literalText ('-' :: c :: (t ++ b)) = ['-'] := by
      show ('-' :: c :: (t ++ b)).takeWhile (· == '-') = ['-']
      rw [List.takeWhile_cons_of_pos rfl, List.takeWhile_cons_of_neg (by simpa using hdash)]
    have hends : endsLiteral (c :: (t ++ b)) = false := by
      show (!isDecimalDigit c && c != '-') = false
      rw [hdigit]
      rfl
    rw [List.cons_append, List.cons_append, hliteral]
    show (if !endsLiteral (c :: (t ++ b)) then _ else _) = _
    rw [hends]
    rfl

/-! ## Rule by rule -/

section Rules

variable {a x b : Text} {l : List Setting} {n : Int}

theorem mapM_usable {ws : List Text} {ns : List Int} (h : List.Forall₂ Spells ws ns) :
    ws.mapM usable = .ok ns := mapM_eq_ok_of_forall₂ (h.imp fun _ _ hw => hw.usable_eq)

theorem findSelectors_append {ws : List Text} {first : Int} {others : List Int}
    (h : List.Forall₂ Spells ws (first :: others)) (b : Text) :
    findSelectors (join ',' ws ++ ['@'] ++ b) =
      .ok [⟨0, (join ',' ws ++ ['@']).length, [.reduction (.ranks first others)]⟩] := by
  unfold findSelectors
  rw [rankList?_append h]
  dsimp only
  rw [mapM_usable h, List.length_append, Nat.add_sub_cancel]
  rfl

theorem findSides_append {w : Text} (hw : Numeral w) (hn : usable w = .ok n)
    (hlead : EndsWith isLoose a) (hstops : Stops b) (ha : ∀ c ∈ a, mark? c ≠ some .sides)
    (hb : ∀ c ∈ b, mark? c ≠ some .sides) :
    findSides (a ++ ('d' :: w ++ b)) = .ok [⟨a.length, ('d' :: w).length, [.sides n]⟩] := by
  have hlength : sidesLength ('d' :: w ++ b) = ('d' :: w).length :=
    (numberLength_append hw hstops 1).trans (Nat.add_comm _ _)
  show (stretches isLoose sidesLength 0 _).mapM _ = _
  rw [stretches_eq_singleton rfl (fun c hc => sidesLength_eq_zero (ha c hc))
    (fun c hc => sidesLength_eq_zero (hb c hc)) hlead (List.cons_ne_nil 'd' w) hlength,
    List.mapM_cons, List.drop_one, List.tail_cons, hn]
  rfl

theorem findRerolls_append {c : Char} {sign w : Text} (hc : c = 'r' ∨ c = 'R')
    (hsign : sign = [] ∨ sign = ['+'] ∨ sign = ['-']) (hw : Numeral w)
    (hn : usable (sign ++ w) = .ok n) (hlead : EndsWith isTight a) (hstops : Stops b)
    (ha : ∀ c ∈ a, mark? c ≠ some .rerolls) (hb : ∀ c ∈ b, mark? c ≠ some .rerolls) :
    findRerolls (a ++ (c :: (sign ++ w) ++ b)) =
      .ok [⟨a.length, (c :: (sign ++ w)).length, [.rerolls n]⟩] := by
  show (stretches isTight rerollsLength 0 _).mapM _ = _
  rw [stretches_eq_singleton rfl (fun c hc => rerollsLength_eq_zero (ha c hc))
    (fun c hc => rerollsLength_eq_zero (hb c hc)) hlead (List.cons_ne_nil c _)
    (rerollsLength_append hc hsign hw hstops),
    List.mapM_cons, List.drop_one, List.tail_cons, hn]
  rfl

theorem findSort_append (hlead : EndsWith isTight a) (ha : ∀ c ∈ a, mark? c ≠ some .sort)
    (hb : ∀ c ∈ b, mark? c ≠ some .sort) :
    findSort (a ++ (['s'] ++ b)) = .ok [⟨a.length, ['s'].length, [.sort]⟩] := by
  show Except.ok ((stretches isTight sortLength 0 _).map _) = _
  rw [stretches_eq_singleton rfl (fun c hc => sortLength_eq_zero (ha c hc))
    (fun c hc => sortLength_eq_zero (hb c hc)) hlead (List.cons_ne_nil 's' []) rfl]
  rfl

theorem findAmount_append (hx : Spells x n) (hplaced : Placed a (x ++ b)) (hstops : Stops b) :
    findAmount (a ++ (x ++ b)) = .ok [⟨a.length, x.length, [.amount (.count n)]⟩] := by
  have hne : x.isEmpty = false := List.isEmpty_eq_false_iff.mpr hx.ne_nil
  have hat : (x ++ b).contains '@' = false := by
    rw [Bool.eq_false_iff]
    exact fun h => hplaced.1 (List.contains_iff_mem.mp h)
  have hhead := (Writes.count hx).not_blank_head b
  unfold findAmount
  rw [amountPlace_append hplaced hhead, amountStart_append hplaced hhead]
  dsimp only
  rw [signedDigits_append hx hstops, hne, hat, hx.usable_eq]
  rfl

theorem literalAmount_of_writes {am : Amount} (hx : Writes .literal x [.amount am]) :
    literalAmount x = .ok am := by
  cases hx with
  | @faces inner ns hinner hns =>
    show (do
      let faces := (pieces (· == ',') (inner ++ [']']).dropLast).filter fun face => !isAllBlank face
      return Amount.faces (← faces.mapM usable)) = _
    rw [List.dropLast_concat]
    dsimp only
    rw [hns]
    rfl
  | back n =>
    show Except.ok (Amount.back (List.replicate (n + 1) '-').length) = _
    rw [List.length_replicate]

theorem exists_amount_of_literal (hx : Writes .literal x l) : ∃ am, l = [.amount am] := by
  cases hx with
  | faces _ _ => exact ⟨_, rfl⟩
  | back _ => exact ⟨_, rfl⟩

theorem findLiteral_append (hx : Writes .literal x l) (hplaced : Placed a (x ++ b))
    (hends : endsLiteral b = true) :
    findLiteral (a ++ (x ++ b)) = .ok [⟨a.length, x.length, l⟩] := by
  have hne : x.isEmpty = false := List.isEmpty_eq_false_iff.mpr hx.ne_nil
  have hhead := hx.not_blank_head b
  obtain ⟨am, rfl⟩ := exists_amount_of_literal hx
  unfold findLiteral
  rw [amountPlace_append hplaced hhead, amountStart_append hplaced hhead]
  dsimp only
  rw [literalText_append hx hends, List.drop_left, hends, hne, literalAmount_of_writes hx]
  rfl

theorem getLast?_append_singleton_ne {c : Char} (hc : c ≠ '!') (a : Text) :
    ∀ e ∈ (a ++ [c]).getLast?, e ≠ '!' := by
  intro e he
  rw [List.getLast?_concat] at he
  cases he
  exact hc

theorem findSuffix_append {c : Char} {r : Reduction} (hc : Reduction.ofSuffix? c = some r)
    (hb : ∀ c ∈ b, c = '!') :
    findSuffix (a ++ ([c] ++ b)) = .ok [⟨a.length, [c].length, [.reduction r]⟩] := by
  have hbang : c ≠ '!' := by
    rintro rfl
    exact nomatch hc
  unfold findSuffix
  rw [← List.append_assoc, withoutBangs_append (getLast?_append_singleton_ne hbang a) hb]
  dsimp only
  rw [List.getLast?_concat, Option.bind_some, hc, List.length_append, List.length_singleton,
    Nat.add_sub_cancel]

theorem Numeral.reverse {w : Text} (hw : Numeral w) : Numeral w.reverse :=
  ⟨fun h => hw.ne_nil (List.reverse_eq_nil_iff.mp h),
    fun c hc => hw.isDigit c (List.mem_reverse.mp hc)⟩

theorem findThreshold_append {c : Char} {w : Text} (hc : c = 'e' ∨ c = 'f') (hw : Numeral w)
    (hn : usable w = .ok n) (hb : ∀ c ∈ b, c = '!') :
    findThreshold (a ++ (c :: w ++ b)) = .ok [⟨a.length, (c :: w).length,
      [.reduction .successes, .difficulty n, .oneBehaviour (c == 'f')]⟩] := by
  have hbang : ∀ e ∈ (a ++ c :: w).getLast?, e ≠ '!' := by
    intro e he
    rw [List.getLast?_append_of_ne_nil _ (List.cons_ne_nil c w),
      List.getLast?_cons_of_ne_nil hw.ne_nil] at he
    exact hw.forall_mem (p := fun c => c ≠ '!') (by decide) e (List.mem_of_getLast? he)
  have hmark : isDecimalDigit c = false ∧ (c == 'e' || c == 'f') = true := by
    rcases hc with rfl | rfl
    · decide
    · decide
  obtain ⟨hdigits, hafter⟩ := (Numeral.reverse hw).digits_append (t := c :: a.reverse)
    (by rintro d ⟨⟩; exact hmark.1)
  have hreverse : (a ++ c :: w).reverse = w.reverse ++ c :: a.reverse := by
    rw [List.reverse_append, List.reverse_cons, List.append_assoc, List.singleton_append]
  unfold findThreshold
  rw [← List.append_assoc, withoutBangs_append hbang hb]
  dsimp only
  rw [hreverse, hdigits, hafter, List.reverse_reverse]
  obtain ⟨d, w, rfl⟩ := List.exists_cons_of_ne_nil hw.ne_nil
  dsimp only
  rw [if_pos hmark.2, hn, List.length_reverse]
  rfl

theorem findExplosion_append (n : Nat) (ha : ∀ c ∈ a, c ≠ '!') :
    findExplosion (a ++ List.replicate (n + 1) '!') =
      .ok [⟨a.length, (List.replicate (n + 1) '!').length, [.explosion (n + 1 : Nat)]⟩] := by
  unfold findExplosion
  rw [withoutBangs_append (fun c hc => ha c (List.mem_of_getLast? hc))
    fun c hc => (List.mem_replicate.mp hc).2, List.length_replicate]
  rfl

/-- **A part is found where it fits**, and nothing else if its mark is nowhere else. -/
theorem find_of_fits {r : Rule} (hx : Writes r x l) (hfits : Fits r a x b)
    (ha : ∀ c ∈ a, mark? c ≠ some r) (hb : ∀ c ∈ b, mark? c ≠ some r) :
    r.find (a ++ (x ++ b)) = .ok [⟨a.length, x.length, l⟩] := by
  cases hx with
  | selectors hws =>
    obtain rfl : a = [] := hfits
    exact findSelectors_append hws b
  | sides hw hn => exact findSides_append hw hn hfits.1 hfits.2 ha hb
  | rerolls hc hsign hw hn => exact findRerolls_append hc hsign hw hn hfits.1 hfits.2 ha hb
  | sort => exact findSort_append hfits ha hb
  | count hx => exact findAmount_append hx hfits.1 hfits.2
  | faces hinner hns => exact findLiteral_append (.faces hinner hns) hfits.1 hfits.2
  | back n => exact findLiteral_append (.back n) hfits.1 hfits.2
  | suffix hc => exact findSuffix_append hc hfits
  | threshold hc hw hn => exact findThreshold_append hc hw hn hfits
  | bangs n =>
    obtain rfl : b = [] := hfits
    rw [List.append_nil]
    refine findExplosion_append n fun c hc => ?_
    rintro rfl
    exact ha '!' hc rfl

end Rules

theorem mem_of_mem_withoutBangs {code : Text} {c : Char} (hc : c ∈ (withoutBangs code).1) :
    c ∈ code :=
  List.mem_reverse.mp ((List.dropWhile_suffix _).subset (List.mem_reverse.mp hc))

theorem findSuffix_eq_nil {code : Text} (h : ∀ c ∈ code, mark? c ≠ some .suffix) :
    findSuffix code = .ok [] := by
  have hlast : (withoutBangs code).1.getLast?.bind Reduction.ofSuffix? = none := by
    rw [Option.bind_eq_none_iff]
    intro c hc
    rw [Option.eq_none_iff_forall_ne_some]
    have hmem := mem_of_mem_withoutBangs (List.mem_of_getLast? hc)
    exact fun r hr => h c hmem (mark?_eq_suffix_iff.mpr ⟨r, hr⟩)
  unfold findSuffix
  dsimp only
  rw [hlast]

theorem findThreshold_eq_nil {code : Text} (h : ∀ c ∈ code, mark? c ≠ some .threshold) :
    findThreshold code = .ok [] := by
  unfold findThreshold
  dsimp only
  split
  · rfl
  · rfl
  · next c before heq _ =>
    have hmem : c ∈ code := by
      have hc : c ∈ afterDigits (withoutBangs code).1.reverse := by
        rw [heq]
        exact List.mem_cons_self
      have hbody := (List.dropWhile_suffix isDecimalDigit).subset hc
      exact mem_of_mem_withoutBangs (List.mem_reverse.mp hbody)
    refine if_neg fun hc => ?_
    rw [Bool.or_eq_true, beq_iff_eq, beq_iff_eq] at hc
    rcases hc with rfl | rfl
    · exact h _ hmem rfl
    · exact h _ hmem rfl

theorem findExplosion_eq_nil {code : Text} (h : ∀ c ∈ code, mark? c ≠ some .explosion) :
    findExplosion code = .ok [] := by
  have hnone : ∀ c ∈ code, c ≠ '!' := by
    rintro c hc rfl
    exact h '!' hc rfl
  have hbody := withoutBangs_append (b := []) (fun c hc => hnone c (List.mem_of_getLast? hc))
    fun c hc => nomatch hc
  rw [List.append_nil] at hbody
  unfold findExplosion
  rw [hbody]
  rfl

/-- **Nothing is found without its mark.** -/
theorem find_eq_nil {r : Rule} (hr : r.setsAmount = false) {code : Text}
    (h : ∀ c ∈ code, mark? c ≠ some r) : r.find code = .ok [] := by
  cases r with
  | selectors =>
    show findSelectors code = _
    unfold findSelectors
    rw [rankList?_eq_none fun hat => h _ hat rfl]
  | sides =>
    show findSides code = _
    unfold findSides
    rw [stretches_eq_nil rfl fun c hc => sidesLength_eq_zero (h c hc)]
    rfl
  | rerolls =>
    show findRerolls code = _
    unfold findRerolls
    rw [stretches_eq_nil rfl fun c hc => rerollsLength_eq_zero (h c hc)]
    rfl
  | sort =>
    show findSort code = _
    unfold findSort
    rw [stretches_eq_nil rfl fun c hc => sortLength_eq_zero (h c hc)]
    rfl
  | amount => exact nomatch hr
  | literal => exact nomatch hr
  | suffix => exact findSuffix_eq_nil h
  | threshold => exact findThreshold_eq_nil h
  | explosion => exact findExplosion_eq_nil h

end DiceNotation.DiceCode
