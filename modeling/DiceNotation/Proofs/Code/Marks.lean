import DiceNotation.DiceCode.Finding
import DiceNotation.Proofs.Numerals
import DiceNotation.Proofs.Fallible
import Mathlib.Data.List.TakeWhile

/-!
# How the parts of a code are written

A part of a dice code is a stretch that one rule accounts for.  All but the amount have a *mark*: a
character that stands in the parts of one rule and of no other, and in no number, list or gap
(`Writes.eq_of_mark`).  This is why nine rules that look at the whole of a code without regard to one
another find different parts of it.

## Numbers

Where a code holds a number it is *usable*: after blanks are trimmed and plus signs dropped it is
read.  So it consists of blanks, signs and the ten digits (`mem_of_usable`), although the rules look
for digits of any script.

* `usable_eq_ok_iff`, `numeral_of_usable`: numbers.
* `Writes`: the parts of a code, with what they set.
* `mark?`, `Writes.eq_of_mark`, `Writes.exists_mark`; `Rule.keys`, `Writes.keys_eq`.
-/

namespace DiceNotation

open Text

/-! ## Numbers -/

/-- What is read as a whole number is a numeral after at most one sign. -/
theorem exists_numeral_of_read? {x : Text} {n : Int} (h : Whole.read? x = some n) :
    ∃ w, Numeral w ∧ (x = w ∨ x = '-' :: w ∨ x = '+' :: w) := by
  have hdigits : ∀ {w : Text} {m : Nat}, Whole.readDigits? w = some m → Numeral w := by
    intro w m hw
    unfold Whole.readDigits? at hw
    split at hw
    · exact nomatch hw
    · next hall =>
      rw [Bool.not_eq_true, Bool.or_eq_false_iff, Bool.not_eq_eq_eq_not, Bool.not_false] at hall
      exact ⟨List.isEmpty_eq_false_iff.mp hall.1, List.all_eq_true.mp hall.2⟩
  obtain ⟨m, hm, -⟩ := Option.bind_eq_some_iff.mp h
  unfold Whole.readInt? at hm
  split at hm
  · obtain ⟨k, hk, -⟩ := Option.map_eq_some_iff.mp hm
    obtain ⟨m, hm, -⟩ := Option.bind_eq_some_iff.mp hk
    exact ⟨_, hdigits hm, Or.inr (Or.inl rfl)⟩
  · obtain ⟨k, hk, -⟩ := Option.map_eq_some_iff.mp hm
    exact ⟨_, hdigits hk, Or.inr (Or.inr rfl)⟩
  · obtain ⟨k, hk, -⟩ := Option.map_eq_some_iff.mp hm
    exact ⟨_, hdigits hk, Or.inl rfl⟩

open DiceCode in
/-- A numeral is usable as it stands. -/
theorem Spells.usable_eq {x : Text} {n : Int} (h : Spells x n) : usable x = .ok n := by
  have hplus : ∀ c ∈ x, c ≠ '+' := h.forall_mem (by decide)
  have hdrop : x.dropWhile (· == '+') = x := by
    obtain ⟨c, t, rfl⟩ := List.exists_cons_of_ne_nil h.ne_nil
    have hc : c ≠ '+' := hplus c List.mem_cons_self
    rw [List.dropWhile_cons_of_neg]
    simp [hc]
  unfold usable
  rw [h.trim, hdrop, h.value]

namespace DiceCode

variable {x : Text} {n : Int}

theorem head_ne_plus_of_spells (h : Spells x n) : ∀ c ∈ x.head?, (c == '+') = false := fun c hc =>
  h.forall_mem (p := fun c => (c == '+') = false) (by decide) c (List.mem_of_head? hc)

/-- **A number is usable if it spells a whole number after blanks and plus signs.** -/
theorem usable_eq_ok_iff :
    usable x = .ok n ↔ ∃ k y, trim x = List.replicate k '+' ++ y ∧ Spells y n := by
  have husable : usable x = .ok n ↔ Whole.read? ((trim x).dropWhile (· == '+')) = some n := by
    unfold usable
    cases Whole.read? ((trim x).dropWhile (· == '+')) with
    | none => exact ⟨fun h => (nomatch h), fun h => (nomatch h)⟩
    | some m => exact ⟨fun h => congrArg some (Except.ok.inj h),
        fun h => congrArg Except.ok (Option.some.inj h)⟩
  rw [husable]
  constructor
  · intro h
    refine ⟨((trim x).takeWhile (· == '+')).length, (trim x).dropWhile (· == '+'), ?_, ?_, h⟩
    · have hplus : (trim x).takeWhile (· == '+') =
          List.replicate ((trim x).takeWhile (· == '+')).length '+' :=
        List.eq_replicate_of_mem fun c hc => by simpa using List.mem_takeWhile_imp hc
      rw [← hplus, List.takeWhile_append_dropWhile]
    · obtain ⟨w, hw, heq | heq | heq⟩ := exists_numeral_of_read? h
      · exact Or.inl (heq ▸ hw)
      · exact Or.inr ⟨w, heq, hw⟩
      · have hhead := List.head?_dropWhile_not (· == '+') (trim x)
        rw [heq] at hhead
        exact absurd hhead (by simp)
  · rintro ⟨k, y, heq, hy⟩
    have hdrop : (List.replicate k '+' ++ y).dropWhile (· == '+') = y := by
      rw [List.dropWhile_append_of_pos (by simp)]
      obtain ⟨c, t, rfl⟩ := List.exists_cons_of_ne_nil hy.ne_nil
      exact List.dropWhile_cons_of_neg (by simp [head_ne_plus_of_spells hy c rfl])
    rw [heq, hdrop]
    exact hy.value

/-- A usable number has blanks, signs and digits. -/
theorem mem_of_usable (h : usable x = .ok n) {c : Char} (hc : c ∈ x) :
    isBlank c = true ∨ c ∈ "+-0123456789".toList := by
  obtain ⟨k, y, heq, hy⟩ := usable_eq_ok_iff.mp h
  rcases mem_trim_or_isBlank hc with hblank | hc
  · exact Or.inl hblank
  · rw [heq] at hc
    rcases List.mem_append.mp hc with hc | hc
    · rw [(List.mem_replicate.mp hc).2]
      exact Or.inr List.mem_cons_self
    · exact Or.inr (hy.forall_mem (p := (· ∈ "+-0123456789".toList)) (by decide) c hc)

/-- Digits in a usable number are the ten with a value. -/
theorem numeral_of_usable (h : usable x = .ok n) {w : Text} (hne : w ≠ [])
    (hw : ∀ c ∈ w, isDecimalDigit c = true) (hsub : w ⊆ x) : Numeral w := by
  refine ⟨hne, fun c hc => ?_⟩
  have hdigit := hw c hc
  rcases mem_of_usable h (hsub hc) with hblank | hmem
  · exact absurd hblank (by rw [not_isBlank_of_isDecimalDigit hdigit]; exact Bool.false_ne_true)
  · have hone : ∀ d ∈ "+-0123456789".toList, isDecimalDigit d = true → d.isDigit = true := by decide
    exact hone c hmem hdigit

/-- A number without blanks and plus signs is usable as it stands. -/
theorem spells_of_usable (h : usable x = .ok n) (hblank : ∀ c ∈ x, isBlank c = false)
    (hplus : '+' ∉ x) : Spells x n := by
  obtain ⟨k, y, heq, hy⟩ := usable_eq_ok_iff.mp h
  rw [trim_of_not_blank (fun c hc => hblank c (List.mem_of_head? hc))
    fun c hc => hblank c (List.mem_of_getLast? hc)] at heq
  cases k with
  | zero => rwa [heq]
  | succ k => exact absurd (heq ▸ List.mem_cons_self) hplus

/-! ## Parts -/

/-- A stretch that a rule accounts for, and what it sets. -/
inductive Writes : Rule → Text → List Setting → Prop
  | selectors {ws : List Text} {first : Int} {others : List Int}
    (h : List.Forall₂ Spells ws (first :: others)) :
    Writes .selectors (join ',' ws ++ ['@']) [.reduction (.ranks first others)]
  | sides {w : Text} {n : Int} (hw : Numeral w) (hn : usable w = .ok n) :
    Writes .sides ('d' :: w) [.sides n]
  | rerolls {c : Char} {sign w : Text} {n : Int} (hc : c = 'r' ∨ c = 'R')
    (hsign : sign = [] ∨ sign = ['+'] ∨ sign = ['-']) (hw : Numeral w)
    (hn : usable (sign ++ w) = .ok n) :
    Writes .rerolls (c :: (sign ++ w)) [.rerolls n]
  | sort : Writes .sort ['s'] [.sort]
  | count {x : Text} {n : Int} (h : Spells x n) : Writes .amount x [.amount (.count n)]
  | faces {inner : Text} {ns : List Int} (hinner : ']' ∉ inner)
    (hns : ((pieces (· == ',') inner).filter fun face => !isAllBlank face).mapM usable = .ok ns) :
    Writes .literal ('[' :: inner ++ [']']) [.amount (.faces ns)]
  | back (n : Nat) : Writes .literal (List.replicate (n + 1) '-') [.amount (.back (n + 1))]
  | suffix {c : Char} {r : Reduction} (h : Reduction.ofSuffix? c = some r) :
    Writes .suffix [c] [.reduction r]
  | threshold {c : Char} {w : Text} {n : Int} (hc : c = 'e' ∨ c = 'f') (hw : Numeral w)
    (hn : usable w = .ok n) :
    Writes .threshold (c :: w) [.reduction .successes, .difficulty n, .oneBehaviour (c == 'f')]
  | bangs (n : Nat) : Writes .explosion (List.replicate (n + 1) '!') [.explosion (n + 1 : Nat)]

/-- The keys that the parts of a rule set. -/
def Rule.keys : Rule → List Key
  | selectors => [.reduction]
  | sides => [.sides]
  | rerolls => [.rerolls]
  | sort => [.sort]
  | amount => [.amount]
  | literal => [.amount]
  | suffix => [.reduction]
  | threshold => [.reduction, .difficulty, .oneBehaviour]
  | explosion => [.explosion]

theorem Rule.keys_ne_nil (r : Rule) : r.keys ≠ [] := by
  cases r <;> decide

/-- The rule whose parts have a character as their mark. -/
def mark? : Char → Option Rule
  | '@' => some .selectors
  | 'd' => some .sides
  | 'r' => some .rerolls
  | 'R' => some .rerolls
  | 's' => some .sort
  | 'g' => some .suffix
  | 'h' => some .suffix
  | 'l' => some .suffix
  | '~' => some .suffix
  | '=' => some .suffix
  | 'e' => some .threshold
  | 'f' => some .threshold
  | '!' => some .explosion
  | _ => none

/-- Whether a rule is about what comes after the amount. -/
def Rule.isLate : Rule → Bool
  | selectors => false
  | amount => false
  | literal => false
  | _ => true

/-- Whether a rule is about the amount, whose parts have no mark. -/
def Rule.setsAmount : Rule → Bool
  | amount => true
  | literal => true
  | _ => false

theorem Rule.setsAmount_iff {r : Rule} : r.setsAmount = true ↔ Key.amount ∈ r.keys := by
  cases r <;> decide

theorem Rule.cases_of_place (r : Rule) :
    r = .selectors ∨ r.isLate = true ∨ r.setsAmount = true := by
  cases r <;> decide

theorem Rule.ne_literal {r : Rule} (hr : r.isLate = true) : r ≠ .literal := by
  rintro rfl
  exact nomatch hr

theorem mark?_of_isBlank {c : Char} (h : isBlank c = true) : mark? c = none :=
  forall_of_isBlank (p := fun c => mark? c = none) (by decide) h

theorem mark?_of_mem_usable {c : Char} (h : usable x = .ok n) (hc : c ∈ x) : mark? c = none := by
  rcases mem_of_usable h hc with hblank | hmem
  · exact mark?_of_isBlank hblank
  · have hnone : ∀ d ∈ "+-0123456789".toList, mark? d = none := by decide
    exact hnone c hmem

/-- A mark is one of thirteen characters. -/
theorem forall_of_mark {p : Char → Rule → Prop}
    (h : ∀ c ∈ "@drRsghl~=ef!".toList, ∀ r ∈ mark? c, p c r) {c : Char} {r : Rule}
    (hc : mark? c = some r) : p c r := by
  have hmem : c ∈ "@drRsghl~=ef!".toList := by
    unfold mark? at hc
    split at hc
    all_goals first | decide | exact absurd hc (by simp)
  exact h c hmem r hc

/-- A letter names a reduction if it is the mark of the rule for such letters. -/
theorem mark?_eq_suffix_iff {c : Char} :
    mark? c = some .suffix ↔ ∃ r, Reduction.ofSuffix? c = some r := by
  constructor
  · intro h
    unfold mark? at h
    split at h
    all_goals first | exact ⟨_, rfl⟩ | exact absurd h (by simp)
  · rintro ⟨r, h⟩
    unfold Reduction.ofSuffix? at h
    split at h
    all_goals first | rfl | exact absurd h (by simp)

/-- A text of which nothing is a mark. -/
def Quiet (t : Text) : Prop := ∀ c ∈ t, mark? c = none

theorem quiet_of_usable (h : usable x = .ok n) : Quiet x := fun _ hc => mark?_of_mem_usable h hc

theorem quiet_of_numeral {w : Text} (hw : Numeral w) : Quiet w := hw.forall_mem (by decide)

theorem quiet_of_spells (h : Spells x n) : Quiet x := h.forall_mem (by decide)

theorem mem_join {ws : List Text} {c : Char} (h : c ∈ join ',' ws) :
    c = ',' ∨ ∃ w ∈ ws, c ∈ w := by
  induction ws using join.induct with
  | case1 => exact nomatch h
  | case2 w => exact Or.inr ⟨w, List.mem_cons_self, h⟩
  | case3 w v ws ih =>
    rw [join] at h
    rcases List.mem_append.mp h with h | h
    · exact Or.inr ⟨w, List.mem_cons_self, h⟩
    · rcases List.mem_cons.mp h with rfl | h
      · exact Or.inl rfl
      · rcases ih h with rfl | ⟨u, hu, hc⟩
        · exact Or.inl rfl
        · exact Or.inr ⟨u, List.mem_cons_of_mem w hu, hc⟩

/-- What holds of the characters of numbers and of the comma holds of those of a list of numbers. -/
theorem forall_mem_join {ws : List Text} {ns : List Int} (h : List.Forall₂ Spells ws ns)
    {p : Char → Prop} (hp : ∀ c ∈ ",-0123456789".toList, p c) : ∀ c ∈ join ',' ws, p c := by
  intro c hc
  rcases mem_join hc with rfl | ⟨w, hw, hc⟩
  · exact hp ',' List.mem_cons_self
  · obtain ⟨n, -, hn⟩ := exists_of_forall₂ h hw
    exact hn.forall_mem (fun d hd => hp d (List.mem_cons_of_mem ',' hd)) c hc

theorem quiet_join {ws : List Text} {ns : List Int} (h : List.Forall₂ Spells ws ns) :
    Quiet (join ',' ws) := forall_mem_join h (by decide)

/-- What stands between the commas of a list is part of it. -/
theorem mem_pieces_of_mem {p : Char → Bool} {t : Text} {c : Char} (hc : c ∈ t) :
    p c = true ∨ ∃ u ∈ pieces p t, c ∈ u := by
  induction t with
  | nil => exact absurd hc List.not_mem_nil
  | cons d t ih =>
    unfold pieces
    cases hd : p d with
    | true =>
      rcases List.mem_cons.mp hc with rfl | hc
      · exact Or.inl hd
      · rcases ih hc with hp | ⟨u, hu, hcu⟩
        · exact Or.inl hp
        · exact Or.inr ⟨u, List.mem_cons_of_mem _ hu, hcu⟩
    | false =>
      cases hps : pieces p t with
      | nil => exact absurd (length_pieces_pos p t) (by simp [hps])
      | cons v vs =>
        rw [hps] at ih
        rcases List.mem_cons.mp hc with rfl | hc
        · exact Or.inr ⟨c :: v, List.mem_cons_self, List.mem_cons_self⟩
        · rcases ih hc with hp | ⟨u, hu, hcu⟩
          · exact Or.inl hp
          · rcases List.mem_cons.mp hu with rfl | hu
            · exact Or.inr ⟨d :: u, List.mem_cons_self, List.mem_cons_of_mem d hcu⟩
            · exact Or.inr ⟨u, List.mem_cons_of_mem _ hu, hcu⟩

theorem quiet_faces {inner : Text} {ns : List Int}
    (h : ((pieces (· == ',') inner).filter fun face => !isAllBlank face).mapM usable = .ok ns) :
    Quiet inner := by
  have husable : ∀ u ∈ (pieces (· == ',') inner).filter fun face => !isAllBlank face, Quiet u :=
    ((List.forall₂_and_left _ _).mp ((exists_of_mapM_eq_ok h).imp fun u n hu =>
      ⟨quiet_of_usable hu, hu⟩)).1
  intro c hc
  rcases mem_pieces_of_mem (p := (· == ',')) hc with hcomma | ⟨u, hu, hcu⟩
  · rw [beq_iff_eq.mp hcomma]
    rfl
  · cases hblank : isAllBlank u with
    | true => exact mark?_of_isBlank (List.all_eq_true.mp hblank c hcu)
    | false => exact husable u (List.mem_filter.mpr ⟨hu, by rw [hblank]; rfl⟩) c hcu

namespace Writes

variable {r : Rule} {l : List Setting}

theorem keys_eq (h : Writes r x l) : l.map Setting.key = r.keys := by
  cases h <;> rfl

theorem ne_nil (h : Writes r x l) : x ≠ [] := by
  cases h with
  | selectors _ => exact List.append_ne_nil_of_right_ne_nil _ (List.cons_ne_nil _ _)
  | count h => exact h.ne_nil
  | _ => exact List.cons_ne_nil _ _

/-- A part of a rule about what comes after the amount begins with its mark, and the rest of it goes
on as numbers and bangs do. -/
theorem exists_mark (h : Writes r x l) (hr : r.isLate = true) :
    ∃ c t, x = c :: t ∧ mark? c = some r := by
  cases h with
  | selectors _ => exact nomatch hr
  | count _ => exact nomatch hr
  | faces _ _ => exact nomatch hr
  | back _ => exact nomatch hr
  | sides _ _ => exact ⟨_, _, rfl, rfl⟩
  | rerolls hc _ _ _ => rcases hc with rfl | rfl <;> exact ⟨_, _, rfl, rfl⟩
  | sort => exact ⟨_, _, rfl, rfl⟩
  | suffix hc => exact ⟨_, _, rfl, mark?_eq_suffix_iff.mpr ⟨_, hc⟩⟩
  | threshold hc _ _ => rcases hc with rfl | rfl <;> exact ⟨_, _, rfl, rfl⟩
  | bangs n => exact ⟨_, _, List.replicate_succ, rfl⟩

/-- **The mark of a rule occurs in its own parts only.** -/
theorem eq_of_mark (h : Writes r x l) {c : Char} (hc : c ∈ x) {r' : Rule}
    (hmark : mark? c = some r') : r' = r := by
  have hquiet : ∀ {t : Text}, Quiet t → c ∉ t := by
    intro t ht hmem
    exact nomatch hmark.symm.trans (ht c hmem)
  have hone : ∀ {d : Char}, c = d → mark? d = some r → r' = r := by
    rintro d rfl hd
    exact Option.some.inj (hmark.symm.trans hd)
  cases h with
  | selectors hws =>
    rcases List.mem_append.mp hc with hc | hc
    · exact absurd hc (hquiet (quiet_join hws))
    · exact hone (List.mem_singleton.mp hc) rfl
  | sides hw _ =>
    rcases List.mem_cons.mp hc with hc | hc
    · exact hone hc rfl
    · exact absurd hc (hquiet (quiet_of_numeral hw))
  | rerolls hr _ _ hn =>
    rcases List.mem_cons.mp hc with hc | hc
    · rcases hr with rfl | rfl <;> exact hone hc rfl
    · exact absurd hc (hquiet (quiet_of_usable hn))
  | sort => exact hone (List.mem_singleton.mp hc) rfl
  | count hx => exact absurd hc (hquiet (quiet_of_spells hx))
  | faces _ hns =>
    rcases List.mem_append.mp hc with hc | hc
    · rcases List.mem_cons.mp hc with rfl | hc
      · exact nomatch hmark
      · exact absurd hc (hquiet (quiet_faces hns))
    · rw [List.mem_singleton.mp hc] at hmark
      exact nomatch hmark
  | back n =>
    rw [(List.mem_replicate.mp hc).2] at hmark
    exact nomatch hmark
  | suffix hd => exact hone (List.mem_singleton.mp hc) (mark?_eq_suffix_iff.mpr ⟨_, hd⟩)
  | threshold he hw _ =>
    rcases List.mem_cons.mp hc with hc | hc
    · rcases he with rfl | rfl <;> exact hone hc rfl
    · exact absurd hc (hquiet (quiet_of_numeral hw))
  | bangs n => exact hone (List.mem_replicate.mp hc).2 rfl

/-- Blanks occur in literals only. -/
theorem not_isBlank (h : Writes r x l) (hr : r ≠ .literal) : ∀ c ∈ x, isBlank c = false := by
  have hmark : ∀ {c : Char}, mark? c = some r → isBlank c = false := by
    intro c hc
    rw [Bool.eq_false_iff]
    intro hblank
    exact nomatch (mark?_of_isBlank hblank).symm.trans hc
  have hcons : ∀ {c : Char} {w : Text}, mark? c = some r → (∀ d ∈ w, isBlank d = false) →
      ∀ d ∈ c :: w, isBlank d = false := by
    intro c w hc hw d hd
    rcases List.mem_cons.mp hd with rfl | hd
    · exact hmark hc
    · exact hw d hd
  cases h with
  | selectors hws =>
    intro c hc
    rcases List.mem_append.mp hc with hc | hc
    · exact forall_mem_join hws (p := fun c => isBlank c = false) (by decide) c hc
    · rw [List.mem_singleton.mp hc]
      decide
  | count hx => exact hx.not_isBlank
  | faces _ _ => exact absurd rfl hr
  | back _ => exact absurd rfl hr
  | sides hw _ => exact hcons rfl hw.not_isBlank
  | @rerolls c sign w n hc hsign hw _ =>
    have hnumber : ∀ d ∈ sign ++ w, isBlank d = false := by
      intro d hd
      rcases List.mem_append.mp hd with hd | hd
      · rcases hsign with rfl | rfl | rfl
        · exact nomatch hd
        · rw [List.mem_singleton.mp hd]
          decide
        · rw [List.mem_singleton.mp hd]
          decide
      · exact hw.not_isBlank d hd
    rcases hc with rfl | rfl
    · exact hcons rfl hnumber
    · exact hcons rfl hnumber
  | sort => decide
  | suffix hc => exact hcons (mark?_eq_suffix_iff.mpr ⟨_, hc⟩) fun d hd => nomatch hd
  | threshold hc hw _ =>
    rcases hc with rfl | rfl
    · exact hcons rfl hw.not_isBlank
    · exact hcons rfl hw.not_isBlank
  | bangs n =>
    intro d hd
    rw [(List.mem_replicate.mp hd).2]
    decide

/-- No part begins or ends with a blank. -/
theorem not_blank_ends (h : Writes r x l) :
    (∀ c ∈ x.head?, isBlank c = false) ∧ ∀ c ∈ x.getLast?, isBlank c = false := by
  have hall : (∀ c ∈ x, isBlank c = false) →
      (∀ c ∈ x.head?, isBlank c = false) ∧ ∀ c ∈ x.getLast?, isBlank c = false := fun hx =>
    ⟨fun c hc => hx c (List.mem_of_head? hc), fun c hc => hx c (List.mem_of_getLast? hc)⟩
  by_cases hr : r = .literal
  · subst hr
    cases h with
    | faces _ _ =>
      refine ⟨fun c hc => ?_, fun c hc => ?_⟩
      · cases hc
        decide
      · rw [List.getLast?_concat] at hc
        cases hc
        decide
    | back n =>
      refine hall fun c hc => ?_
      rw [(List.mem_replicate.mp hc).2]
      decide
  · exact hall (h.not_isBlank hr)

theorem not_blank_head (h : Writes r x l) (b : Text) : ∀ c ∈ (x ++ b).head?, isBlank c = false := by
  rw [List.head?_append_of_ne_nil _ h.ne_nil]
  exact h.not_blank_ends.1

end Writes

end DiceCode

end DiceNotation
