import DiceNotation.Proofs.Nesting
import DiceNotation.Proofs.Partners

/-!
# Where a fault is said to be

A text with a parenthesis that has no partner cannot be resolved, and the failure names a place in
it.  The place is counted after the empty groups have vanished: the parenthesis is the one that it
should be, since nothing that vanishes gives or takes a partner (`FirstLonely.dropEmptyGroups`), but
what stood in front of it has become shorter.  So the failure is right about texts without an empty
group in front of the fault, and points at another character, or at one that has a partner, in every
text that has one there.

* `Group.of_keepGroups`: what is true without empty groups, if it stays true when one is put in.
* `Group.FirstLonely.balanced`, `Group.FirstLonely.dropEmptyGroups`.
* `Group.LonelyAt`, `unmatched_points_at_fault`.
-/

namespace DiceNotation

namespace Group

open Text (balancedFrom byteLength byteLength_append byteLength_cons)

/-! ## Empty groups put in -/

/-- What is true without empty groups is true with them, if it stays true when one is put in. -/
theorem of_keepGroups {P : Text → Prop} (hput : ∀ a b, P (a ++ b) → P (a ++ '(' :: ')' :: b))
    {kept t : Text} (h : P (keepGroups kept t)) : P (kept.reverse ++ t) := by
  fun_induction keepGroups kept t with
  | case1 kept => rwa [List.append_nil]
  | case2 t kept ih =>
    rw [List.reverse_cons, List.append_assoc, List.singleton_append]
    exact hput _ _ (ih h)
  | case3 t c kept hpair ih =>
    rw [← List.singleton_append, ← List.append_assoc, ← List.reverse_cons]
    exact ih h

theorem of_dropEmptyGroups {P : Text → Prop}
    (hput : ∀ a b, P (a ++ b) → P (a ++ '(' :: ')' :: b)) {t : Text} (h : P (dropEmptyGroups t)) :
    P t :=
  of_keepGroups hput h

theorem balancedFrom_put (depth : Nat) (a b : Text) :
    balancedFrom depth (a ++ '(' :: ')' :: b) = balancedFrom depth (a ++ b) := by
  induction a generalizing depth with
  | nil => rfl
  | cons c a ih => rw [List.cons_append, List.cons_append, balancedFrom, balancedFrom, ih]

theorem balanced_put (a b : Text) : Balanced (a ++ '(' :: ')' :: b) ↔ Balanced (a ++ b) := by
  rw [← balancedFrom_iff, ← balancedFrom_iff, balancedFrom_put]

/-- Text is balanced with its empty groups if it is so without them. -/
theorem balanced_dropEmptyGroups {t : Text} : Balanced (dropEmptyGroups t) ↔ Balanced t := by
  refine ⟨of_dropEmptyGroups fun a b => (balanced_put a b).mpr, fun h => ?_⟩
  by_contra hdrop
  exact of_dropEmptyGroups (P := fun u => ¬Balanced u)
    (fun a b hab => mt (balanced_put a b).mp hab) hdrop h

theorem Partnered.put_before {a b after : Text} {c : Char} (h : Partnered (a ++ b) c after) :
    Partnered (a ++ '(' :: ')' :: b) c after := by
  generalize hall : a ++ b = all at h
  cases h with
  | opening h => exact .opening h
  | @closing before inner _ h =>
    rcases List.append_eq_append_iff.mp hall with ⟨x, rfl, rfl⟩ | ⟨x, rfl, hx⟩
    · -- the group is put in front of the partner
      simpa using @Partnered.closing (a ++ '(' :: ')' :: x) _ _ h
    · rcases List.cons_eq_append_iff.mp hx with ⟨rfl, rfl⟩ | ⟨x, rfl, rfl⟩
      · simpa using @Partnered.closing (before ++ "()".toList) _ _ h
      · simpa using @Partnered.closing before _ _ ((balanced_put x b).mpr h)

theorem Partnered.put_after {before a b : Text} {c : Char} (h : Partnered before c (a ++ b)) :
    Partnered before c (a ++ '(' :: ')' :: b) := by
  generalize hall : a ++ b = all at h
  cases h with
  | closing h => exact .closing h
  | @opening _ inner after h =>
    rcases List.append_eq_append_iff.mp hall with ⟨x, rfl, rfl⟩ | ⟨x, rfl, hx⟩
    · simpa using @Partnered.opening before _ after ((balanced_put a x).mpr h)
    · rcases List.cons_eq_append_iff.mp hx with ⟨rfl, rfl⟩ | ⟨x, rfl, rfl⟩
      · have hgroup : Balanced (inner ++ "()".toList) := h.append (by decide)
        simpa using @Partnered.opening before _ after hgroup
      · simpa using @Partnered.opening before _ (x ++ '(' :: ')' :: b) h

/-- Partners without empty groups are partners with them. -/
theorem Partnered.of_dropEmptyGroups {a b : Text} {c : Char}
    (h : Partnered (Group.dropEmptyGroups a) c (Group.dropEmptyGroups b)) : Partnered a c b := by
  have hbefore : Partnered a c (Group.dropEmptyGroups b) :=
    Group.of_dropEmptyGroups (P := fun u => Partnered u c (Group.dropEmptyGroups b))
      (fun _ _ => put_before) h
  exact Group.of_dropEmptyGroups (P := Partnered a c) (fun _ _ => put_after) hbefore

/-! ## The fault of a text without its empty groups -/

/-- **In front of the first parenthesis without a partner the text is balanced.** -/
theorem FirstLonely.balanced {t before after : Text} {d : Delimiter}
    (h : FirstLonely t d before after) : Balanced before := by
  by_contra hbefore
  obtain ⟨d', a, b, hfirst, -⟩ := parts?_eq_error hbefore
  have hpartner := h.earlier a d'.char b hfirst.text_eq hfirst.isParenthesis
  have hlonely := hfirst.lonely
  have hlonely' := h.lonely
  rw [hfirst.text_eq] at hlonely'
  generalize hall : b ++ d.char :: after = all at hpartner
  generalize hd' : d'.char = c at hpartner hlonely hlonely'
  cases hpartner with
  | closing hinner => exact hlonely (.closing hinner)
  | @opening _ inner rest hinner =>
    -- its partner is in front of the fault, or it is the fault, or the fault is between the two
    rcases List.append_eq_append_iff.mp hall with ⟨x, rfl, hx⟩ | ⟨x, rfl, hx⟩
    · rcases List.cons_eq_append_iff.mp hx with ⟨rfl, hx⟩ | ⟨x, rfl, rfl⟩
      · obtain ⟨hd, rfl⟩ := List.cons.inj hx
        rw [List.append_nil] at hinner
        exact hlonely' (hd ▸ .closing hinner)
      · have hin := (hinner.partnered rfl h.isParenthesis).within (a ++ ['(']) (')' :: rest)
        exact hlonely' (by simpa using hin)
    · rcases List.cons_eq_append_iff.mp hx with ⟨rfl, hx⟩ | ⟨x, rfl, rfl⟩
      · obtain ⟨hd, rfl⟩ := List.cons.inj hx
        rw [List.append_nil] at hlonely'
        exact hlonely' (hd ▸ .closing hinner)
      · exact hlonely (.opening hinner)

/-- **The fault stays the fault when the empty groups vanish.** -/
theorem FirstLonely.dropEmptyGroups {t before after : Text} {d : Delimiter}
    (h : FirstLonely t d before after) :
    FirstLonely (dropEmptyGroups t) d (Group.dropEmptyGroups before)
      (Group.dropEmptyGroups after) := by
  have hlonely : ¬Partnered (Group.dropEmptyGroups before) d.char (Group.dropEmptyGroups after) :=
    fun hpartner => h.lonely hpartner.of_dropEmptyGroups
  -- nothing vanishes between the two sides and the fault, which would be a partner of it
  have hnoempty : HasNoEmpty
      (Group.dropEmptyGroups before ++ d.char :: Group.dropEmptyGroups after) := by
    refine (hasNoEmpty_dropEmptyGroups before).append
      (List.isChain_cons.mpr ⟨?_, hasNoEmpty_dropEmptyGroups after⟩) ?_
    · rintro c hc ⟨hopen, rfl⟩
      obtain ⟨rest, hrest⟩ := List.head?_eq_some_iff.mp hc
      rw [hopen, hrest] at hlonely
      exact hlonely (@Partnered.opening _ [] rest .nil)
    · rintro c hc e he ⟨rfl, rfl⟩
      have hclose : d.char = ')' := Option.some.inj he
      obtain ⟨rest, hrest⟩ := List.getLast?_eq_some_iff.mp hc
      rw [hclose, hrest] at hlonely
      exact hlonely (@Partnered.closing rest [] _ .nil)
  have htext : Group.dropEmptyGroups t =
      Group.dropEmptyGroups before ++ d.char :: Group.dropEmptyGroups after := by
    have hbefore := dropEmptyGroups_append [] before (d.char :: after)
    have hafter := dropEmptyGroups_append (Group.dropEmptyGroups before ++ [d.char]) after []
    simp only [List.nil_append, List.append_nil, List.append_assoc, List.singleton_append]
      at hbefore hafter
    rw [h.text_eq, ← hbefore, ← hafter, dropEmptyGroups_of_hasNoEmpty hnoempty]
  have halone : FirstLonely (d.char :: Group.dropEmptyGroups after) d []
      (Group.dropEmptyGroups after) := by
    have hnone : ∀ c ∈ ([] : Text), isPlain c = true := fun _ hc => nomatch hc
    refine firstLonely_of_plain hnone h.isParenthesis fun hin => ?_
    have hin := hin.within (Group.dropEmptyGroups before) []
    rw [List.append_nil, List.append_nil] at hin
    exact hlonely hin
  have hfirst := halone.prepend (balanced_dropEmptyGroups.mpr h.balanced)
  rwa [← htext, List.append_nil] at hfirst

/-- Splitting fails with the first parenthesis without a partner. -/
theorem parts?_of_firstLonely {t before after : Text} {d : Delimiter}
    (h : FirstLonely t d before after) :
    parts? t = .error (.unmatched d (byteLength before)) := by
  obtain ⟨d', before', after', hfirst, hparts⟩ :=
    parts?_eq_error fun hbalanced => not_firstLonely_of_balanced hbalanced h
  obtain ⟨rfl, rfl, -⟩ := h.unique hfirst
  exact hparts

/-! ## Places -/

/-- At a place of a text there is a delimiter, and it has no partner. -/
def LonelyAt (t : Text) (d : Delimiter) (position : Nat) : Prop :=
  ∃ before after, t = before ++ d.char :: after ∧ byteLength before = position ∧
    ¬Partnered before d.char after

theorem byteLength_keepGroups (kept t : Text) :
    keepGroups kept t = kept.reverse ++ t ∨
      byteLength (keepGroups kept t) < byteLength (kept.reverse ++ t) := by
  fun_induction keepGroups kept t with
  | case1 kept => exact Or.inl (List.append_nil _).symm
  | case2 t kept ih =>
    right
    have hlonger : byteLength (kept.reverse ++ t) <
        byteLength (('(' :: kept).reverse ++ ')' :: t) := by
      have hopen := '('.utf8Size_pos
      simp only [List.reverse_cons, byteLength_append, byteLength_cons]
      omega
    rcases ih with ih | ih
    · rwa [ih]
    · exact ih.trans hlonger
  | case3 t c kept hpair ih =>
    rw [List.reverse_cons, List.append_assoc, List.singleton_append] at ih
    exact ih

/-- A text in which there are empty groups is shorter without them. -/
theorem hasNoEmpty_or_lt (t : Text) :
    HasNoEmpty t ∨ byteLength (dropEmptyGroups t) < byteLength t := by
  rcases byteLength_keepGroups [] t with h | h
  · have hdrop := hasNoEmpty_dropEmptyGroups t
    rw [dropEmptyGroups, h] at hdrop
    exact Or.inl hdrop
  · exact Or.inr h

/-- In front of the first parenthesis without a partner there is none at any place. -/
theorem FirstLonely.not_lonelyAt {t before after : Text} {d e : Delimiter} {position : Nat}
    (h : FirstLonely t d before after) (he : isPlain e.char = false)
    (hlt : position < byteLength before) : ¬LonelyAt t e position := by
  rintro ⟨a, b, ht, rfl, hlonely⟩
  rcases List.append_eq_append_iff.mp (h.text_eq.symm.trans ht) with ⟨x, rfl, -⟩ | ⟨x, hx, hb⟩
  · rw [byteLength_append] at hlt
    omega
  · rcases List.cons_eq_append_iff.mp hb with ⟨rfl, -⟩ | ⟨x, rfl, rfl⟩
    · rw [hx, List.append_nil] at hlt
      exact absurd hlt (Nat.lt_irrefl _)
    · exact hlonely (h.earlier a e.char x hx he)

/-- In a text without an ampersand it is a parenthesis. -/
theorem isPlain_of_lonelyAt {t : Text} {d : Delimiter} {position : Nat}
    (h : LonelyAt t d position) (ht : '&' ∉ t) : isPlain d.char = false := by
  obtain ⟨before, after, htext, -, -⟩ := h
  cases d with
  | opening => rfl
  | closing => rfl
  | ampersand => exact absurd (htext ▸ List.mem_append_right before List.mem_cons_self) ht

theorem not_balanced_of_lonelyAt {t : Text} {d : Delimiter} {position : Nat}
    (h : LonelyAt t d position) (hd : isPlain d.char = false) : ¬Balanced t := by
  obtain ⟨before, after, ht, -, hlonely⟩ := h
  exact fun hbalanced => hlonely (hbalanced.partnered ht hd)

end Group

/-! ## Failures that name a place -/

open DiceNotation.Group (FirstLonely HasNoEmpty LonelyAt)
open Text (byteLength)

namespace Resolution

variable {ρ : Type} [Roller ρ] {t : Text}

/-- A text without triggers that has no atoms is not resolved. -/
theorem resolve_of_atoms?_error (again : Reentry ρ) (ht : '&' ∉ t) {e : RollError}
    (h : atoms? t = .error e) (s : Session ρ) : resolve again t s = .error (.failed e) s := by
  have hround := run_prepare_of_plain again 0 s ht
  rw [h] at hround
  exact resolve_of_prepare_error again hround

end Resolution

section Resolving

variable {ρ : Type} [Roller ρ] {s : Session ρ} {t : Text}

/-- A text without triggers fails for the first parenthesis without a partner. -/
theorem resolve_of_firstLonely (ht : '&' ∉ t) {d : Delimiter} {before after : Text}
    (h : FirstLonely t d before after) (s : Session ρ) :
    Turn.resolve t s =
      .error (.failed (.unmatched d (byteLength (Group.dropEmptyGroups before)))) s := by
  have hatoms : Resolution.atoms? t =
      .error (.unmatched d (byteLength (Group.dropEmptyGroups before))) := by
    unfold Resolution.atoms?
    rw [Group.parts?_of_firstLonely h.dropEmptyGroups]
    rfl
  rw [Turn.resolve_eq]
  exact Resolution.resolve_of_atoms?_error _ ht hatoms s

/-- The failure of a text that has a parenthesis without a partner is about the first of these. -/
theorem eq_of_resolve_unmatched (ht : '&' ∉ t) {d e : Delimiter} {before after : Text}
    {position : Nat} {s' : Session ρ} (hfirst : FirstLonely t d before after)
    (h : Turn.resolve t s = .error (.failed (.unmatched e position)) s') :
    e = d ∧ position = byteLength (Group.dropEmptyGroups before) := by
  obtain ⟨heq, -⟩ := EStateM.Result.error.inj (h.symm.trans (resolve_of_firstLonely ht hfirst s))
  exact RollError.unmatched.inj (Halt.failed.inj heq)

/-- **What is said of a fault.**  A text that has no triggers, but a parenthesis without a partner,
fails for the first of these, and leaves the session as it is; the place is counted in what is in
front of the parenthesis without the empty groups.  So a failure names a delimiter without a partner
and its place exactly when there is one in the text and no empty group is in front of the first. -/
theorem unmatched_points_at_fault (ht : '&' ∉ t) :
    (∀ d before after, FirstLonely t d before after → Turn.resolve t s =
      .error (.failed (.unmatched d (byteLength (Group.dropEmptyGroups before)))) s) ∧
    ∀ d position s', Turn.resolve t s = .error (.failed (.unmatched d position)) s' →
      (LonelyAt t d position ↔
        ∃ before after, FirstLonely t d before after ∧ HasNoEmpty before) := by
  refine ⟨fun d before after h => resolve_of_firstLonely ht h s, fun d position s' h => ?_⟩
  constructor
  · intro hat
    have hd := Group.isPlain_of_lonelyAt hat ht
    obtain ⟨d', before, after, hfirst, -⟩ :=
      Group.parts?_eq_error (Group.not_balanced_of_lonelyAt hat hd)
    obtain ⟨rfl, rfl⟩ := eq_of_resolve_unmatched ht hfirst h
    rcases Group.hasNoEmpty_or_lt before with hnone | hlt
    · exact ⟨before, after, hfirst, hnone⟩
    · exact absurd hat (hfirst.not_lonelyAt hd hlt)
  · rintro ⟨before, after, hfirst, hnone⟩
    obtain ⟨-, rfl⟩ := eq_of_resolve_unmatched ht hfirst h
    rw [Group.dropEmptyGroups_of_hasNoEmpty hnone]
    exact ⟨before, after, hfirst.text_eq, rfl, hfirst.lonely⟩

end Resolving

/-- A parenthesis behind a letter of two bytes. -/
theorem unmatched_points_at_fault_behind_two_bytes :
    let s := Session.start {} (Scripted.mk [])
    '&' ∉ "é)(".toList ∧ LonelyAt "é)(".toList .closing 2 ∧
    Turn.resolve "é)(".toList s = .error (.failed (.unmatched .closing 2)) s := by
  intro s
  have ht : '&' ∉ "é)(".toList := by decide
  have hplain : ∀ c ∈ ['é'], Group.isPlain c = true := by decide
  have hfirst : FirstLonely "é)(".toList .closing ['é'] ['('] :=
    Group.firstLonely_of_plain (d := .closing) hplain rfl
      (Group.not_partnered_close_of_plain hplain)
  obtain ⟨hfails, hpoints⟩ := unmatched_points_at_fault (s := s) ht
  have hresolve := hfails _ _ _ hfirst
  exact ⟨ht, (hpoints _ _ _ hresolve).mpr ⟨_, _, hfirst, List.isChain_singleton _⟩, hresolve⟩

/-- **A failure can name a place where the text has no fault.**  In `())` it is the last parenthesis
that has no partner, and the failure names the place of the first one. -/
theorem not_forall_unmatched_lonelyAt :
    LonelyAt "())".toList .closing 2 ∧
    Turn.resolve "())".toList (Session.start {} (Scripted.mk [])) =
      .error (.failed (.unmatched .closing 0)) (Session.start {} (Scripted.mk [])) ∧
    ¬ ∀ (t : Text) (s s' : Session Scripted) (d : Delimiter) (position : Nat), '&' ∉ t →
      (∀ name, name <:+: t → s.defines.get? name = none) →
      Turn.resolve t s = .error (.failed (.unmatched d position)) s' → LonelyAt t d position := by
  have ht : '&' ∉ "())".toList := by decide
  have hgroup : Group.Balanced "()".toList := by decide
  have hnone : ∀ c ∈ ([] : Text), Group.isPlain c = true := fun _ hc => nomatch hc
  have hlonely : ¬Group.Partnered ("()".toList ++ []) ')' [] := fun hpartner =>
    Group.not_partnered_close_of_plain hnone (hpartner.of_append hgroup)
  have hresolve : ∀ s : Session Scripted,
      Turn.resolve "())".toList s = .error (.failed (.unmatched .closing 0)) s := fun s => by
    rw [Turn.resolve_eq]
    exact Resolution.resolve_of_atoms?_error _ ht (by cbv) s
  refine ⟨⟨"()".toList, [], rfl, rfl, hlonely⟩, hresolve _, fun hall => ?_⟩
  obtain ⟨before, after, htext, hposition, -⟩ :=
    hall _ _ _ _ _ ht (fun _ _ => rfl) (hresolve (Session.start {} (Scripted.mk [])))
  cases before with
  | nil => exact absurd (List.cons.inj htext).1 (by decide)
  | cons c before =>
    have hpos := c.utf8Size_pos
    rw [Text.byteLength_cons] at hposition
    omega

end DiceNotation
