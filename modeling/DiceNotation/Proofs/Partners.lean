import DiceNotation.Proofs.TrailingWords

/-!
# Parentheses and their partners

Groups are found by a depth that is counted up and down.  What they are is said here without any
counting: text is *balanced* if it is made of characters that are no parentheses and of balanced
text between a `(` and a `)`, and two parentheses with balanced text between them are *partners*.

## The first parenthesis without a partner

A text that is not balanced has a parenthesis without a partner, and splitting it fails with the
first of these.  Before it the text is balanced: the splitting has gone through complete groups.
Balanced text in front neither gives a partner to a parenthesis nor takes one away, so the fault of
what is left after some groups is the fault of the whole text (`FirstLonely.prepend`).

* `Balanced`, `balancedFrom_iff`: balanced text, and that it is what the depth decides.
* `Partnered`, `Balanced.partnered`: parentheses with a partner.
* `FirstLonely`, `FirstLonely.prepend`, `FirstLonely.unique`: the first parenthesis without one.
* `firstLonely_of_partsFrom?`, `parts?_eq_ok_iff`: what splitting comes to.
* `closingPosition?_of_balanced`, `firstGroup?_of_balanced`: the group at a place, the first group.
* `splits_iff_balanced`.
-/

namespace DiceNotation.Group

open Text (balancedFrom byteLength byteLength_append byteLength_cons byteLength_nil depthAfter)

/-! ## Balanced text -/

/-- Text whose parentheses are balanced. -/
inductive Balanced : Text → Prop
  | nil : Balanced []
  | plain {c : Char} {t : Text} (hc : isPlain c = true) (ht : Balanced t) : Balanced (c :: t)
  | group {inner t : Text} (hinner : Balanced inner) (ht : Balanced t) :
      Balanced ('(' :: (inner ++ ')' :: t))

theorem Balanced.append {t u : Text} (ht : Balanced t) (hu : Balanced u) : Balanced (t ++ u) := by
  induction ht with
  | nil => exact hu
  | plain hc _ ih => exact .plain hc ih
  | @group inner t hinner _ _ ih =>
    rw [List.cons_append, List.append_assoc, List.cons_append]
    exact .group hinner ih

theorem balanced_of_plain {t : Text} (h : ∀ c ∈ t, isPlain c = true) : Balanced t := by
  induction t with
  | nil => exact .nil
  | cons c t ih => exact .plain (h c List.mem_cons_self) (ih fun d hd => h d (.tail c hd))

/-- Balanced text leaves the depth as it is. -/
theorem Balanced.balancedFrom_append {t : Text} (h : Balanced t) (depth : Nat) (u : Text) :
    balancedFrom depth (t ++ u) = balancedFrom depth u := by
  induction h generalizing depth u with
  | nil => rfl
  | @plain c t hc _ ih =>
    obtain ⟨hopen, hclose⟩ := isPlain_iff.mp hc
    rw [List.cons_append, balancedFrom, depthAfter, if_neg hopen, if_neg hclose, ih,
      bne_iff_ne.mpr hclose, Bool.true_or, Bool.true_and]
  | @group inner t _ _ ihinner ih =>
    have hopen : balancedFrom depth ('(' :: (inner ++ ')' :: t ++ u)) =
        balancedFrom (depth + 1) (inner ++ ')' :: t ++ u) := rfl
    have hclose : balancedFrom (depth + 1) (')' :: (t ++ u)) = balancedFrom depth (t ++ u) := rfl
    rw [List.cons_append, hopen, List.append_assoc, ihinner, List.cons_append, hclose, ih]

/-- Where a parenthesis is open, balanced text is in front of the one that closes it. -/
theorem exists_balanced_of_balancedFrom_succ {depth : Nat} {t : Text}
    (h : balancedFrom (depth + 1) t = true) :
    ∃ a b, t = a ++ ')' :: b ∧ Balanced a ∧ balancedFrom depth b = true := by
  match t with
  | [] => exact absurd h (by simp [balancedFrom])
  | c :: t =>
    by_cases hclose : c = ')'
    · subst hclose
      exact ⟨[], t, rfl, .nil, h⟩
    by_cases hopen : c = '('
    · subst hopen
      have h : balancedFrom (depth + 1 + 1) t = true := h
      obtain ⟨a, b, ht, ha, hb⟩ := exists_balanced_of_balancedFrom_succ h
      have hlt : b.length < t.length := by
        rw [ht, List.length_append, List.length_cons]
        omega
      obtain ⟨a', b', rfl, ha', hb'⟩ := exists_balanced_of_balancedFrom_succ hb
      exact ⟨'(' :: (a ++ ')' :: a'), b', by simp [ht], .group ha ha', hb'⟩
    · have hc : isPlain c = true := isPlain_iff.mpr ⟨hopen, hclose⟩
      rw [balancedFrom, depthAfter, if_neg hopen, if_neg hclose, Bool.and_eq_true] at h
      obtain ⟨a, b, rfl, ha, hb⟩ := exists_balanced_of_balancedFrom_succ h.2
      exact ⟨c :: a, b, rfl, .plain hc ha, hb⟩
termination_by t.length
decreasing_by all_goals simp only [List.length_cons]; omega

theorem balanced_of_balancedFrom {t : Text} (h : balancedFrom 0 t = true) : Balanced t := by
  match t with
  | [] => exact .nil
  | c :: t =>
    by_cases hopen : c = '('
    · subst hopen
      have h : balancedFrom (0 + 1) t = true := h
      obtain ⟨a, b, ht, ha, hb⟩ := exists_balanced_of_balancedFrom_succ h
      have hlt : b.length < t.length := by
        rw [ht, List.length_append, List.length_cons]
        omega
      exact ht ▸ .group ha (balanced_of_balancedFrom hb)
    · rw [balancedFrom, Bool.and_eq_true] at h
      have hclose : c ≠ ')' := by
        rintro rfl
        exact absurd h.1 (by decide)
      rw [depthAfter, if_neg hopen, if_neg hclose] at h
      exact .plain (isPlain_iff.mpr ⟨hopen, hclose⟩) (balanced_of_balancedFrom h.2)
termination_by t.length
decreasing_by all_goals simp only [List.length_cons]; omega

/-- **Counting decides whether text is balanced.** -/
theorem balancedFrom_iff {t : Text} : balancedFrom 0 t = true ↔ Balanced t := by
  refine ⟨balanced_of_balancedFrom, fun h => ?_⟩
  have hcount := h.balancedFrom_append 0 []
  rwa [List.append_nil] at hcount

instance : DecidablePred Balanced := fun t =>
  decidable_of_iff (balancedFrom 0 t = true) balancedFrom_iff

/-- Text in which more is closed than opened is not balanced. -/
theorem not_balanced_append_close {t : Text} (h : Balanced t) (u : Text) :
    ¬Balanced (t ++ ')' :: u) := by
  rw [← balancedFrom_iff, h.balancedFrom_append]
  exact Bool.false_ne_true

/-! ## Partners -/

/-- The parenthesis between two texts has a partner in the text that these make up with it. -/
inductive Partnered : Text → Char → Text → Prop
  | opening {before inner after : Text} (h : Balanced inner) :
      Partnered before '(' (inner ++ ')' :: after)
  | closing {before inner after : Text} (h : Balanced inner) :
      Partnered (before ++ '(' :: inner) ')' after

/-- Partners stay partners in a longer text. -/
theorem Partnered.within {a b : Text} {c : Char} (h : Partnered a c b) (x y : Text) :
    Partnered (x ++ a) c (b ++ y) := by
  cases h with
  | opening h =>
    rw [List.append_assoc]
    exact .opening h
  | closing h =>
    rw [← List.append_assoc]
    exact .closing h

/-- **In balanced text every parenthesis has a partner.** -/
theorem Balanced.partnered {t a b : Text} {c : Char} (h : Balanced t) (ht : t = a ++ c :: b)
    (hc : isPlain c = false) : Partnered a c b := by
  induction h generalizing a b with
  | nil => exact absurd ht (by simp)
  | @plain d t hd _ ih =>
    rcases List.cons_eq_append_iff.mp ht with ⟨-, ht⟩ | ⟨a, rfl, rfl⟩
    · obtain ⟨rfl, -⟩ := List.cons.inj ht
      rw [hd] at hc
      exact nomatch hc
    · have hin := (ih rfl).within [d] []
      rwa [List.append_nil] at hin
  | @group inner t hinner _ ihinner ih =>
    rcases List.cons_eq_append_iff.mp ht with ⟨rfl, ht⟩ | ⟨a, rfl, ht⟩
    · obtain ⟨rfl, rfl⟩ := List.cons.inj ht
      exact .opening hinner
    have hsplit : inner ++ ')' :: t = a ++ c :: b := (List.cons.inj ht).2
    -- the parenthesis is in the group, or it closes the group, or it comes after the group
    rcases List.append_eq_append_iff.mp hsplit with ⟨d, rfl, hd⟩ | ⟨d, rfl, hd⟩
    · rcases List.cons_eq_append_iff.mp hd with ⟨rfl, hd⟩ | ⟨d, rfl, rfl⟩
      · obtain ⟨rfl, rfl⟩ := List.cons.inj hd
        rw [List.append_nil]
        exact @Partnered.closing [] _ _ hinner
      · have hin := (ih rfl).within ('(' :: (inner ++ [')'])) []
        simpa using hin
    · rcases List.cons_eq_append_iff.mp hd with ⟨rfl, hd⟩ | ⟨d, rfl, rfl⟩
      · obtain ⟨rfl, rfl⟩ := List.cons.inj hd
        rw [List.append_nil] at hinner
        exact @Partnered.closing [] _ _ hinner
      · exact (ihinner rfl).within ['('] (')' :: t)

/-! ## The first parenthesis without a partner -/

/-- A parenthesis has no partner, and every one before it has a partner. -/
structure FirstLonely (t : Text) (d : Delimiter) (before after : Text) : Prop where
  text_eq : t = before ++ d.char :: after
  isParenthesis : isPlain d.char = false
  lonely : ¬Partnered before d.char after
  earlier : ∀ a c b, before = a ++ c :: b → isPlain c = false →
    Partnered a c (b ++ d.char :: after)

theorem not_firstLonely_of_balanced {t before after : Text} {d : Delimiter} (h : Balanced t) :
    ¬FirstLonely t d before after := fun hlonely =>
  hlonely.lonely (h.partnered hlonely.text_eq hlonely.isParenthesis)

theorem Delimiter.char_injective {d d' : Delimiter} (h : d.char = d'.char) : d = d' := by
  cases d <;> cases d' <;> first | rfl | exact absurd h (by decide)

/-- There is one first parenthesis without a partner. -/
theorem FirstLonely.unique {t before before' after after' : Text} {d d' : Delimiter}
    (h : FirstLonely t d before after) (h' : FirstLonely t d' before' after') :
    d = d' ∧ before = before' ∧ after = after' := by
  have heq := h.text_eq.symm.trans h'.text_eq
  rcases List.append_eq_append_iff.mp heq with ⟨x, rfl, hx⟩ | ⟨x, rfl, hx⟩
  · rcases List.cons_eq_append_iff.mp hx with ⟨rfl, hx⟩ | ⟨x, rfl, rfl⟩
    · obtain ⟨hd, rfl⟩ := List.cons.inj hx
      exact ⟨Delimiter.char_injective hd, (List.append_nil _).symm, rfl⟩
    · exact absurd (h'.earlier _ _ _ rfl h.isParenthesis) h.lonely
  · rcases List.cons_eq_append_iff.mp hx with ⟨rfl, hx⟩ | ⟨x, rfl, rfl⟩
    · obtain ⟨hd, rfl⟩ := List.cons.inj hx
      exact ⟨Delimiter.char_injective hd.symm, List.append_nil _, rfl⟩
    · exact absurd (h.earlier _ _ _ rfl h'.isParenthesis) h'.lonely

/-- A partner across balanced text is a partner without it. -/
theorem Partnered.of_append {front before after : Text} {c : Char} (hfront : Balanced front)
    (h : Partnered (front ++ before) c after) : Partnered before c after := by
  generalize hall : front ++ before = all at h
  cases h with
  | opening h => exact .opening h
  | @closing x inner _ h =>
    rcases List.append_eq_append_iff.mp hall with ⟨y, rfl, rfl⟩ | ⟨y, rfl, hy⟩
    · exact .closing h
    · rcases List.cons_eq_append_iff.mp hy with ⟨rfl, rfl⟩ | ⟨y, rfl, rfl⟩
      · exact @Partnered.closing [] _ _ h
      · -- the partner would be one in the balanced text already
        have hpartner := hfront.partnered rfl (by decide : isPlain '(' = false)
        generalize hrest : y = rest at hpartner
        cases hpartner with
        | @opening _ inner' after' h' =>
          subst hrest
          rw [List.append_assoc, List.cons_append] at h
          exact absurd h (not_balanced_append_close h' _)

/-- **Balanced text in front does not matter** for which parenthesis is the first without a
partner. -/
theorem FirstLonely.prepend {front t before after : Text} {d : Delimiter} (hfront : Balanced front)
    (h : FirstLonely t d before after) : FirstLonely (front ++ t) d (front ++ before) after where
  text_eq := by rw [h.text_eq, List.append_assoc]
  isParenthesis := h.isParenthesis
  lonely hpartner := h.lonely (hpartner.of_append hfront)
  earlier a c b hsplit hc := by
    rcases List.append_eq_append_iff.mp hsplit with ⟨x, rfl, rfl⟩ | ⟨x, rfl, hx⟩
    · have hin := (h.earlier x c b rfl hc).within front []
      rwa [List.append_nil] at hin
    · rcases List.cons_eq_append_iff.mp hx with ⟨rfl, rfl⟩ | ⟨x, rfl, rfl⟩
      · simpa using (h.earlier [] c b rfl hc).within a []
      · rw [List.append_assoc]
        exact (hfront.partnered rfl hc).within [] _

/-! ## Splitting -/

theorem closed_iff {inner : Text} : Closed inner ↔ Balanced inner := by
  refine ⟨fun h => balancedFrom_iff.mp (balancedFrom_of_cutClose (h [])), fun h rest => ?_⟩
  exact cutClose_of_balancedFrom (balancedFrom_iff.mpr h) rest

/-- A parenthesis after text without parentheses is the first without a partner if it has none. -/
theorem firstLonely_of_plain {plain rest : Text} {d : Delimiter}
    (hplain : ∀ c ∈ plain, isPlain c = true) (hd : isPlain d.char = false)
    (h : ¬Partnered plain d.char rest) :
    FirstLonely (plain ++ d.char :: rest) d plain rest where
  text_eq := rfl
  isParenthesis := hd
  lonely := h
  earlier a c b hsplit hc := by
    rw [hplain c (hsplit ▸ List.mem_append_right a List.mem_cons_self)] at hc
    exact nomatch hc

theorem not_partnered_close_of_plain {plain rest : Text} (h : ∀ c ∈ plain, isPlain c = true) :
    ¬Partnered plain ')' rest := by
  rintro ⟨⟩
  exact absurd (h '(' (List.mem_append_right _ List.mem_cons_self)) (by decide)

theorem not_partnered_open_of_cutClose {before rest : Text} (h : cutClose 1 rest = none) :
    ¬Partnered before '(' rest := by
  rintro ⟨hinner⟩
  rw [cutClose_of_balancedFrom (balancedFrom_iff.mpr hinner)] at h
  exact nomatch h

/-- **Where splitting fails, it fails with the first parenthesis without a partner.** -/
theorem firstLonely_of_partsFrom? {position : Nat} {t : Text} {e : RollError}
    (h : partsFrom? position t = .error e) : ∃ d before after, FirstLonely t d before after ∧
      e = .unmatched d (position + byteLength before) := by
  have hplain : ∀ t : Text, ∀ c ∈ t.takeWhile isPlain, isPlain c = true :=
    fun t c hc => List.mem_takeWhile_imp hc
  fun_induction partsFrom? position t generalizing e with
  | case1 => cases h
  | case2 position t plain start rest =>
    rename_i hrest
    cases h
    have ht : t = plain ++ ')' :: rest := by
      rw [← hrest]
      exact (List.takeWhile_append_dropWhile).symm
    refine ⟨.closing, plain, rest, ?_, rfl⟩
    rw [ht]
    exact firstLonely_of_plain (d := .closing) (hplain t) rfl
      (not_partnered_close_of_plain (hplain t))
  | case3 position t plain start c rest hrest hclose =>
    rename_i hcut
    cases h
    have ht := exists_of_dropWhile_isPlain hrest hclose
    refine ⟨.opening, plain, rest, ?_, rfl⟩
    rw [ht]
    exact firstLonely_of_plain (d := .opening) (hplain t) rfl
      (not_partnered_open_of_cutClose hcut)
  | case4 position t plain start c rest hrest hclose inner after hcut =>
    rename_i ih
    cases hafter : partsFrom? (start + byteLength inner + 2) after with
    | ok parts =>
      rw [hafter] at h
      cases h
    | error e' =>
      rw [hafter] at h
      cases h
      obtain ⟨d, before, after', hlonely, rfl⟩ := ih hafter
      have hinner : Balanced inner := closed_iff.mp (closed_of_cutClose hcut)
      have hfront : Balanced (plain ++ '(' :: (inner ++ [')'])) :=
        (balanced_of_plain (hplain t)).append (.group hinner .nil)
      have ht : t = plain ++ '(' :: (inner ++ [')']) ++ after := by
        have ht := exists_of_dropWhile_isPlain hrest hclose
        rw [eq_append_of_cutClose hcut] at ht
        simpa using ht
      refine ⟨d, _, after', ht ▸ hlonely.prepend hfront, congrArg _ ?_⟩
      simp only [byteLength_append, byteLength_cons, byteLength_nil]
      have hopen : '('.utf8Size = 1 := rfl
      have hshut : ')'.utf8Size = 1 := rfl
      omega

theorem Part.Uniform.balanced {p : Part} (h : p.Uniform) : Balanced p.text := by
  cases p with
  | plain t => exact balanced_of_plain h.2
  | group inner => exact .group (closed_iff.mp h) .nil

theorem balanced_flatMap_text {ps : List Part} (h : ∀ p ∈ ps, p.Uniform) :
    Balanced (ps.flatMap Part.text) := by
  induction ps with
  | nil => exact .nil
  | cons p ps ih =>
    rw [List.flatMap_cons]
    exact (h p List.mem_cons_self).balanced.append (ih fun q hq => h q (.tail p hq))

theorem balanced_of_parts? {t : Text} {ps : List Part} (h : parts? t = .ok ps) : Balanced t := by
  obtain ⟨horderly, htext⟩ := orderly_of_partsFrom? h
  rw [← htext]
  exact balanced_flatMap_text horderly.uniform

/-- **Splitting succeeds on balanced text, and on no other.** -/
theorem parts?_eq_ok_iff {t : Text} : (∃ ps, parts? t = .ok ps) ↔ Balanced t := by
  refine ⟨fun ⟨ps, hps⟩ => balanced_of_parts? hps, fun h => ?_⟩
  cases hparts : parts? t with
  | ok ps => exact ⟨ps, rfl⟩
  | error e =>
    obtain ⟨d, before, after, hlonely, -⟩ := firstLonely_of_partsFrom? hparts
    exact absurd hlonely (not_firstLonely_of_balanced h)

theorem parts?_eq_error {t : Text} (h : ¬Balanced t) : ∃ d before after,
    FirstLonely t d before after ∧ parts? t = .error (.unmatched d (byteLength before)) := by
  cases hparts : parts? t with
  | ok ps => exact absurd (balanced_of_parts? hparts) h
  | error e =>
    obtain ⟨d, before, after, hlonely, rfl⟩ := firstLonely_of_partsFrom? hparts
    rw [Nat.zero_add]
    exact ⟨d, before, after, hlonely, rfl⟩

/-! ## The group at a place -/

theorem dropBytes_byteLength_append (t u : Text) : dropBytes (byteLength t) (t ++ u) = u := by
  induction t with
  | nil => exact dropBytes.eq_1 u
  | cons c t ih =>
    have hpos := c.utf8Size_pos
    obtain ⟨n, hn⟩ : ∃ n, byteLength (c :: t) = n + 1 :=
      ⟨byteLength (c :: t) - 1, by rw [byteLength_cons]; omega⟩
    rw [hn, List.cons_append, dropBytes, ← hn, byteLength_cons, Nat.add_sub_cancel_left, ih]

/-- **The end of a group is the partner of its start.** -/
theorem closingPosition?_of_balanced {inner : Text} (h : Balanced inner) (before after : Text) :
    closingPosition? (before ++ '(' :: (inner ++ ')' :: after)) (byteLength before) =
      .ok (byteLength (before ++ '(' :: inner)) := by
  rw [closingPosition?, dropBytes_byteLength_append, cutClose,
    cutClose_of_balancedFrom (balancedFrom_iff.mpr h), byteLength_append]
  rfl

theorem closingPosition?_of_not_partnered {before after : Text} (h : ¬Partnered before '(' after) :
    closingPosition? (before ++ '(' :: after) (byteLength before) =
      .error (.unmatched .opening (byteLength before)) := by
  have hcut : cutClose 1 after = none := by
    cases hcut : cutClose 1 after with
    | none => rfl
    | some cut =>
      rw [eq_append_of_cutClose hcut] at h
      exact absurd (.opening (closed_iff.mp (closed_of_cutClose hcut))) h
  rw [closingPosition?, dropBytes_byteLength_append, cutClose, hcut]
  rfl

/-- **The first group of a text is the one after the text without parentheses.** -/
theorem firstGroup?_of_balanced {plain inner : Text} (hplain : ∀ c ∈ plain, isPlain c = true)
    (h : Balanced inner) (after : Text) :
    firstGroup? (plain ++ '(' :: (inner ++ ')' :: after)) = .ok inner := by
  have hopen : ∀ c ∈ plain, (c == '(') = false := fun c hc =>
    beq_eq_false_iff_ne.mpr (isPlain_iff.mp (hplain c hc)).1
  have hclose : ∀ c ∈ plain, (c == ')') = false := fun c hc =>
    beq_eq_false_iff_ne.mpr (isPlain_iff.mp (hplain c hc)).2
  rw [firstGroup?, Text.cutFirst_append hopen rfl]
  dsimp only
  rw [Text.cutFirst_eq_none hclose]
  dsimp only
  rw [cutClose_of_balancedFrom (balancedFrom_iff.mpr h)]

/-! ## Balanced text and its parts -/

/-- **Splitting into groups accepts balanced text and loses nothing.**

Balanced text is split into parts that make it up: plain parts, which are not empty and have no
parentheses, and groups of balanced text.  For other text the error is the first parenthesis
without a partner, at the number of bytes before it.  By the same partners the end of a group is
found, the first group of a text, and whether a text is one group. -/
theorem splits_iff_balanced (t : Text) :
    ((∃ ps, parts? t = .ok ps) ↔ Balanced t) ∧
    (∀ ps, parts? t = .ok ps → ps.flatMap Part.text = t ∧
      (∀ u, .plain u ∈ ps → u ≠ [] ∧ ∀ c ∈ u, isPlain c = true) ∧
      ∀ inner, .group inner ∈ ps → Balanced inner) ∧
    (¬Balanced t → ∃ d before after,
      FirstLonely t d before after ∧ parts? t = .error (.unmatched d (byteLength before))) ∧
    (∀ before inner after, t = before ++ '(' :: (inner ++ ')' :: after) → Balanced inner →
      closingPosition? t (byteLength before) = .ok (byteLength (before ++ '(' :: inner))) ∧
    (∀ before after, t = before ++ '(' :: after → ¬Partnered before '(' after →
      closingPosition? t (byteLength before) = .error (.unmatched .opening (byteLength before))) ∧
    (∀ plain inner after, t = plain ++ '(' :: (inner ++ ')' :: after) →
      (∀ c ∈ plain, isPlain c = true) → Balanced inner → firstGroup? t = .ok inner) ∧
    ((wrapped? t).isSome = true ↔ ∃ inner, t = '(' :: (inner ++ [')']) ∧ Balanced inner) := by
  refine ⟨parts?_eq_ok_iff, fun ps hps => ?_, parts?_eq_error, ?_, ?_, ?_, ?_⟩
  · obtain ⟨horderly, htext⟩ := orderly_of_partsFrom? hps
    exact ⟨htext, fun u hu => horderly.uniform _ hu,
      fun inner hinner => closed_iff.mp (horderly.uniform _ hinner)⟩
  · rintro before inner after rfl hinner
    exact closingPosition?_of_balanced hinner before after
  · rintro before after rfl hlonely
    exact closingPosition?_of_not_partnered hlonely
  · rintro plain inner after rfl hplain hinner
    exact firstGroup?_of_balanced hplain hinner after
  · rw [Option.isSome_iff_exists]
    exact exists_congr fun inner => by rw [wrapped?_eq_some_iff, balancedFrom_iff]

/-- The parenthesis at the end has no partner, and is named by the bytes before it: `ß` takes
two. -/
theorem splits_iff_balanced_bytes :
    ¬Balanced ['(', 'ß', ')', ')'] ∧ ∃ d before after,
      FirstLonely ['(', 'ß', ')', ')'] d before after ∧
        parts? ['(', 'ß', ')', ')'] = .error (.unmatched d (byteLength before)) ∧
        byteLength before = 4 := by
  have h : ¬Balanced ['(', 'ß', ')', ')'] := by decide
  obtain ⟨d, before, after, hlonely, herror⟩ := (splits_iff_balanced _).2.2.1 h
  refine ⟨h, d, before, after, hlonely, herror, ?_⟩
  have hparts : parts? ['(', 'ß', ')', ')'] = .error (.unmatched .closing 4) := by decide +kernel
  injection herror.symm.trans hparts with herror
  injection herror

end DiceNotation.Group
