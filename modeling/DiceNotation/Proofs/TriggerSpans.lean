import Mathlib
import DiceNotation.Proofs.Failure
import DiceNotation.Text.Segments

/-!
# Triggers and segments

A text is read for its ampersands twice.  When it is divided into segments, a flag tells whether the
reader is inside of a trigger; when it is scanned for triggers, the pieces between ampersands are
taken two at a time.  A semicolon is one of a trigger to the first reader exactly if it is one to
the second, so that scanning the segments one after another finds what scanning the text does.

The common ground of the two is `Pairs`: a text whose ampersands can be paired off, with what is
between the two of each pair.  Such texts can be put one after another, and a text is one of them
exactly if it has an even number of ampersands, which is all that the flag keeps.

* `Script.Pairs`, `Script.Pairs.append`, `Script.exists_pairs`: texts with paired ampersands.
* `Script.Pairs.scan`, `Script.scan_leftOver`: what scanning comes to, pair or no pair.
* `Text.segmentsFrom_eq`, `Text.segments_induction`: where the first segment ends.
* `Script.scan_segments`: the text and its segments have the same triggers.
-/

namespace DiceNotation

namespace Script

/-! ## Texts with paired ampersands -/

/-- The ampersands of a text are paired off, and these are the texts inside of the pairs. -/
inductive Pairs : Text → List Text → Prop where
  | plain {t : Text} (ht : '&' ∉ t) : Pairs t []
  | pair {before inside after : Text} {insides : List Text} (hbefore : '&' ∉ before)
      (hinside : '&' ∉ inside) (hafter : Pairs after insides) :
      Pairs (before ++ '&' :: (inside ++ '&' :: after)) (inside :: insides)

/-- Text without ampersands before the first pair changes nothing. -/
theorem Pairs.prepend {t front : Text} {insides : List Text} (h : Pairs t insides)
    (hfront : '&' ∉ front) : Pairs (front ++ t) insides := by
  cases h with
  | plain ht => exact .plain fun hmem => (List.mem_append.mp hmem).elim hfront ht
  | pair hbefore hinside hafter =>
    rw [← List.append_assoc]
    exact .pair (fun hmem => (List.mem_append.mp hmem).elim hfront hbefore) hinside hafter

/-- Paired texts one after another are paired, and nothing is paired across the border. -/
theorem Pairs.append {t u : Text} {insides insides' : List Text} (h : Pairs t insides)
    (h' : Pairs u insides') : Pairs (t ++ u) (insides ++ insides') := by
  induction h with
  | plain ht => exact h'.prepend ht
  | pair hbefore hinside _ ih =>
    rw [List.append_assoc, List.cons_append, List.append_assoc, List.cons_append]
    exact .pair hbefore hinside ih

theorem Pairs.even_count {t : Text} {insides : List Text} (h : Pairs t insides) :
    Even (t.count '&') := by
  induction h with
  | plain ht => rw [List.count_eq_zero.mpr ht]; exact Even.zero
  | pair hbefore hinside _ ih =>
    simp only [List.count_append, List.count_cons_self, List.count_eq_zero.mpr hbefore,
      List.count_eq_zero.mpr hinside]
    grind

/-- The ampersands of a text are paired off, or all but the last of them are. -/
theorem exists_pairs_or (t : Text) : (∃ insides, Pairs t insides) ∨
    ∃ a b insides, t = a ++ '&' :: b ∧ Pairs a insides ∧ '&' ∉ b := by
  induction t using List.reverseRecOn with
  | nil => exact .inl ⟨[], .plain List.not_mem_nil⟩
  | append_singleton t c ih =>
    by_cases hc : c = '&'
    · subst hc
      rcases ih with ⟨insides, h⟩ | ⟨a, b, insides, rfl, ha, hb⟩
      · exact .inr ⟨t, [], insides, rfl, h, List.not_mem_nil⟩
      · have hpair : Pairs ([] ++ '&' :: (b ++ ['&'])) [b] :=
          .pair List.not_mem_nil hb (.plain List.not_mem_nil)
        rw [List.append_assoc, List.cons_append]
        exact .inl ⟨_, ha.append hpair⟩
    · have hplain : '&' ∉ [c] := fun hmem => hc (List.mem_singleton.mp hmem).symm
      rcases ih with ⟨insides, h⟩ | ⟨a, b, insides, rfl, ha, hb⟩
      · exact .inl ⟨_, h.append (.plain hplain)⟩
      · refine .inr ⟨a, b ++ [c], insides, by rw [List.append_assoc, List.cons_append], ha, ?_⟩
        exact fun hmem => (List.mem_append.mp hmem).elim hb hplain

/-- Any text with an even number of ampersands is paired. -/
theorem exists_pairs {t : Text} (h : Even (t.count '&')) : ∃ insides, Pairs t insides := by
  rcases exists_pairs_or t with hpairs | ⟨a, b, insides, rfl, ha, hb⟩
  · exact hpairs
  · have := ha.even_count
    rw [List.count_append, List.count_cons_self, List.count_eq_zero.mpr hb] at h
    grind

/-! ## Scanning -/

theorem isAmpersand_eq_false {t : Text} (ht : '&' ∉ t) : ∀ c ∈ t, isAmpersand c = false := by
  intro c hc
  rw [isAmpersand, beq_eq_false_iff_ne]
  rintro rfl
  exact ht hc

theorem pieces_before {before : Text} (h : '&' ∉ before) (t : Text) :
    Text.pieces isAmpersand (before ++ '&' :: t) = before :: Text.pieces isAmpersand t :=
  Text.pieces_append_cons rfl t (isAmpersand_eq_false h)

/-- The texts inside of triggers, when they take turns with the texts after them. -/
def insidesOf : List Text → List Text
  | inside :: _ :: pieces => inside :: insidesOf pieces
  | _ => []

/-- The texts inside of the triggers of a text. -/
def insides (t : Text) : List Text := insidesOf (Text.pieces isAmpersand t).tail

/-- The pieces of a paired text: one before the triggers, and two for each of them. -/
theorem Pairs.pieces {t : Text} {insides : List Text} (h : Pairs t insides) :
    ∃ lead pieces, Text.pieces isAmpersand t = lead :: pieces ∧
      pieces.length = 2 * insides.length ∧ insidesOf pieces = insides := by
  induction h with
  | @plain t ht => exact ⟨t, [], Text.pieces_of_forall_not (isAmpersand_eq_false ht), rfl, rfl⟩
  | @pair before inside after insides hbefore hinside _ ih =>
    obtain ⟨lead, pieces, hpieces, hlength, hinsides⟩ := ih
    refine ⟨before, inside :: lead :: pieces, ?_, ?_, ?_⟩
    · rw [pieces_before hbefore, pieces_before hinside, hpieces]
    · simp only [List.length_cons, hlength]
      omega
    · rw [insidesOf, hinsides]

/-- An ampersand after a paired text, and text without ampersands, are one more piece. -/
theorem Pairs.pieces_leftOver {a b : Text} {insides : List Text} (h : Pairs a insides)
    (hb : '&' ∉ b) :
    Text.pieces isAmpersand (a ++ '&' :: b) = Text.pieces isAmpersand a ++ [b] := by
  induction h with
  | plain ht =>
    rw [pieces_before ht, Text.pieces_of_forall_not (isAmpersand_eq_false hb),
      Text.pieces_of_forall_not (isAmpersand_eq_false ht)]
    rfl
  | pair hbefore hinside _ ih =>
    rw [List.append_assoc, List.cons_append, List.append_assoc, List.cons_append,
      pieces_before hbefore, pieces_before hinside, ih, pieces_before hbefore,
      pieces_before hinside]
    rfl

/-- The triggers of a script. -/
def triggers (s : Script) : List Trigger := s.rest.map Prod.fst

/-- The triggers that scanning a text finds. -/
def found (t : Text) : Except RollError (List Trigger) := (scan t).map triggers

/-- Scanning pairs the ampersands of the text off, whether its triggers can be read or not. -/
def IsPaired (t : Text) : Prop := ∀ n, scan t ≠ .error (.unmatched .ampersand n)

/-- What is read of the pieces are the triggers with these insides. -/
theorem map_ofPieces (pieces : List Text) :
    (ofPieces pieces).map (List.map Prod.fst) = (insidesOf pieces).mapM Trigger.parse := by
  fun_induction ofPieces pieces with
  | case1 inside text pieces ih =>
    rw [insidesOf, List.mapM_cons, ← ih]
    cases Trigger.parse inside with
    | error e => rfl
    | ok trigger => cases ofPieces pieces <;> rfl
  | case2 pieces hpieces =>
    rcases pieces with _ | ⟨inside, _ | ⟨text, rest⟩⟩
    · rfl
    · rfl
    · exact absurd rfl (hpieces inside text rest)

theorem Pairs.insides_eq {t : Text} {insides : List Text} (h : Pairs t insides) :
    Script.insides t = insides := by
  obtain ⟨lead, pieces, hpieces, -, rfl⟩ := h.pieces
  rw [Script.insides, hpieces, List.tail_cons]

/-- Scanning a paired text reads what is inside of the pairs, one after another. -/
theorem Pairs.found {t : Text} {insides : List Text} (h : Pairs t insides) :
    found t = insides.mapM Trigger.parse := by
  obtain ⟨lead, pieces, hpieces, hlength, rfl⟩ := h.pieces
  have heven : pieces.length % 2 = 0 := by omega
  rw [← map_ofPieces, Script.found, scan, hpieces]
  simp only [heven, if_true]
  cases ofPieces pieces <;> rfl

theorem Pairs.isPaired {t : Text} {insides : List Text} (h : Pairs t insides) : IsPaired t := by
  intro n hn
  have hfound : FailsOnly TriggerError (Script.found t) := by
    rw [h.found]
    exact failsOnly_mapM Trigger.failsOnly_parse insides
  rw [Script.found, hn] at hfound
  exact (hfound _ rfl).ne_unmatched _ _ rfl

/-- The position of an ampersand that is left over is the length of the text before it. -/
theorem scan_leftOver {a b : Text} {insides : List Text} (h : Pairs a insides) (hb : '&' ∉ b) :
    scan (a ++ '&' :: b) = .error (.unmatched .ampersand (Text.byteLength a)) := by
  obtain ⟨lead, pieces, hpieces, hlength, -⟩ := h.pieces
  have hodd : ¬ (pieces ++ [b]).length % 2 = 0 := by
    rw [List.length_append, hlength, List.length_singleton]
    omega
  rw [scan, h.pieces_leftOver hb, hpieces, List.cons_append]
  simp only [hodd, if_false, List.getLast?_concat, Option.getD_some, Text.byteLength_append,
    Text.byteLength_cons]
  have hsize : '&'.utf8Size = 1 := rfl
  rw [hsize]
  congr 2
  omega

/-- A text is paired exactly if the number of its ampersands is even. -/
theorem isPaired_iff {t : Text} : IsPaired t ↔ Even (t.count '&') := by
  refine ⟨fun h => ?_, fun h => ?_⟩
  · rcases exists_pairs_or t with ⟨insides, hpairs⟩ | ⟨a, b, insides, rfl, ha, hb⟩
    · exact hpairs.even_count
    · exact absurd (scan_leftOver ha hb) (h _)
  · obtain ⟨insides, hpairs⟩ := exists_pairs h
    exact hpairs.isPaired

theorem exists_pairs_of_isPaired {t : Text} (h : IsPaired t) : ∃ insides, Pairs t insides :=
  exists_pairs (isPaired_iff.mp h)

/-- A paired text before another one moves the ampersand that the other has left over. -/
theorem scan_append_eq_unmatched {t u : Text} {insides : List Text} (h : Pairs t insides)
    (n : Nat) : scan u = .error (.unmatched .ampersand n) ↔
      scan (t ++ u) = .error (.unmatched .ampersand (Text.byteLength t + n)) := by
  rcases exists_pairs_or u with ⟨insides', hu⟩ | ⟨a, b, insides', rfl, ha, hb⟩
  · exact iff_of_false (hu.isPaired n) ((h.append hu).isPaired _)
  · rw [← List.append_assoc, scan_leftOver ha hb, scan_leftOver (h.append ha) hb,
      Text.byteLength_append]
    simp

end Script

/-! ## Segments -/

namespace Text

open Script (Pairs)

/-- A text is one segment, or its first segment ends at a semicolon where no trigger is open. -/
theorem segmentsFrom_eq (inTrigger : Bool) (t : Text) : segmentsFrom inTrigger t = [t] ∨
    ∃ s u, t = s ++ ';' :: u ∧ Even (s.count '&' + inTrigger.toNat) ∧
      segmentsFrom inTrigger t = s :: segmentsFrom false u := by
  induction t generalizing inTrigger with
  | nil => exact .inl rfl
  | cons c t ih =>
    rw [segmentsFrom]
    split
    · next h =>
      obtain ⟨rfl, rfl⟩ := h
      exact .inr ⟨[], t, rfl, Even.zero, rfl⟩
    · rcases ih (inTrigger != (c == '&')) with hone | ⟨s, u, rfl, heven, hcut⟩
      · rw [hone]
        exact .inl rfl
      · rw [hcut]
        refine .inr ⟨c :: s, u, rfl, ?_, rfl⟩
        -- an ampersand turns the flag, and is one more to count
        rw [List.count_cons]
        revert heven
        cases inTrigger <;> cases c == '&' <;> simp only [bne, Bool.toNat] <;> grind

/-- What holds of a text that is one segment, and is kept when a paired text with a semicolon is
put before, holds of every text and its segments. -/
theorem segments_induction {motive : Text → List Text → Prop} (one : ∀ t, motive t [t])
    (cut : ∀ s u insides, Pairs s insides → motive u (segments u) →
      motive (s ++ ';' :: u) (s :: segments u)) (t : Text) : motive t (segments t) := by
  rcases segmentsFrom_eq false t with h | ⟨s, u, rfl, heven, h⟩
  · rw [segments, h]
    exact one t
  · obtain ⟨insides, hs⟩ := Script.exists_pairs heven
    rw [segments, h]
    exact cut s u insides hs (segments_induction one cut u)
termination_by t.length

end Text

namespace Script

open Text (segments)

/-- A semicolon after a paired text leaves it paired. -/
theorem Pairs.semicolon {s : Text} {insides : List Text} (h : Pairs s insides) :
    Pairs (s ++ [';']) insides := by
  have hplain : Pairs [';'] [] := .plain (by decide)
  rw [← List.append_nil insides]
  exact h.append hplain

theorem dropLast_cons_segments (s u : Text) :
    (s :: segments u).dropLast = s :: (segments u).dropLast :=
  List.dropLast_cons_of_ne_nil (Text.segmentsFrom_ne_nil false u)

/-- Only the last segment can have an ampersand left over. -/
theorem isPaired_of_mem_dropLast (t : Text) : ∀ s ∈ (segments t).dropLast, IsPaired s := by
  refine Text.segments_induction (motive := fun _ ss => ∀ s ∈ ss.dropLast, IsPaired s)
    (fun t s hs => nomatch hs) (fun s u insides hs ih s' hs' => ?_) t
  rw [dropLast_cons_segments] at hs'
  rcases List.mem_cons.mp hs' with rfl | hs'
  · exact hs.isPaired
  · exact ih s' hs'

/-- What is before the last segment is paired, so that an ampersand left over in the text is one of
the last segment, further on by what is before it. -/
theorem exists_last_segment (t : Text) : ∃ front last insides, t = front ++ last ∧
    (segments t).getLast? = some last ∧ Pairs front insides := by
  refine Text.segments_induction (motive := fun t ss => ∃ front last insides, t = front ++ last ∧
    ss.getLast? = some last ∧ Pairs front insides) (fun t => ?_) (fun s u insides hs ih => ?_) t
  · exact ⟨[], t, [], rfl, rfl, .plain List.not_mem_nil⟩
  · obtain ⟨front, last, insides', hu, hlast, hfront⟩ := ih
    refine ⟨s ++ [';'] ++ front, last, _, ?_, ?_, hs.semicolon.append hfront⟩
    · rw [hu]
      simp only [List.append_assoc, List.cons_append, List.nil_append]
    · rw [List.getLast?_cons, hlast, Option.getD_some]

theorem isPaired_segments (t : Text) : IsPaired t ↔ ∀ s ∈ segments t, IsPaired s := by
  refine Text.segments_induction (motive := fun t ss => IsPaired t ↔ ∀ s ∈ ss, IsPaired s)
    (fun t => ?_) (fun s u insides hs ih => ?_) t
  · rw [List.forall_mem_singleton]
  · have hcount := hs.even_count
    rw [List.forall_mem_cons, ← ih, isPaired_iff, isPaired_iff, isPaired_iff]
    simp only [List.count_append, List.count_cons, Nat.even_add, hcount]
    simp

/-- The triggers of a paired text are those of its segments. -/
theorem pairs_segments (t : Text) : IsPaired t → Pairs t ((segments t).flatMap insides) := by
  refine Text.segments_induction (motive := fun t ss => IsPaired t → Pairs t (ss.flatMap insides))
    (fun t ht => ?_) (fun s u insides hs ih ht => ?_) t
  · obtain ⟨insides, hpairs⟩ := exists_pairs_of_isPaired ht
    rw [List.flatMap_singleton, hpairs.insides_eq]
    exact hpairs
  · have hu : IsPaired u := by
      have hcount := hs.even_count
      rw [isPaired_iff] at ht ⊢
      simpa [Nat.even_add, hcount] using ht
    have happ := hs.semicolon.append (ih hu)
    rw [List.append_assoc, List.cons_append, List.nil_append] at happ
    rw [List.flatMap_cons, hs.insides_eq]
    exact happ

/-- Reading the insides text by text comes to reading all of them. -/
theorem mapM_flatMap_insides {ts : List Text} (h : ∀ t ∈ ts, IsPaired t) :
    (ts.flatMap insides).mapM Trigger.parse = (ts.mapM found).map List.flatten := by
  induction ts with
  | nil => rfl
  | cons t ts ih =>
    obtain ⟨insides, hpairs⟩ := exists_pairs_of_isPaired (h t List.mem_cons_self)
    rw [List.flatMap_cons, List.mapM_append, List.mapM_cons, hpairs.insides_eq, hpairs.found,
      ih fun u hu => h u (List.mem_cons_of_mem t hu)]
    cases insides.mapM Trigger.parse with
    | error e => rfl
    | ok fs => cases ts.mapM found <;> rfl

/-- **A text and its segments have the same triggers.**  The segments with semicolons between them
are the text.  The ampersands of the text are paired exactly if those of every segment are; only the
last segment can have one left over, which is then the one that the text has left over.  When all
are paired, scanning the segments one after another finds the insides and the triggers of the text,
in their order, or fails as scanning the text does. -/
theorem scan_segments (t : Text) :
    Text.join ';' (segments t) = t ∧
    (IsPaired t ↔ ∀ s ∈ segments t, IsPaired s) ∧
    (∀ s ∈ (segments t).dropLast, IsPaired s) ∧
    (∃ front last, t = front ++ last ∧ (segments t).getLast? = some last ∧
      ∀ n, scan last = .error (.unmatched .ampersand n) ↔
        scan t = .error (.unmatched .ampersand (Text.byteLength front + n))) ∧
    (IsPaired t → insides t = (segments t).flatMap insides ∧
      found t = (insides t).mapM Trigger.parse ∧
      found t = ((segments t).mapM found).map List.flatten) := by
  refine ⟨Text.join_segments t, isPaired_segments t, isPaired_of_mem_dropLast t, ?_, fun h => ?_⟩
  · obtain ⟨front, last, insides, rfl, hlast, hfront⟩ := exists_last_segment t
    exact ⟨front, last, rfl, hlast, scan_append_eq_unmatched hfront⟩
  · have hpairs := pairs_segments t h
    refine ⟨hpairs.insides_eq, ?_, ?_⟩
    · rw [hpairs.insides_eq, hpairs.found]
    · rw [hpairs.found, mapM_flatMap_insides ((isPaired_segments t).mp h)]

end Script

end DiceNotation
