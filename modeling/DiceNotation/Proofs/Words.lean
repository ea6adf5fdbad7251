import DiceNotation.Text.Name
import DiceNotation.Text.Word
import Mathlib.Data.List.Chain

/-!
# Lists of runs that are the runs of a text

The runs of a text make up the text.  The other direction needs a condition: a list of runs is
the list of runs of its own text if every run has characters, all of its own kind, and words and
gaps take turns.  The runs of every text are like this (`orderly_runs`), and nothing else is
needed (`runs_flatMap_text`).

Taking turns depends on the kinds alone.  So a word can be put in the place of another, and the runs
around it are the same as before (`runs_replace`).

* `Run.Uniform`, `Orderly`.
* `orderly_runs`, `runs_flatMap_text`, `runs_replace`.
-/

namespace DiceNotation.Text

namespace Run

/-- Whether a run is a word. -/
def isWord : Run → Bool
  | .word _ => true
  | .gap _ => false

/-- A run has characters, and all of them are of its kind. -/
def Uniform (r : Run) : Prop := r.text ≠ [] ∧ ∀ c ∈ r.text, isWordChar c = r.isWord

/-- The run of a kind with the given characters. -/
def ofKind : Bool → Text → Run
  | true, t => .word t
  | false, t => .gap t

theorem ofKind_isWord_text (r : Run) : ofKind r.isWord r.text = r := by
  cases r with
  | word w => rfl
  | gap g => rfl

end Run

/-- A character that starts a name is part of a word. -/
theorem isWordChar_of_isNameStart {c : Char} (h : isNameStart c = true) : isWordChar c = true := by
  rw [isNameStart, Bool.or_eq_true, beq_iff_eq] at h
  have hascii : c.toNat < 128 := by
    rcases h with h | rfl
    · unfold Char.isAlpha Char.isUpper Char.isLower at h
      simp only [Bool.or_eq_true, Bool.and_eq_true, decide_eq_true_eq, UInt32.le_iff_toNat_le,
        Char.reduceVal, UInt32.reduceToNat] at h
      show c.val.toNat < 128
      omega
    · decide
  rw [isWordChar_of_ascii hascii, Char.isAlphanum, Bool.or_eq_true, Bool.or_eq_true, beq_iff_eq]
  exact h.imp_left Or.inl

/-- Words and gaps take turns, and all of them are uniform. -/
structure Orderly (rs : List Run) : Prop where
  uniform : ∀ r ∈ rs, r.Uniform
  turns : (rs.map Run.isWord).IsChain (· ≠ ·)

theorem orderly_nil : Orderly [] := ⟨fun _ hr => absurd hr List.not_mem_nil, List.isChain_nil⟩

/-- A run can be put in front of runs that do not start with its kind. -/
theorem orderly_cons {r : Run} {rs : List Run} (hr : r.Uniform) (hrs : Orderly rs)
    (h : ∀ r' ∈ rs.head?, r.isWord ≠ r'.isWord) : Orderly (r :: rs) := by
  refine ⟨?_, ?_⟩
  · rintro r' hr'
    rcases List.mem_cons.mp hr' with rfl | hr'
    · exact hr
    · exact hrs.uniform r' hr'
  · rw [List.map_cons, List.isChain_cons]
    refine ⟨?_, hrs.turns⟩
    intro k hk
    rw [List.head?_map] at hk
    obtain ⟨r', hr', rfl⟩ := Option.map_eq_some_iff.mp hk
    exact h r' hr'

/-- What is left of orderly runs without the first one. -/
theorem Orderly.tail {r : Run} {rs : List Run} (h : Orderly (r :: rs)) :
    r.Uniform ∧ Orderly rs ∧ ∀ r' ∈ rs.head?, r.isWord ≠ r'.isWord := by
  obtain ⟨huniform, hturns⟩ := h
  rw [List.map_cons, List.isChain_cons] at hturns
  refine ⟨huniform r List.mem_cons_self, ?_, ?_⟩
  · exact ⟨fun r' hr' => huniform r' (List.mem_cons_of_mem r hr'), hturns.2⟩
  · intro r' hr'
    refine hturns.1 _ ?_
    rw [List.head?_map, hr']
    rfl

/-- A character goes to the first run if it is of its kind, and else in front of it. -/
theorem consRun_eq (c : Char) (rs : List Run) :
    (∃ r rest, rs = r :: rest ∧ r.isWord = isWordChar c ∧
      consRun c rs = Run.ofKind (isWordChar c) (c :: r.text) :: rest) ∨
    ((∀ r ∈ rs.head?, isWordChar c ≠ r.isWord) ∧
      consRun c rs = Run.ofKind (isWordChar c) [c] :: rs) := by
  unfold consRun
  cases hc : isWordChar c with
  | true =>
    cases rs with
    | nil => exact Or.inr ⟨fun r hr => (nomatch hr), rfl⟩
    | cons r rest =>
      cases r with
      | word w => exact Or.inl ⟨.word w, rest, rfl, rfl, rfl⟩
      | gap g =>
        refine Or.inr ⟨?_, rfl⟩
        rintro r ⟨⟩
        exact Bool.noConfusion
  | false =>
    cases rs with
    | nil => exact Or.inr ⟨fun r hr => (nomatch hr), rfl⟩
    | cons r rest =>
      cases r with
      | gap g => exact Or.inl ⟨.gap g, rest, rfl, rfl, rfl⟩
      | word w =>
        refine Or.inr ⟨?_, rfl⟩
        rintro r ⟨⟩
        exact Bool.noConfusion

theorem isWord_ofKind (k : Bool) (t : Text) : (Run.ofKind k t).isWord = k := by
  cases k with
  | true => rfl
  | false => rfl

theorem text_ofKind (k : Bool) (t : Text) : (Run.ofKind k t).text = t := by
  cases k with
  | true => rfl
  | false => rfl

/-- **The runs of a text are orderly.** -/
theorem orderly_runs (t : Text) : Orderly (runs t) := by
  induction t with
  | nil => exact orderly_nil
  | cons c t ih =>
    rw [runs_cons]
    rcases consRun_eq c (runs t) with ⟨r, rest, hrs, hkind, hcons⟩ | ⟨hkind, hcons⟩
    · rw [hrs] at ih
      obtain ⟨huniform, hrest, hturn⟩ := ih.tail
      rw [hcons]
      refine orderly_cons ⟨?_, ?_⟩ hrest ?_
      · rw [text_ofKind]
        exact List.cons_ne_nil c _
      · rw [text_ofKind, isWord_ofKind]
        intro d hd
        rcases List.mem_cons.mp hd with rfl | hd
        · rfl
        · rw [huniform.2 d hd, hkind]
      · rw [isWord_ofKind, ← hkind]
        exact hturn
    · rw [hcons]
      refine orderly_cons ⟨?_, ?_⟩ ih ?_
      · rw [text_ofKind]
        exact List.cons_ne_nil c _
      · rw [text_ofKind, isWord_ofKind]
        intro d hd
        rw [List.mem_singleton.mp hd]
      · rw [isWord_ofKind]
        exact hkind

/-- Characters of one kind are one run, in front of runs that start with the other kind. -/
theorem runs_append_of_uniform {k : Bool} {u t : Text} (hu : u ≠ [])
    (hk : ∀ c ∈ u, isWordChar c = k) (ht : ∀ r ∈ (runs t).head?, k ≠ r.isWord) :
    runs (u ++ t) = Run.ofKind k u :: runs t := by
  induction u with
  | nil => exact absurd rfl hu
  | cons c u ih =>
    have hc : isWordChar c = k := hk c List.mem_cons_self
    rw [List.cons_append, runs_cons]
    by_cases hnil : u = []
    · subst hnil
      rcases consRun_eq c (runs t) with ⟨r, rest, hrs, hkind, -⟩ | ⟨-, hcons⟩
      · rw [hrs] at ht
        exact absurd (hc.symm.trans hkind.symm) (ht r rfl)
      · rw [List.nil_append, hcons, hc]
    · rw [ih hnil fun d hd => hk d (List.mem_cons_of_mem c hd)]
      rcases consRun_eq c (Run.ofKind k u :: runs t) with ⟨r, rest, hrs, -, hcons⟩ | ⟨hkind, -⟩
      · cases hrs
        rw [hcons, hc, text_ofKind]
      · have hne := hkind _ rfl
        rw [isWord_ofKind] at hne
        exact absurd hc hne

/-- **Orderly runs are the runs of their text.** -/
theorem runs_flatMap_text {rs : List Run} (h : Orderly rs) : runs (rs.flatMap Run.text) = rs := by
  induction rs with
  | nil => rfl
  | cons r rs ih =>
    obtain ⟨huniform, hrest, hturn⟩ := h.tail
    have hruns := ih hrest
    rw [List.flatMap_cons, runs_append_of_uniform huniform.1 huniform.2, hruns,
      Run.ofKind_isWord_text]
    rw [hruns]
    exact hturn

/-- Orderly runs with one run in the place of another of its kind. -/
theorem Orderly.replace {a b : List Run} {r r' : Run} (h : Orderly (a ++ r :: b)) (hr : r'.Uniform)
    (hkind : r'.isWord = r.isWord) : Orderly (a ++ r' :: b) := by
  refine ⟨?_, ?_⟩
  · intro x hx
    rcases List.mem_append.mp hx with hx | hx
    · exact h.uniform x (List.mem_append_left _ hx)
    · rcases List.mem_cons.mp hx with rfl | hx
      · exact hr
      · exact h.uniform x (List.mem_append_right a (List.mem_cons_of_mem r hx))
  · have hturns := h.turns
    rw [List.map_append, List.map_cons] at hturns ⊢
    rw [hkind]
    exact hturns

/-- **A word can be replaced**, and the runs around it stay what they are. -/
theorem runs_replace {t w v : Text} {a b : List Run} (h : runs t = a ++ .word w :: b)
    (hv : (Run.word v).Uniform) :
    runs (a.flatMap Run.text ++ (v ++ b.flatMap Run.text)) = a ++ .word v :: b := by
  have horderly : Orderly (a ++ .word v :: b) := by
    refine Orderly.replace (r := .word w) ?_ hv rfl
    rw [← h]
    exact orderly_runs t
  have hruns := runs_flatMap_text horderly
  rw [List.flatMap_append, List.flatMap_cons] at hruns
  exact hruns

end DiceNotation.Text
