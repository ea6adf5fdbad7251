import DiceNotation.Proofs.Atoms
import DiceNotation.Proofs.Counting
import DiceNotation.Proofs.Coupling.Evaluating

/-!
# A macro that stands for a number

A define can stand for a number in two ways: its value is the decimal text, or its value is a
trigger that has the decimal text as its output.  The second kind is a *macro*, and this module
follows the conditional `&if 1 then w else 0 done&` through one round of taking a text apart: it
is read (`parse_macroText`), its condition is evaluated, which leaves a roll without faces in
the history (`evaluateWith_one`), and the numeral takes its place (`expand_macroText`).

* `macroText`, `parse_macroText`, `expand_macroText`.
* `resolve_of_others`: texts without triggers, groups and names.
* `one`, `evaluateWith_one`: the condition.
-/

namespace DiceNotation

open Text

/-! ## Reading the macro -/

/-- The conditional that has the text as its output. -/
def macroText (w : Text) : Text := "&if 1 then ".toList ++ (w ++ " else 0 done&".toList)

/-- The runs of the body of the macro. -/
def macroRuns (w : Text) : List Run :=
  [.word "1".toList, .gap " ".toList, .word "then".toList, .gap " ".toList, .word w,
    .gap " ".toList, .word "else".toList, .gap " ".toList, .word "0".toList,
    .gap " ".toList, .word "done".toList]

section Reading

variable {w : Text}

theorem orderly_macroRuns (hw : Numeral w) : Orderly (macroRuns w) := by
  have hgap : (Run.gap " ".toList).Uniform := by
    constructor
    · decide
    · decide
  have hwords : ∀ v ∈ ["1".toList, "then".toList, "else".toList, "0".toList, "done".toList],
      (Run.word v).Uniform := by
    intro v hv
    constructor
    · revert v
      decide
    · revert v
      decide
  refine ⟨?_, ?_⟩
  · intro r hr
    simp only [macroRuns, List.mem_cons, List.not_mem_nil, or_false] at hr
    rcases hr with rfl | rfl | rfl | rfl | rfl | rfl | rfl | rfl | rfl | rfl | rfl
    all_goals first
      | exact hgap
      | exact hw.uniform_word
      | exact hwords _ (by decide)
  · show [true, false, true, false, true, false, true, false, true, false, true].IsChain (· ≠ ·)
    decide

/-- The runs from any place on are those of the text that is left. -/
theorem runs_drop_macroRuns (hw : Numeral w) (k : Nat) :
    runs (((macroRuns w).drop k).flatMap Run.text) = (macroRuns w).drop k := by
  have horderly : Orderly ((macroRuns w).take k ++ (macroRuns w).drop k) := by
    rw [List.take_append_drop]
    exact orderly_macroRuns hw
  refine runs_flatMap_text ⟨?_, ?_⟩
  · exact fun r hr => horderly.uniform r (List.mem_append_right _ hr)
  · have hturns := horderly.turns
    rw [List.map_append] at hturns
    exact hturns.right_of_append

theorem trim_surrounded (hw : Numeral w) : trim (' ' :: (w ++ " ".toList)) = w := by
  have hblank : isBlank ' ' = true := by decide
  have hhead : ∀ t : Text, trimStart (w ++ t) = w ++ t := by
    intro t
    refine trimStart_of_not_blank fun d hd => ?_
    rw [List.head?_append_of_ne_nil _ hw.ne_nil] at hd
    exact hw.not_isBlank d (List.mem_of_head? hd)
  have hreverse : trimStart w.reverse = w.reverse := by
    refine trimStart_of_not_blank fun d hd => ?_
    rw [List.head?_reverse] at hd
    exact hw.not_isBlank d (List.mem_of_getLast? hd)
  have hend : (w ++ " ".toList).reverse = ' ' :: w.reverse := by
    rw [List.reverse_append]
    rfl
  unfold trim trimEnd
  rw [trimStart_cons_of_blank hblank, hhead, hend, trimStart_cons_of_blank hblank, hreverse,
    List.reverse_reverse]

theorem conditionalBody?_macro (hw : Numeral w) :
    Trigger.conditionalBody? ((macroRuns w).flatMap Run.text) =
      some ("1".toList, w, "0".toList) := by
  have hthen : cutAtWord "then".toList ((macroRuns w).flatMap Run.text) =
      some ("1 ".toList, ((macroRuns w).drop 3).flatMap Run.text) := by
    unfold cutAtWord
    rw [runs_flatMap_text (orderly_macroRuns hw)]
    rfl
  have hne : Run.word w ≠ .word "else".toList := by
    intro h
    have hdigit := hw.isDigit 'e' (by rw [Run.word.inj h]; decide)
    exact absurd hdigit (by decide)
  have helse : cutAtWord "else".toList (((macroRuns w).drop 3).flatMap Run.text) =
      some (' ' :: (w ++ " ".toList), " 0 done".toList) := by
    unfold cutAtWord
    rw [runs_drop_macroRuns hw 3]
    show (cutRuns "else".toList (.gap " ".toList :: .word w :: (macroRuns w).drop 5)).map _ = _
    rw [cutRuns, if_neg (by decide), cutRuns, if_neg hne]
    show some ((' ' :: (w ++ (" ".toList ++ []))), " 0 done".toList) = _
    rw [List.append_nil]
  have hdone : cutFinalWord "done".toList " 0 done".toList = some " 0 ".toList := by decide
  have htrim : trim (' ' :: (w ++ " ".toList)) = w := trim_surrounded hw
  unfold Trigger.conditionalBody?
  rw [hthen]
  show (do
    let cut ← cutAtWord "else".toList (((macroRuns w).drop 3).flatMap Run.text)
    let no ← cutFinalWord "done".toList cut.2
    return (trim "1 ".toList, trim cut.1, trim no)) = _
  rw [helse]
  show (do
    let no ← cutFinalWord "done".toList " 0 done".toList
    return (trim "1 ".toList, trim (' ' :: (w ++ " ".toList)), trim no)) = _
  rw [hdone, htrim]
  rfl

theorem ofNameAndBody_if {body condition yes no : Text}
    (h : Trigger.conditionalBody? body = some (condition, yes, no)) :
    Trigger.ofNameAndBody "if".toList body = .ok (.conditional condition yes no) := by
  simp [Trigger.ofNameAndBody, h]

/-- **The macro is the conditional that it looks like.** -/
theorem parse_macroText (hw : Numeral w) :
    Trigger.parse ("if 1 then ".toList ++ (w ++ " else 0 done".toList)) =
      .ok (.conditional "1".toList w "0".toList) := by
  have hbody : (macroRuns w).flatMap Run.text =
    "1 then ".toList ++ (w ++ " else 0 done".toList) := by
    unfold macroRuns
    simp [Run.text]
  have hlast : ∀ t : Text, (t ++ (w ++ " else 0 done".toList)).getLast? = some 'e' := by
    intro t
    rw [← List.append_assoc, List.getLast?_append]
    rfl
  have hlastBlank : ∀ t : Text, ∀ d ∈ (t ++ (w ++ " else 0 done".toList)).getLast?,
      isBlank d = false := by
    intro t d hd
    rw [hlast] at hd
    cases hd
    decide
  have hinside : trim ("if 1 then ".toList ++ (w ++ " else 0 done".toList)) =
      "if 1 then ".toList ++ (w ++ " else 0 done".toList) := by
    refine trim_of_not_blank ?_ (hlastBlank _)
    rintro d ⟨⟩
    decide
  have htrim : trim ("1 then ".toList ++ (w ++ " else 0 done".toList)) =
      "1 then ".toList ++ (w ++ " else 0 done".toList) := by
    refine trim_of_not_blank ?_ (hlastBlank _)
    rintro d ⟨⟩
    decide
  have hcut : cutFirst isBlank ("if 1 then ".toList ++ (w ++ " else 0 done".toList)) =
      some ("if".toList, "1 then ".toList ++ (w ++ " else 0 done".toList)) := rfl
  have hname : Trigger.nameAndBody ("if 1 then ".toList ++ (w ++ " else 0 done".toList)) =
      ("if".toList, "1 then ".toList ++ (w ++ " else 0 done".toList)) := by
    unfold Trigger.nameAndBody
    rw [hinside, hcut]
    show ("if".toList, trim _) = _
    rw [htrim]
  have hconditional := conditionalBody?_macro hw
  rw [hbody] at hconditional
  unfold Trigger.parse
  rw [hname]
  show Trigger.ofNameAndBody "if".toList ("1 then ".toList ++ (w ++ " else 0 done".toList)) = _
  exact ofNameAndBody_if hconditional

end Reading

/-! ## The condition -/

/-- A numeral is its only atom. -/
theorem atoms?_numeral {w : Text} (hw : Numeral w) : Resolution.atoms? w = .ok [.other w] := by
  have hplain : ∀ c ∈ w, Group.isPlain c = true :=
    fun c hc => Resolution.isPlain_of_isWordChar (hw.isWordChar c hc)
  have hruns : Text.runs w = [.word w] := by
    have h := Text.runs_flatMap_text
      (Text.orderly_cons hw.uniform_word Text.orderly_nil fun _ h => nomatch h)
    rw [List.flatMap_singleton] at h
    exact h
  rw [Resolution.atoms?_of_plain hplain, hruns, List.map_singleton,
    Atom.ofRun_of_not_isName hw.not_isName]

/-- The roll that the condition of the macro comes to. -/
def one : Roll := ⟨.amount, Dice.ofFaces ['1'] { amount := .count 1, sides := 1 } []⟩

theorem value_one : one.value = 1 := rfl

section Firing

variable {ρ : Type}

/-- The session with one more roll in its history, which has no faces. -/
def recordOne (s : Session ρ) : Session ρ := { s with history := s.history.push one }

variable [Roller ρ] (again : Reentry ρ)

theorem rollCode_one (s : Session ρ) : Turn.rollCode ['1'] s = .ok one (recordOne s) :=
  Spells.rollCode (spells_render (n := 1) (by decide)) s

omit [Roller ρ] in
/-- Atoms that are neither groups nor names are the pieces as they are. -/
theorem run_assemble_others (ts : List Text) {build : Nat → List Text → Text → Expanding ρ Pieces}
    {depth n : Nat} {used : List Text} (s : Session ρ) :
    (Resolution.assemble build depth used (ts.map Atom.other)).run n s =
      .ok (ts.foldr Pieces.text .nil, n) s := by
  induction ts with
  | nil => rfl
  | cons t ts ih =>
    rw [List.map_cons, Resolution.assemble, Expanding.run_bind_of_ok _ ih]
    rfl

/-- Pieces of text are put together again. -/
theorem flatten_others (ts : List Text) (s : Session ρ) :
    Resolution.flatten (ts.foldr Pieces.text .nil) s = .ok ts.flatten s := by
  induction ts with
  | nil => rfl
  | cons t ts ih =>
    rw [List.foldr_cons, Resolution.flatten, Turn.bind_of_ok _ ih]
    rfl

/-- **A text without triggers, groups and names is only folded.** -/
theorem resolve_of_others {t : Text} {ts : List Text} (ht : '&' ∉ t)
    (hatoms : Resolution.atoms? t = .ok (ts.map Atom.other)) (s : Session ρ) :
    Resolution.resolve again t s = Resolution.fold ts.flatten s := by
  have hround : (Resolution.prepare again t).run 0 s = .ok (ts.map Atom.other, 0) s := by
    rw [Resolution.run_prepare_of_plain again 0 s ht, hatoms]
  have hnone : Atom.splice? s.defines [] (ts.map Atom.other) = none := by
    refine splice?_eq_none fun a ha => ?_
    obtain ⟨u, -, rfl⟩ := List.mem_map.mp ha
    rfl
  have hbuild : (Resolution.build again (Resolution.pathBound s.config) 0 [] t).run 0 s =
      .ok (ts.foldr Pieces.text .nil, 0) s := by
    unfold Resolution.pathBound
    rw [Resolution.run_build_of_prepare again 0 (Nat.zero_le _) hround, Resolution.proceed, hnone]
    exact run_assemble_others ts s
  have htree : Resolution.tree again t s = .ok (ts.foldr Pieces.text .nil) s := by
    rw [Resolution.run_tree, Turn.bind_of_ok _ hbuild]
    rfl
  unfold Resolution.resolve
  rw [Turn.bind_of_ok _ htree, Turn.bind_of_ok _ (flatten_others ts s)]

/-- The text of the condition resolves to itself. -/
theorem resolve_one (s : Session ρ) : Resolution.resolve again ['1'] s = .ok ['1'] s := by
  have hnumeral : Numeral ['1'] := ⟨by decide, by decide⟩
  have hatoms : Resolution.atoms? ['1'] = .ok ([['1']].map Atom.other) := atoms?_numeral hnumeral
  rw [resolve_of_others again (by decide) hatoms]
  unfold Resolution.fold
  rw [List.flatten_singleton, hnumeral.foldNumbers]
  rfl

/-- **The condition of the macro is always fulfilled**, and nothing but its roll is left of it. -/
theorem evaluateWith_one {s : Session ρ} (h : s.depth < s.config.maxDepth) :
    Turn.evaluateWith again ['1'] s = .ok one (recordOne s) := by
  unfold Turn.evaluateWith
  rw [Turn.get_bind, if_neg (Nat.not_le.mpr h)]
  have hinner : (Resolution.resolve again ['1'] >>= fun code => Turn.rollCode code) (Turn.enter s) =
      .ok one (recordOne (Turn.enter s)) := by
    rw [Turn.bind_of_ok _ (resolve_one again (Turn.enter s))]
    exact rollCode_one (Turn.enter s)
  unfold Turn.deeper
  rw [hinner]
  rfl

end Firing

/-! ## The round in which the macro fires -/

/-- A text without dollar signs is the branch as it is. -/
theorem flatMap_of_not_dollar {w value : Text} (h : '$' ∉ w) :
    (w.flatMap fun c => if c = '$' then value else [c]) = w := by
  induction w with
  | nil => rfl
  | cons c w ih =>
    have hc : c ≠ '$' := by
      rintro rfl
      exact h List.mem_cons_self
    rw [List.flatMap_cons, if_neg hc, ih fun hw => h (List.mem_cons_of_mem c hw)]
    rfl

/-- The numeral of the macro is its output. -/
theorem branch_one {w : Text} (hw : Numeral w) : Trigger.branch 1 w "0".toList = w := by
  unfold Trigger.branch
  rw [if_pos (by decide)]
  exact flatMap_of_not_dollar (hw.not_mem (by decide))

/-- The script of a text with one macro. -/
theorem scan_macroText {w pre post : Text} (hw : Numeral w) (hpre : '&' ∉ pre)
    (hpost : '&' ∉ post) :
    Script.scan (pre ++ (macroText w ++ post)) =
      .ok ⟨pre, [(.conditional "1".toList w "0".toList, post)]⟩ := by
  have hnot : ∀ {t : Text}, '&' ∉ t → ∀ c ∈ t, Script.isAmpersand c = false := by
    intro t ht c hc
    unfold Script.isAmpersand
    rw [beq_eq_false_iff_ne]
    rintro rfl
    exact ht hc
  have hinside : '&' ∉ "if 1 then ".toList ++ (w ++ " else 0 done".toList) := by
    intro h
    rcases List.mem_append.mp h with h | h
    · exact absurd h (by decide)
    · rcases List.mem_append.mp h with h | h
      · exact hw.not_mem (by decide) h
      · exact absurd h (by decide)
  have htext : pre ++ (macroText w ++ post) =
      pre ++ '&' :: (("if 1 then ".toList ++ (w ++ " else 0 done".toList)) ++ '&' :: post) := by
    unfold macroText
    simp
  have hpieces : pieces Script.isAmpersand (pre ++ (macroText w ++ post)) =
      [pre, "if 1 then ".toList ++ (w ++ " else 0 done".toList), post] := by
    rw [htext, pieces_append_cons rfl _ (hnot hpre), pieces_append_cons rfl _ (hnot hinside),
      pieces_of_forall_not (hnot hpost)]
  have hrest : Script.ofPieces ["if 1 then ".toList ++ (w ++ " else 0 done".toList), post] =
      .ok [(.conditional "1".toList w "0".toList, post)] := by
    unfold Script.ofPieces
    rw [parse_macroText hw]
    rfl
  unfold Script.scan
  rw [hpieces]
  show (if 2 % 2 = 0 then _ else _) = _
  rw [if_pos rfl, hrest]
  rfl

/-- **In the round of a macro the numeral takes its place**, and its condition is recorded. -/
theorem expand_macroText {ρ : Type} [Roller ρ] {again : Reentry ρ} {w pre post : Text}
    (hw : Numeral w)
    (hpre : '&' ∉ pre) (hpost : '&' ∉ post) {s : Session ρ}
    (hagain : again.evaluate "1".toList s = .ok one (recordOne s)) :
    Trigger.expand again (pre ++ (macroText w ++ post)) s =
      .ok (pre ++ (w ++ post)) (recordOne s) := by
  have hscan : (Turn.ofExcept (Script.scan (pre ++ (macroText w ++ post))) : Turn ρ Script) s =
      .ok ⟨pre, [(.conditional "1".toList w "0".toList, post)]⟩ s := by
    rw [scan_macroText hw hpre hpost]
    rfl
  have hfire : Trigger.fire again (.conditional "1".toList w "0".toList) ⟨[pre], [post]⟩ s =
      .ok (w, ⟨[pre], [post]⟩) (recordOne s) := by
    unfold Trigger.fire Trigger.fireAlone
    have houtput : (again.evaluate "1".toList >>= fun r =>
        pure (Trigger.branch r.value w "0".toList) : Turn ρ Text) s = .ok w (recordOne s) := by
      rw [Turn.bind_of_ok _ hagain, value_one, branch_one hw]
      rfl
    exact Turn.bind_of_ok _ houtput
  have hfireAll : Trigger.fireAll again [.conditional "1".toList w "0".toList] ⟨[pre], [post]⟩ s =
      .ok (pre ++ (w ++ post)) (recordOne s) := by
    unfold Trigger.fireAll
    rw [Turn.bind_of_ok _ hfire]
    show EStateM.Result.ok (Surroundings.text ⟨[post, w, pre], []⟩) (recordOne s) = _
    simp [Surroundings.text]
  unfold Trigger.expand
  rw [Turn.bind_of_ok _ hscan]
  exact hfireAll

end DiceNotation
