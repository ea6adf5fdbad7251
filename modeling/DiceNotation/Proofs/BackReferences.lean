import Mathlib
import DiceNotation.Proofs.Code.References
import DiceNotation.Proofs.Histories
import DiceNotation.Proofs.Totals
import DiceNotation.Roller.Scripted

/-!
# The numbering of earlier rolls

Codes of dashes name earlier rolls by how far back they are.  What is counted are the codes that
have succeeded with faces: neither a code that has failed nor a plain number, which has no faces,
moves the others further back, while a code that refers back and has faces is counted like any
other.

The history holds less than that.  It keeps faces and sides, oldest first, and no more of them than
its capacity.  Seen from the newest it is a window on the list of all rolls with faces
(`Remembers`), and every code that is rolled moves the window along with the list.  A reference is
looked up in the window, and fails if it reaches beyond.

* `Session.rolled`, `Session.afterCodes`: the rolls of a list of codes.
* `Remembers`: what the history holds of them, with `Remembers.afterCodes`.
* `Roll.again`: the roll of a code that refers back.
* `back_references_name_rolls`.
-/

namespace DiceNotation

open DiceCode

/-! ## The rolls of a list of codes -/

namespace Session

variable {ρ : Type} [Roller ρ]

/-- The session after codes were rolled one after another, however each of them has ended. -/
def afterCodes (s : Session ρ) (codes : List Text) : Session ρ := s.afterCalls (codes.map .rollCode)

/-- The rolls of the codes that have succeeded, when codes are rolled one after another; the latest
is the first. -/
def rolled (s : Session ρ) : List Text → List Roll
  | [] => []
  | code :: codes =>
    (Turn.after (Turn.rollCode code) s).rolled codes ++
      ((Turn.rollCode code).outcome s).toOption.toList

theorem afterCodes_cons (s : Session ρ) (code : Text) (codes : List Text) :
    s.afterCodes (code :: codes) = (Turn.after (Turn.rollCode code) s).afterCodes codes := rfl

theorem rolled_concat (s : Session ρ) (codes : List Text) (code : Text) :
    s.rolled (codes ++ [code]) =
      ((Turn.rollCode code).outcome (s.afterCodes codes)).toOption.toList ++ s.rolled codes := by
  induction codes generalizing s with
  | nil => exact (List.append_nil _).symm
  | cons first codes ih =>
    rw [List.cons_append, rolled, ih, rolled, List.append_assoc, afterCodes_cons]

/-- **What a further code changes about the numbering**: it is the latest if it succeeds and has
faces, and otherwise the numbering is as it was. -/
theorem withFaces_rolled_concat (s : Session ρ) (codes : List Text) (code : Text) :
    withFaces (s.rolled (codes ++ [code])) =
      match (Turn.rollCode code).outcome (s.afterCodes codes) with
      | .ok r =>
        if r.dice.faces = [] then withFaces (s.rolled codes) else r :: withFaces (s.rolled codes)
      | .error _ => withFaces (s.rolled codes) := by
  rw [rolled_concat]
  cases (Turn.rollCode code).outcome (s.afterCodes codes) with
  | error e => rfl
  | ok r =>
    show List.filter _ (r :: _) = _
    rw [List.filter_cons]
    cases hfaces : r.dice.faces with
    | nil => simp [hfaces, withFaces]
    | cons face faces => simp [hfaces, withFaces]

end Session

/-! ## The window -/

/-- A session whose history holds the latest of these rolls, as far as they have faces. -/
structure Remembers {ρ : Type} (c : Config) (rs : List Roll) (s : Session ρ) : Prop where
  config : s.config = c
  capacity : s.history.backCapacity = c.backCapacity
  backs : s.history.backs.reverse = ((withFaces rs).map Roll.back).take c.backCapacity

namespace Remembers

variable {ρ : Type} {c : Config} {rs : List Roll} {s : Session ρ}

theorem start (c : Config) (roller : ρ) : Remembers c [] (.start c roller) :=
  ⟨rfl, rfl, List.take_nil.symm⟩

/-- Recording a roll. -/
theorem push (h : Remembers c rs s) (r : Roll) (cup : Cup ρ) :
    Remembers c (r :: rs) { s with cup, history := s.history.push r } where
  config := h.config
  capacity := h.capacity
  backs := by
    rw [← h.capacity]
    exact History.reverse_backs_push (h.capacity ▸ h.backs) r

variable [Roller ρ]

/-- **What one code does to the window.** -/
theorem rollCode (h : Remembers c rs s) (code : Text) :
    Remembers c (((Turn.rollCode code).outcome s).toOption.toList ++ rs)
      (Turn.after (Turn.rollCode code) s) := by
  have hends := rollEnds_rollCode code s
  unfold Turn.outcome Turn.after
  generalize Turn.rollCode code s = result at hends
  cases hends with
  | recorded _ => exact h.push _ _
  | failed _ _ => exact ⟨h.config, h.capacity, h.backs⟩

theorem afterCodes (h : Remembers c rs s) (codes : List Text) :
    Remembers c (s.rolled codes ++ rs) (s.afterCodes codes) := by
  induction codes generalizing s rs with
  | nil => exact h
  | cons code codes ih =>
    rw [Session.rolled, List.append_assoc]
    exact ih (h.rollCode code)

omit [Roller ρ] in
/-- The window seen through a reference. -/
theorem back?_eq (h : Remembers c rs s) {n : Nat} (hn : 0 < n) :
    s.history.back? n =
      if n ≤ c.backCapacity then ((withFaces rs)[n - 1]?).map Roll.back else none := by
  obtain ⟨m, rfl⟩ := Nat.exists_eq_succ_of_ne_zero (Nat.ne_of_gt hn)
  exact History.back?_succ h.backs m

end Remembers

/-! ## Codes that refer back -/

/-- What a code asks for that takes its faces from an earlier roll. -/
def Roll.again (c : Config) (code : Text) (p : Parameters) (earlier : Roll) : Roll :=
  let reduction := p.reduction.getD c.defaultReduction
  let spec : Dice.Spec :=
    { amount := .faces earlier.dice.faces
      sides := p.sides.getD (if reduction = .amount then 1 else earlier.dice.spec.sides)
      rerolls := p.rerolls
      sort := p.sort
      explosion := p.explosion
      difficulty := p.difficulty
      oneBehaviour := p.oneBehaviour }
  ⟨reduction, Dice.settle (Text.trim code) spec earlier.dice.faces 1 0
    [s!"given faces [{Dice.facesText earlier.dice.faces}]"]⟩

section Rolling

variable {ρ : Type} [Roller ρ] {c : Config} {s : Session ρ} {code : Text} {p : Parameters} {n : Nat}

omit [Roller ρ] in
/-- A code that refers to a roll asks for its faces and, unless it names sides, for its sides. -/
theorem specify_of_back {earlier : Roll} (code : Text) (hc : s.config = c)
    (hamount : p.amount = .back n) (hback : s.history.back? n = some earlier.back) :
    s.specify p =
      .ok ((earlier.again c code p).reduction, (earlier.again c code p).dice.spec) := by
  subst hc
  obtain ⟨amount, sides, rerolls, sort, explosion, reduction, difficulty, oneBehaviour⟩ := p
  obtain rfl : amount = .back n := hamount
  have hreduction : ∀ back : Int, s.chooseReduction
      ⟨.back n, sides, rerolls, sort, explosion, reduction, difficulty, oneBehaviour⟩ (some back) =
        reduction.getD s.config.defaultReduction := by
    intro back
    cases reduction with
    | none =>
      show (if (sides.isNone && false) = true then _ else _) = _
      rw [Bool.and_false, if_neg Bool.false_ne_true]
      rfl
    | some r => rfl
  unfold Session.specify Session.resolveAmount
  dsimp only
  rw [hback]
  show Except.ok (_, _) = _
  dsimp only
  rw [hreduction]
  cases sides <;> rfl

/-- **A code that refers to a roll takes up its faces**, and needs neither dice nor budget for it.
Only the total can be out of range then. -/
theorem rollCode_of_back {earlier : Roll} (hc : s.config = c) (hread : DiceCode.read code = .ok p)
    (hamount : p.amount = .back n) (hback : s.history.back? n = some earlier.back) :
    let r := earlier.again c code p
    Turn.rollCode code s =
      match r.total with
      | .ok _ => .ok r { s with history := s.history.push r }
      | .error e => .error (.failed e) s := by
  unfold Turn.rollCode
  rw [hread]
  show (Turn.ofExcept (s.specify p) >>= _) s = _
  rw [specify_of_back code hc hamount hback]
  show (Turn.ofExcept (earlier.again c code p).total >>= _) s = _
  cases (earlier.again c code p).total with
  | ok v => rfl
  | error e => rfl

theorem rollCode_of_back_none (hread : DiceCode.read code = .ok p) (hamount : p.amount = .back n)
    (hback : s.history.back? n = none) :
    Turn.rollCode code s = .error (.failed (.noSuchRoll n)) s := by
  unfold Turn.rollCode
  rw [hread]
  show (Turn.ofExcept (s.specify p) >>= _) s = _
  have hspecify : s.specify p = .error (.noSuchRoll n) := by
    unfold Session.specify Session.resolveAmount
    rw [hamount]
    dsimp only
    rw [hback]
    rfl
  rw [hspecify]
  rfl

end Rolling

/-- **Dashes name the roll that is so many back.**  In a new session in which codes were rolled, `n`
dashes with whatever goes with them take up the faces of the `n`-th latest roll with faces, if there
is one and it is within the capacity, and nothing is rolled for it; otherwise the code fails and the
session is as it was.  Of any further codes only those count that succeed with faces. -/
theorem back_references_name_rolls {ρ : Type} [Roller ρ] (c : Config) (roller : ρ)
    (codes : List Text) {code : Text} {p : Parameters} {n : Nat}
    (hread : DiceCode.read code = .ok p) (hback : RefersBack n code) :
    let fresh := Session.start c roller
    let s := fresh.afterCodes codes
    let known := withFaces (fresh.rolled codes)
    (n ≤ min c.backCapacity known.length → ∃ earlier, known[n - 1]? = some earlier ∧
      let r := earlier.again c code p
      r.dice.spec.amount = .faces earlier.dice.faces ∧
      (r.HasTotal ∧ Turn.rollCode code s = .ok r { s with history := s.history.push r } ∨
        r.total = .error .overflow ∧ Turn.rollCode code s = .error (.failed .overflow) s)) ∧
    (min c.backCapacity known.length < n →
      Turn.rollCode code s = .error (.failed (.noSuchRoll n)) s ∧
        (RollError.noSuchRoll n).category = .descriptive) ∧
    ∀ next, withFaces (fresh.rolled (codes ++ [next])) =
      match (Turn.rollCode next).outcome s with
      | .ok r => if r.dice.faces = [] then known else r :: known
      | .error _ => known := by
  intro fresh s known
  have hs : Remembers c (fresh.rolled codes) s := by
    have hafter := (Remembers.start c roller).afterCodes codes
    rwa [List.append_nil] at hafter
  have hamount : p.amount = .back n := (amount_eq_back_iff hread).mpr hback
  have hpos : 0 < n := hback.1
  have hlookup : s.history.back? n =
      if n ≤ c.backCapacity then (known[n - 1]?).map Roll.back else none := hs.back?_eq hpos
  refine ⟨fun hle => ?_, fun hlt => ?_, fun next =>
    Session.withFaces_rolled_concat fresh codes next⟩
  · have hindex : n - 1 < known.length := by omega
    refine ⟨known[n - 1], List.getElem?_eq_getElem hindex, rfl, ?_⟩
    rw [if_pos (by omega), List.getElem?_eq_getElem hindex, Option.map_some] at hlookup
    have hroll := rollCode_of_back hs.config hread hamount hlookup
    dsimp only at hroll
    cases htotal : (Roll.again c code p known[n - 1]).total with
    | ok v =>
      rw [htotal] at hroll
      exact Or.inl ⟨⟨v, htotal⟩, hroll⟩
    | error e =>
      obtain rfl := failsOnly_total _ e htotal
      rw [htotal] at hroll
      exact Or.inr ⟨rfl, hroll⟩
  · refine ⟨rollCode_of_back_none hread hamount ?_, rfl⟩
    rw [hlookup]
    split
    · rw [List.getElem?_eq_none (by omega), Option.map_none]
    · rfl

/-- With room for two rolls, two dashes reach past a plain number, a code that fails and a roll that
drops its only face, and take up the faces of the roll before the last one. -/
theorem back_references_reach_past_other_codes :
    let c : Config := { backCapacity := 2 }
    let p : Parameters := { amount := .back 2, reduction := some .max }
    let fresh := Session.start c (Scripted.mk [4, 2, 6, 1])
    let codes := ["[1,2]", "[8,7]", "3d6", "5", "--d", "1d6r1"].map String.toList
    let s := fresh.afterCodes codes
    DiceCode.read "--h".toList = .ok p ∧ RefersBack 2 "--h".toList ∧
    (withFaces (fresh.rolled codes)).map (fun r => r.dice.faces) =
      [[4, 2, 6], [8, 7], [1, 2]] ∧
    ∃ r, r.dice.spec.amount = .faces [8, 7] ∧
      Turn.rollCode "--h".toList s = .ok r { s with history := s.history.push r } := by
  intro c p fresh codes s
  have hread : DiceCode.read "--h".toList = .ok p := by cbv
  have hback : RefersBack 2 "--h".toList := ⟨by decide, ['h'], by cbv, by decide⟩
  have hfaces : (withFaces (fresh.rolled codes)).map (fun r => r.dice.faces) =
      [[4, 2, 6], [8, 7], [1, 2]] := by
    decide +kernel
  have hlength := congrArg List.length hfaces
  rw [List.length_map] at hlength
  refine ⟨hread, hback, hfaces, ?_⟩
  obtain ⟨earlier, hearlier, hamount, hroll⟩ :=
    (back_references_name_rolls c (Scripted.mk [4, 2, 6, 1]) codes hread hback).1
      (by rw [hlength]; decide)
  have hindex : ((withFaces (fresh.rolled codes)).map fun r => r.dice.faces)[1]? = some [8, 7] := by
    rw [hfaces]
    rfl
  rw [List.getElem?_map, hearlier] at hindex
  obtain hearlier : earlier.dice.faces = [8, 7] := Option.some.inj hindex
  have htotal : (earlier.again c "--h".toList p).total = .ok (some 8) := by
    unfold Roll.again
    rw [hearlier]
    rfl
  rcases hroll with ⟨-, hroll⟩ | ⟨hoverflow, -⟩
  · exact ⟨_, hearlier ▸ hamount, hroll⟩
  · rw [htotal] at hoverflow
    cases hoverflow

end DiceNotation
