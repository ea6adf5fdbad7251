import Mathlib
import DiceNotation.Proofs.Coupling.Invariant
import DiceNotation.Roller.Stepping

/-!
# The budget of a request

A request asks its cup for dice in many places: for codes, for groups inside of codes, for
whatever triggers start, and once more for every wave of explosions.  All of these are asked for
in one order, so the cup at the end is the cup at the beginning after a list of *draws*, each of
which took so many faces from the roller.  If the request has been refused dice, there is one
more draw which was only counted.

## What is shown

`Cup.Within` says that the cup is where a list of draws has led, and that they fit the limit;
`Cup.Beyond` that one more draw would not have fitted and took nothing.  The first is an
invariant of the whole pipeline, which is left with `TooManyRolls` for the second and in no
other way (`invariant_withinBudget`).  The rest is arithmetic of the count.

* `Draw`, `Cup.drawAll`, `Cup.Within`, `Cup.Beyond`, `Cup.Accounts`.
* `accounts_waves`, `accounts_roll`: rolling accounts for its dice.
* `request_within_budget`: a request does.
-/

namespace DiceNotation

variable {ρ : Type}

/-- Faces that a roller is asked for at once. -/
structure Draw where
  count : Nat
  lo : Int
  hi : Int
  deriving DecidableEq, Repr

/-- How many faces some draws are about. -/
def Draw.total (draws : List Draw) : Nat := (draws.map Draw.count).sum

theorem Draw.total_cons (d : Draw) (draws : List Draw) :
    Draw.total (d :: draws) = d.count + Draw.total draws := by
  unfold Draw.total
  rw [List.map_cons, List.sum_cons]

theorem Draw.total_append (draws later : List Draw) :
    Draw.total (draws ++ later) = Draw.total draws + Draw.total later := by
  unfold Draw.total
  rw [List.map_append, List.sum_append]

namespace Cup

/-- The cup after a draw was refused: it is counted, and the roller is not asked. -/
def refuse (d : Draw) (c : Cup ρ) : Cup ρ := { c with rolls := c.rolls + d.count }

theorem limit_of_budget {B : Nat} {c : Cup ρ} (h : c.budget = some B) : c.limit = B := by
  unfold limit
  rw [h]
  rfl

variable [Roller ρ]

/-- The cup after a draw was granted. -/
def draw (d : Draw) (c : Cup ρ) : Cup ρ where
  budget := c.budget
  rolls := c.rolls + d.count
  roller := (Roller.rollMany d.count d.lo d.hi c.roller).2

/-- The cup after some draws, in order. -/
def drawAll (draws : List Draw) (c : Cup ρ) : Cup ρ := draws.foldl (fun c d => c.draw d) c

theorem drawAll_concat (draws : List Draw) (d : Draw) (c : Cup ρ) :
    c.drawAll (draws ++ [d]) = (c.drawAll draws).draw d := by
  unfold drawAll
  rw [List.foldl_append]
  rfl

/-- Draws do not change the limit, and all of their faces are counted. -/
theorem limit_rolls_drawAll (draws : List Draw) (c : Cup ρ) :
    (c.drawAll draws).limit = c.limit ∧ (c.drawAll draws).rolls = c.rolls + Draw.total draws := by
  induction draws generalizing c with
  | nil => exact ⟨rfl, rfl⟩
  | cons d draws ih =>
    have h := ih (c.draw d)
    rw [Draw.total_cons, ← Nat.add_assoc]
    exact h

/-- The cup is where draws within the limit have led. -/
def Within (c₀ c : Cup ρ) : Prop :=
  ∃ draws, c = c₀.drawAll draws ∧ c₀.rolls + Draw.total draws ≤ c₀.limit

/-- The cup has refused a draw, after others that were within the limit. -/
def Beyond (c₀ c : Cup ρ) : Prop :=
  ∃ draws d, c = (c₀.drawAll draws).refuse d ∧ c₀.rolls + Draw.total draws ≤ c₀.limit ∧
    c₀.limit < c₀.rolls + Draw.total draws + d.count

/-- The cup accounts for what has come of it: it has refused a draw if this is how things went
wrong, and otherwise it is within its limit. -/
def Accounts {α : Type} (c₀ : Cup ρ) (outcome : Except RollError α × Cup ρ) : Prop :=
  match outcome.1 with
  | .error .tooManyRolls => c₀.Beyond outcome.2
  | _ => c₀.Within outcome.2

variable {c₀ c : Cup ρ}

theorem accounts_ok {α : Type} {a : α} (h : c₀.Within c) :
    c₀.Accounts ((.ok a : Except RollError α), c) := h

theorem accounts_error {α : Type} {e : RollError} (he : e ≠ .tooManyRolls) (h : c₀.Within c) :
    c₀.Accounts ((.error e : Except RollError α), c) := by
  unfold Accounts
  dsimp only
  split
  · next heq => exact absurd (Except.error.inj heq) he
  · exact h

theorem Accounts.within {α : Type} {e : RollError}
    (h : c₀.Accounts ((.error e : Except RollError α), c)) (he : e ≠ .tooManyRolls) :
    c₀.Within c := by
  unfold Accounts at h
  dsimp only at h
  split at h
  · next heq => exact absurd (Except.error.inj heq) he
  · exact h

/-- The error of one step is accounted for as the error of all. -/
theorem Accounts.error {α β : Type} {e : RollError}
    (h : c₀.Accounts ((.error e : Except RollError α), c)) :
    c₀.Accounts ((.error e : Except RollError β), c) := by
  by_cases he : e = .tooManyRolls
  · rw [he] at h ⊢
    exact h
  · exact accounts_error he (h.within he)

/-- **Asking for dice is accounted for.** -/
theorem accounts_roll (h : c₀.Within c) (n : Nat) (lo hi : Int) : c₀.Accounts (c.roll n lo hi) := by
  obtain ⟨draws, rfl, hfits⟩ := h
  obtain ⟨hlimit, hrolls⟩ := limit_rolls_drawAll draws c₀
  by_cases hn : c₀.rolls + Draw.total draws + n ≤ c₀.limit
  · rw [roll_of_le (by omega)]
    refine accounts_ok ⟨draws ++ [⟨n, lo, hi⟩], ?_, ?_⟩
    · rw [drawAll_concat]
      rfl
    · rw [Draw.total_append, ← Nat.add_assoc]
      exact hn
  · rw [roll_of_lt (by omega)]
    exact ⟨draws, ⟨n, lo, hi⟩, rfl, hfits, Nat.lt_of_not_le hn⟩

end Cup

namespace Dice

variable [Roller ρ] {c₀ c : Cup ρ}

/-- Explosions are accounted for, wave by wave. -/
theorem accounts_waves (h : c₀.Within c) (lo hi threshold : Int) (pending : Nat) :
    c₀.Accounts (waves lo hi threshold pending c) := by
  fun_induction waves lo hi threshold pending c with
  | case1 => exact Cup.accounts_ok h
  | case2 pending c hpending e cup hroll =>
    have hasked := Cup.accounts_roll h pending lo hi
    rw [hroll] at hasked
    exact hasked.error
  | case3 pending c hpending wave cup hroll e cup' hrest ih =>
    have hasked := Cup.accounts_roll h pending lo hi
    rw [hroll] at hasked
    have hmore := ih hasked
    rw [hrest] at hmore
    exact hmore.error
  | case4 pending c hpending wave cup hroll rest cup' hrest ih =>
    have hasked := Cup.accounts_roll h pending lo hi
    rw [hroll] at hasked
    have hmore := ih hasked
    rw [hrest] at hmore
    exact hmore

theorem accounts_rollCount (h : c₀.Within c) (code : Text) (spec : Spec) (n : Int) :
    c₀.Accounts (rollCount code spec n c) := by
  have hasked := Cup.accounts_roll h n.natAbs spec.min spec.sides
  unfold rollCount
  rcases hroll : c.roll n.natAbs spec.min spec.sides with ⟨outcome, cup⟩
  rw [hroll] at hasked
  cases outcome with
  | error e => exact hasked.error
  | ok first =>
    dsimp only
    split
    · exact hasked
    · next threshold _ =>
      have hmore := accounts_waves hasked spec.min spec.sides threshold (exploding threshold first)
      rcases hwaves : waves spec.min spec.sides threshold (exploding threshold first) cup with
        ⟨outcome, cup'⟩
      rw [hwaves] at hmore
      cases outcome with
      | error e => exact hmore.error
      | ok more => exact hmore

/-- **Rolling dice is accounted for.** -/
theorem accounts_roll (h : c₀.Within c) (code : Text) (spec : Spec) :
    c₀.Accounts (roll code spec c) := by
  unfold roll
  split
  · exact accounts_rollCount h code spec _
  · exact Cup.accounts_ok h
  · exact Cup.accounts_error (by simp) h

end Dice

section Request

variable [Roller ρ]

/-- The cup of the session is within the budget of a cup. -/
def WithinBudget (c : Config) (c₀ : Cup ρ) (s : Session ρ) : Prop := s.config = c ∧ c₀.Within s.cup

/-- The cup has refused a draw if a turn halts for this, and otherwise is within its limit. -/
def HaltsAccounting (c₀ : Cup ρ) (h : Halt) (s : Session ρ) : Prop :=
  if h = .failed .tooManyRolls then c₀.Beyond s.cup else c₀.Within s.cup

/-- **Being within the budget is an invariant**, and there is one way to leave it. -/
theorem invariant_withinBudget (c : Config) (c₀ : Cup ρ) :
    Turn.Invariant c (WithinBudget c c₀) (HaltsAccounting c₀) where
  config := And.left
  failed := by
    intro e s he hs
    unfold HaltsAccounting
    rw [if_neg (by simpa using he)]
    exact hs.2
  message hs := hs.2
  exhausted hs := hs.2
  dice := by
    intro s dice cup code spec hs hroll
    have haccounts := Dice.accounts_roll hs.2 code spec
    rw [hroll] at haccounts
    exact ⟨hs.1, haccounts⟩
  diceFailed := by
    intro s e cup code spec hs hroll
    have haccounts := Dice.accounts_roll hs.2 code spec
    rw [hroll] at haccounts
    unfold HaltsAccounting
    by_cases he : e = .tooManyRolls
    · rw [he] at haccounts ⊢
      rw [if_pos rfl]
      exact haccounts
    · rw [if_neg (by simpa using he)]
      exact haccounts.within he
  record _ hs := hs
  flags _ hs := hs
  defines _ hs := hs
  enter hs := hs
  leave hs := hs
  leaveHalted hs := hs

/-- A run has failed because it was refused dice. -/
def Turn.Refused {α : Type} (r : EStateM.Result Halt (Session ρ) α) : Prop :=
  ∃ s, r = .error (.failed .tooManyRolls) s

/-- What a request with the budget `B` has done to the cup: `granted` was drawn, and then
`refused` was only counted, if it is there. -/
structure Accounted (B : Nat) (t : Text) (s : Session ρ) (granted : List Draw)
    (refused : Option Draw) : Prop where
  cup_eq : (Turn.after (Turn.request t) s).cup =
    refused.elim (s.cup.reset.drawAll granted) fun d => (s.cup.reset.drawAll granted).refuse d
  /-- No more faces are drawn than the budget allows. -/
  total_le : Draw.total granted ≤ B
  /-- What is refused would have exceeded the budget. -/
  lt_total : ∀ d ∈ refused, B < Draw.total granted + d.count
  /-- The request fails with the refusal, and does not fail for it without one. -/
  refused_iff : Turn.Refused (Turn.request t s) ↔ refused.isSome
  /-- The count at the end tells which of the two has happened. -/
  refused_iff_lt : Turn.Refused (Turn.request t s) ↔ B < (Turn.after (Turn.request t) s).cup.rolls
  /-- Without a refusal it is the number of faces drawn. -/
  rolls_eq : ¬ Turn.Refused (Turn.request t s) →
    (Turn.after (Turn.request t) s).cup.rolls = Draw.total granted

theorem accounted_of_within {B : Nat} {t : Text} {s : Session ρ} (h : s.cup.budget = some B)
    (hrefused : ¬ Turn.Refused (Turn.request t s))
    (hw : s.cup.reset.Within (Turn.after (Turn.request t) s).cup) :
    ∃ granted refused, Accounted B t s granted refused := by
  obtain ⟨draws, hcup, hfits⟩ := hw
  have hlimit : s.cup.reset.limit = B := Cup.limit_of_budget h
  have hrolls : (Turn.after (Turn.request t) s).cup.rolls = Draw.total draws := by
    rw [hcup, (Cup.limit_rolls_drawAll draws _).2]
    exact Nat.zero_add _
  have htotal : Draw.total draws ≤ B := by
    rw [hlimit] at hfits
    exact Nat.le_trans (Nat.le_add_left _ _) hfits
  refine ⟨draws, none, hcup, htotal, nofun, ?_, ?_, fun _ => hrolls⟩
  · exact ⟨fun hr => absurd hr hrefused, nofun⟩
  · rw [hrolls]
    exact ⟨fun hr => absurd hr hrefused, fun hlt => absurd htotal (Nat.not_le.mpr hlt)⟩

theorem accounted_of_beyond {B : Nat} {t : Text} {s : Session ρ} (h : s.cup.budget = some B)
    (hrefused : Turn.Refused (Turn.request t s))
    (hb : s.cup.reset.Beyond (Turn.after (Turn.request t) s).cup) :
    ∃ granted refused, Accounted B t s granted refused := by
  obtain ⟨draws, d, hcup, hfits, hbeyond⟩ := hb
  have hlimit : s.cup.reset.limit = B := Cup.limit_of_budget h
  have hzero : s.cup.reset.rolls = 0 := rfl
  rw [hlimit, hzero, Nat.zero_add] at hfits hbeyond
  have hrolls : (Turn.after (Turn.request t) s).cup.rolls = Draw.total draws + d.count := by
    rw [hcup]
    show (s.cup.reset.drawAll draws).rolls + d.count = _
    rw [(Cup.limit_rolls_drawAll draws _).2, hzero, Nat.zero_add]
  refine ⟨draws, some d, hcup, hfits, ?_, ?_, ?_, fun hr => absurd hrefused hr⟩
  · rintro _ ⟨⟩
    exact hbeyond
  · exact ⟨fun _ => rfl, fun _ => hrefused⟩
  · rw [hrolls]
    exact ⟨fun _ => hbeyond, fun _ => hrefused⟩

/-- Every request accounts for its dice. -/
theorem accounts_request (t : Text) (s : Session ρ) :
    (Turn.Refused (Turn.request t s) ∧ s.cup.reset.Beyond (Turn.after (Turn.request t) s).cup) ∨
    (¬ Turn.Refused (Turn.request t s) ∧
      s.cup.reset.Within (Turn.after (Turn.request t) s).cup) := by
  have hbegun : WithinBudget s.config s.cup.reset { s with cup := s.cup.reset } :=
    ⟨rfl, [], rfl, Nat.zero_le _⟩
  have hends := (invariant_withinBudget s.config s.cup.reset).request t hbegun
  cases hrun : Turn.request t s with
  | ok rolls s' =>
    have hafter : Turn.after (Turn.request t) s = s' := by
      unfold Turn.after
      rw [hrun]
    rw [hrun] at hends
    have hwithin : WithinBudget s.config s.cup.reset s' := hends
    rw [hafter]
    refine Or.inr ⟨?_, hwithin.2⟩
    rintro ⟨s'', heq⟩
    exact nomatch heq
  | error e s' =>
    have hafter : Turn.after (Turn.request t) s = s' := by
      unfold Turn.after
      rw [hrun]
    rw [hrun] at hends
    have haccounts : HaltsAccounting s.cup.reset e s' := hends
    unfold HaltsAccounting at haccounts
    rw [hafter]
    by_cases he : e = .failed .tooManyRolls
    · rw [if_pos he] at haccounts
      exact Or.inl ⟨⟨s', by rw [he]⟩, haccounts⟩
    · rw [if_neg he] at haccounts
      refine Or.inr ⟨?_, haccounts⟩
      rintro ⟨s'', heq⟩
      exact he (EStateM.Result.error.inj heq).1

/-- **A request draws no more faces than its budget**, draws none that it is refused, and fails
for the budget exactly if it has asked for more than that. -/
theorem request_within_budget (t : Text) {s : Session ρ} {B : Nat} (h : s.cup.budget = some B) :
    ∃ granted refused, Accounted B t s granted refused := by
  rcases accounts_request t s with ⟨hrefused, hbeyond⟩ | ⟨hrefused, hwithin⟩
  · exact accounted_of_beyond h hrefused hbeyond
  · exact accounted_of_within h hrefused hwithin

/-- Four dice and a group of two more are too many for a budget of five. -/
theorem request_within_budget_of_five :
    (Session.start { maxRolls := some 5 } (Stepping.mk 1 1)).cup.budget = some 5 ∧
    ∃ granted refused, Accounted 5
      "4d6 + (2d6)".toList (Session.start { maxRolls := some 5 } (Stepping.mk 1 1)) granted
        refused :=
  ⟨rfl, request_within_budget "4d6 + (2d6)".toList rfl⟩

end Request

/-! ## What the roller is asked for

The draws are not only a way to describe the cup.  A roller that keeps a list of what it was
asked for has this list at the end. -/

/-- A roller with a list of what it was asked for. -/
structure Recording (ρ : Type) where
  roller : ρ
  asked : List Draw

instance [Roller ρ] : Roller (Recording ρ) where
  roll lo hi r := ((Roller.roll lo hi r.roller).1,
    ⟨(Roller.roll lo hi r.roller).2, r.asked ++ [⟨1, lo, hi⟩]⟩)
  rollMany n lo hi r :=
    ((Roller.rollMany n lo hi r.roller).1,
      ⟨(Roller.rollMany n lo hi r.roller).2, r.asked ++ [⟨n, lo, hi⟩]⟩)
  length_rollMany n lo hi r := Roller.length_rollMany n lo hi r.roller

theorem Cup.asked_drawAll [Roller ρ] (draws : List Draw) (c : Cup (Recording ρ)) :
    (c.drawAll draws).roller.asked = c.roller.asked ++ draws := by
  induction draws generalizing c with
  | nil => exact (List.append_nil _).symm
  | cons d draws ih =>
    have hd : (c.draw d).roller.asked = c.roller.asked ++ [d] := rfl
    rw [List.append_cons, ← hd]
    exact ih (c.draw d)

/-- **What a roller is asked for during a request fits the limit of the cup.** -/
theorem asked_of_request [Roller ρ] (t : Text) (s : Session (Recording ρ)) :
    ∃ draws, (Turn.after (Turn.request t) s).cup.roller.asked = s.cup.roller.asked ++ draws ∧
      Draw.total draws ≤ s.cup.limit := by
  rcases accounts_request t s with ⟨-, draws, d, hcup, hfits, -⟩ | ⟨-, draws, hcup, hfits⟩
  · refine ⟨draws, ?_, Nat.le_trans (Nat.le_add_left _ _) hfits⟩
    rw [hcup]
    exact Cup.asked_drawAll draws _
  · refine ⟨draws, ?_, Nat.le_trans (Nat.le_add_left _ _) hfits⟩
    rw [hcup]
    exact Cup.asked_drawAll draws _

end DiceNotation
