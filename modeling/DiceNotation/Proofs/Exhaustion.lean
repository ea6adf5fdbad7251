import DiceNotation.Proofs.Budget
import DiceNotation.Proofs.UserText
import DiceNotation.Roller.Scripted

/-!
# Cups that have nothing left

A cup counts what it is asked for, granted or refused.  So the count says how much has been asked
for since the last reset, and once it is beyond the budget it stays there: every later draw is
refused, down to a draw of no faces, and the roller is left as it is.

Refused draws are counted in full, and nothing bounds how many there are.  A request to a session
begins with a reset and ends with its first refusal, but evaluations and codes do neither.  So the
count is a word of 64 bits for as long as what was asked for since the reset fits one, and two
refused draws of half a word each are too many.

* `Cup.ask`, `Cup.askAll`, `Cup.Refuses`: asking for draws, whatever comes of it.
* `Cup.Asked`, `invariant_asked`, `asked_afterCalls`: calls do nothing else to a cup.
* `Cup.Counted`, `exhausted_until_reset`.
-/

namespace DiceNotation

variable {ρ : Type}

/-- The largest count that a word of 64 bits holds. -/
def highestCount : Nat := 2 ^ 64 - 1

/-! ## Asking for draws -/

namespace Cup

variable [Roller ρ] {c c₀ : Cup ρ}

/-- The cup after it was asked for a draw, whether this was granted or not. -/
def ask (c : Cup ρ) (d : Draw) : Cup ρ := (c.roll d.count d.lo d.hi).2

/-- The cup after it was asked for some draws, in order. -/
def askAll (draws : List Draw) (c : Cup ρ) : Cup ρ := draws.foldl ask c

/-- The cup refuses a draw. -/
def Refuses (c : Cup ρ) (d : Draw) : Prop := (c.roll d.count d.lo d.hi).1 = .error .tooManyRolls

theorem askAll_append (draws later : List Draw) (c : Cup ρ) :
    c.askAll (draws ++ later) = (c.askAll draws).askAll later := List.foldl_append

theorem refuses_iff {d : Draw} : c.Refuses d ↔ c.limit < c.rolls + d.count := by
  unfold Refuses
  by_cases h : c.limit < c.rolls + d.count
  · rw [roll_of_lt h]
    exact iff_of_true rfl h
  · rw [roll_of_le (Nat.not_lt.mp h)]
    exact iff_of_false nofun h

/-- A draw that is refused leaves the roller alone, and the count beyond the limit. -/
theorem ask_of_refuses {d : Draw} (h : c.Refuses d) :
    (c.ask d).roller = c.roller ∧ (c.ask d).limit < (c.ask d).rolls := by
  unfold ask
  rw [roll_of_lt (refuses_iff.mp h)]
  exact ⟨rfl, refuses_iff.mp h⟩

/-- Asking does not change the limit, and all faces asked for are counted. -/
theorem limit_rolls_askAll (draws : List Draw) (c : Cup ρ) :
    (c.askAll draws).limit = c.limit ∧ (c.askAll draws).rolls = c.rolls + Draw.total draws := by
  induction draws generalizing c with
  | nil => exact ⟨rfl, rfl⟩
  | cons d draws ih =>
    obtain ⟨hlimit, hrolls⟩ := ih (c.ask d)
    refine ⟨hlimit.trans (limit_roll _ _ _ _), hrolls.trans ?_⟩
    rw [Draw.total_cons, ← Nat.add_assoc]
    exact congrArg (· + Draw.total draws) (rolls_roll _ _ _ _)

/-- **A cup whose count is beyond its limit leaves the roller alone**, whatever it is asked for. -/
theorem roller_askAll (h : c.limit < c.rolls) (draws : List Draw) :
    (c.askAll draws).roller = c.roller := by
  induction draws generalizing c with
  | nil => rfl
  | cons d draws ih =>
    have hd : c.Refuses d := refuses_iff.mpr (Nat.lt_add_right d.count h)
    obtain ⟨hroller, hbeyond⟩ := ask_of_refuses hd
    exact (ih hbeyond).trans hroller

/-! ## Cups that were only asked -/

/-- All that has happened to a cup is that it was asked for draws. -/
def Asked (c₀ c : Cup ρ) : Prop := ∃ draws, c = c₀.askAll draws

theorem Asked.roll (n : Nat) (lo hi : Int) (h : c₀.Asked c) : c₀.Asked (c.roll n lo hi).2 := by
  obtain ⟨draws, rfl⟩ := h
  refine ⟨draws ++ [⟨n, lo, hi⟩], ?_⟩
  rw [askAll_append]
  rfl

end Cup

namespace Dice

variable [Roller ρ] {keeps : Cup ρ → Prop} {c : Cup ρ}

theorem keeps_waves (hroll : ∀ {c} n lo hi, keeps c → keeps (Cup.roll n lo hi c).2) (h : keeps c)
    (lo hi threshold : Int) (pending : Nat) : keeps (waves lo hi threshold pending c).2 := by
  fun_induction waves lo hi threshold pending c with
  | case1 => exact h
  | case2 pending c hpending e cup heq =>
    have hasked := hroll pending lo hi h
    rwa [heq] at hasked
  | case3 pending c hpending wave cup heq e cup' hrest ih =>
    have hasked := hroll pending lo hi h
    rw [heq] at hasked
    have hmore := ih hasked
    rwa [hrest] at hmore
  | case4 pending c hpending wave cup heq rest cup' hrest ih =>
    have hasked := hroll pending lo hi h
    rw [heq] at hasked
    have hmore := ih hasked
    rwa [hrest] at hmore

theorem keeps_rollCount (hroll : ∀ {c} n lo hi, keeps c → keeps (Cup.roll n lo hi c).2)
    (h : keeps c) (code : Text) (spec : Spec) (n : Int) :
    keeps (rollCount code spec n c).2 := by
  have hasked := hroll n.natAbs spec.min spec.sides h
  unfold rollCount
  rcases heq : c.roll n.natAbs spec.min spec.sides with ⟨outcome, cup⟩
  rw [heq] at hasked
  cases outcome with
  | error e => exact hasked
  | ok first =>
    dsimp only
    split
    · exact hasked
    · next threshold _ =>
      have hmore := keeps_waves hroll hasked spec.min spec.sides threshold
        (exploding threshold first)
      rcases hwaves : waves spec.min spec.sides threshold (exploding threshold first) cup with
        ⟨outcome, cup'⟩
      rw [hwaves] at hmore
      cases outcome with
      | error e => exact hmore
      | ok more => exact hmore

/-- **Rolling dice keeps what asking for faces keeps**, however it ends. -/
theorem keeps_roll (hroll : ∀ {c} n lo hi, keeps c → keeps (Cup.roll n lo hi c).2) (h : keeps c)
    (code : Text) (spec : Spec) : keeps (roll code spec c).2 := by
  unfold roll
  split
  · exact keeps_rollCount hroll h code spec _
  · exact h
  · exact h

end Dice

/-! ## Sessions -/

section Calls

variable [Roller ρ]

/-- The cup of a session was only asked for draws. -/
def AskedSince (c : Config) (c₀ : Cup ρ) (s : Session ρ) : Prop := s.config = c ∧ c₀.Asked s.cup

/-- **That a cup was only asked for draws is an invariant**, however things end. -/
theorem invariant_asked (c : Config) (c₀ : Cup ρ) :
    Turn.Invariant c (AskedSince c c₀) fun _ => AskedSince c c₀ where
  config := And.left
  failed _ hs := hs
  message hs := hs
  exhausted hs := hs
  dice code spec hs hroll := by
    have hasked := Dice.keeps_roll Cup.Asked.roll hs.2 code spec
    rw [hroll] at hasked
    exact ⟨hs.1, hasked⟩
  diceFailed code spec hs hroll := by
    have hasked := Dice.keeps_roll Cup.Asked.roll hs.2 code spec
    rw [hroll] at hasked
    exact ⟨hs.1, hasked⟩
  record _ hs := hs
  flags _ hs := hs
  defines _ hs := hs
  enter hs := hs
  leave hs := hs
  leaveHalted hs := hs

/-- Whether a call begins with a reset of the cup. -/
def Call.resets : Call → Bool
  | roll _ => true
  | _ => false

theorem asked_afterCalls (ks : List Call) (s : Session ρ) (h : ∀ k ∈ ks, k.resets = false) :
    s.cup.Asked (s.afterCalls ks).cup := by
  have hcall : ∀ {s' : Session ρ} {k : Call}, k.resets = false → AskedSince s.config s.cup s' →
      AskedSince s.config s.cup (Turn.after k.run s') := by
    intro s' k hk hs'
    have hI := invariant_asked s.config s.cup
    have hends : Turn.EndsIn (AskedSince s.config s.cup) (fun _ => AskedSince s.config s.cup)
        (k.run s') := by
      cases k with
      | roll t => exact nomatch hk
      | evaluate t => exact hI.evaluate t hs'
      | resolve t => exact hI.resolve t hs'
      | rollCode code => exact hI.rollCode code hs'
    exact hends.after
  have hafter : ∀ {s' : Session ρ}, AskedSince s.config s.cup s' →
      AskedSince s.config s.cup (s'.afterCalls ks) := by
    induction ks with
    | nil => exact id
    | cons k ks ih =>
      obtain ⟨hk, hks⟩ := List.forall_mem_cons.mp h
      exact fun hs' => ih hks (hcall hk hs')
  exact (hafter ⟨rfl, [], rfl⟩).2

end Calls

/-! ## Until the next reset -/

/-- What comes of asking a cup with the budget `B` for some draws, without a reset.  Which of them
are refused is said of counts that fit a word. -/
structure Cup.Counted [Roller ρ] (B : Nat) (c : Cup ρ) (draws : List Draw) : Prop where
  /-- Everything is counted. -/
  rolls_eq : (c.askAll draws).rolls = c.rolls + Draw.total draws
  /-- The count fits a word all the way exactly if everything together does. -/
  fits_iff : (∀ asked, asked <+: draws → (c.askAll asked).rolls ≤ highestCount) ↔
    c.rolls + Draw.total draws ≤ highestCount
  /-- A draw is refused exactly if it takes the count beyond the budget. -/
  refuses_iff : c.rolls + Draw.total draws ≤ highestCount →
    ∀ asked d later, draws = asked ++ d :: later →
      ((c.askAll asked).Refuses d ↔ B < c.rolls + Draw.total asked + d.count)
  /-- What comes after a refusal is refused. -/
  refuses_later : c.rolls + Draw.total draws ≤ highestCount →
    ∀ asked d later, draws = asked ++ d :: later → (c.askAll asked).Refuses d →
      ∀ next e rest, later = next ++ e :: rest → (c.askAll (asked ++ d :: next)).Refuses e
  /-- From the first refusal on the roller is left alone. -/
  roller_eq : c.rolls + Draw.total draws ≤ highestCount →
    ∀ asked d later, draws = asked ++ d :: later → (c.askAll asked).Refuses d →
      (c.askAll draws).roller = (c.askAll asked).roller
  /-- After a reset only the budget matters. -/
  reset_refuses_iff : ∀ d, (c.askAll draws).reset.Refuses d ↔ B < d.count

section Counting

variable [Roller ρ] {B : Nat} {c : Cup ρ}

/-- Whatever a cup is asked for is counted. -/
theorem Cup.counted (h : c.budget = some B) (draws : List Draw) : c.Counted B draws := by
  have hlimit : ∀ asked, (c.askAll asked).limit = B := fun asked =>
    (Cup.limit_rolls_askAll asked c).1.trans (Cup.limit_of_budget h)
  have hrolls : ∀ asked, (c.askAll asked).rolls = c.rolls + Draw.total asked := fun asked =>
    (Cup.limit_rolls_askAll asked c).2
  have hrefuses : ∀ asked d,
      (c.askAll asked).Refuses d ↔ B < c.rolls + Draw.total asked + d.count := by
    intro asked d
    rw [Cup.refuses_iff, hlimit, hrolls]
  refine ⟨hrolls draws, ⟨fun hall => ?_, ?_⟩, fun _ asked d _ _ => hrefuses asked d, ?_, ?_, ?_⟩
  · exact hrolls draws ▸ hall draws (List.prefix_refl draws)
  · rintro hfits asked ⟨later, rfl⟩
    rw [Draw.total_append] at hfits
    rw [hrolls]
    omega
  · rintro - asked d later - hd next e rest -
    rw [hrefuses] at hd ⊢
    rw [Draw.total_append, Draw.total_cons]
    omega
  · rintro - asked d later rfl hd
    obtain ⟨hroller, hbeyond⟩ := Cup.ask_of_refuses hd
    rw [Cup.askAll_append]
    exact (Cup.roller_askAll hbeyond later).trans hroller
  · intro d
    rw [Cup.refuses_iff, show (c.askAll draws).reset.limit = B from hlimit draws]
    show B < 0 + d.count ↔ B < d.count
    rw [Nat.zero_add]

/-- **A cup that has refused a draw refuses every later one until it is reset**, as long as its
count fits a word.  The count is what it was asked for since the last reset, and it is not bounded:
it fits a word as long as what was asked for does.  As long as it does, evaluating, resolving and
rolling codes asks the cup of a session for draws, however they end, and does nothing else to it;
when the budget is spent, no face is drawn. -/
theorem exhausted_until_reset (h : c.budget = some B) :
    (∀ draws, c.Counted B draws) ∧
    ∀ (s : Session ρ) (ks : List Call), s.cup = c → (∀ k ∈ ks, k.resets = false) →
      (s.afterCalls ks).cup.rolls ≤ highestCount →
      c.Asked (s.afterCalls ks).cup ∧
      (B < c.rolls → (s.afterCalls ks).cup.roller = c.roller) := by
  refine ⟨Cup.counted h, ?_⟩
  rintro s ks rfl hks -
  have hasked := asked_afterCalls ks s hks
  refine ⟨hasked, fun hspent => ?_⟩
  obtain ⟨draws, hcup⟩ := hasked
  rw [hcup]
  exact Cup.roller_askAll ((Cup.limit_of_budget h).symm ▸ hspent) draws

end Counting

/-- A cup for five faces that has refused three of six refuses even none, and after a reset it
grants five.  In a session with a budget of two faces, three are refused, and then one is. -/
theorem exhausted_until_reset_of_five :
    let c : Cup Stepping := { budget := some 5, roller := ⟨1, 1⟩ }
    let s := (Session.start { maxRolls := some 2 } (Stepping.mk 1 1)).afterCalls
      [.rollCode "3d6".toList]
    (c.budget = some 5 ∧ ¬ c.Refuses ⟨3, 1, 10⟩ ∧ (c.askAll [⟨3, 1, 10⟩]).Refuses ⟨3, 1, 10⟩ ∧
      (c.askAll [⟨3, 1, 10⟩, ⟨3, 1, 10⟩]).Refuses ⟨0, 1, 10⟩ ∧
      ¬ (c.askAll [⟨3, 1, 10⟩, ⟨3, 1, 10⟩, ⟨0, 1, 10⟩]).reset.Refuses ⟨5, 1, 10⟩) ∧
    s.cup.budget = some 2 ∧ 2 < s.cup.rolls ∧
      (s.afterCalls [.rollCode "1d6".toList, .evaluate "(2d6g)d6".toList]).cup.rolls = 6 ∧
      (s.afterCalls [.rollCode "1d6".toList, .evaluate "(2d6g)d6".toList]).cup.roller =
        s.cup.roller := by
  intro c s
  constructor
  · have hbudget : c.budget = some 5 := rfl
    have hcounted := (exhausted_until_reset hbudget).1 [⟨3, 1, 10⟩, ⟨3, 1, 10⟩, ⟨0, 1, 10⟩]
    have hfits : c.rolls + Draw.total [⟨3, 1, 10⟩, ⟨3, 1, 10⟩, ⟨0, 1, 10⟩] ≤ highestCount := by
      decide
    have hfirst := hcounted.refuses_iff hfits [] _ _ rfl
    have hsecond := (hcounted.refuses_iff hfits [⟨3, 1, 10⟩] _ _ rfl).mpr (by decide)
    have hthird := hcounted.refuses_later hfits [⟨3, 1, 10⟩] _ _ rfl hsecond [] _ _ rfl
    exact ⟨hbudget, fun hr => absurd (hfirst.mp hr) (by decide), hsecond, hthird,
      fun hr => absurd ((hcounted.reset_refuses_iff _).mp hr) (by decide)⟩
  · have hbudget : s.cup.budget = some 2 := by decide +kernel
    have hspent : 2 < s.cup.rolls := by decide +kernel
    have hrolls : (s.afterCalls [.rollCode "1d6".toList, .evaluate "(2d6g)d6".toList]).cup.rolls =
        6 := by decide +kernel
    have hkept := (exhausted_until_reset hbudget).2 s
      [.rollCode "1d6".toList, .evaluate "(2d6g)d6".toList] rfl (by decide) (by rw [hrolls]; decide)
    exact ⟨hbudget, hspent, hrolls, hkept.2 hspent⟩

/-! ## A count beyond a word -/

/-- **The count of a session does not have to fit a word.**  Two codes for half a word of dice are
both refused, and both are counted. -/
theorem not_forall_count_fits :
    (let s := Session.start { maxRolls := some 10 } (Scripted.mk [1, 2])
      let code := Call.rollCode "-9223372036854775808d6".toList
      (s.afterCalls [code]).cup.rolls = 2 ^ 63 ∧
      (s.afterCalls [code, code]).cup.rolls = highestCount + 1) ∧
    ¬ ∀ (B : Nat) (c : Cup Scripted) (draws : List Draw), c.budget = some B → B ≤ highestCount →
      c.rolls = 0 → (∀ d ∈ draws, d.count ≤ 2 ^ 63) → (c.askAll draws).rolls ≤ highestCount := by
  refine ⟨⟨by decide +kernel, by decide +kernel⟩, fun hall => ?_⟩
  have hfits := hall 10 { budget := some 10, roller := Scripted.mk [1, 2] }
    [⟨2 ^ 63, 1, 6⟩, ⟨2 ^ 63, 1, 6⟩] rfl (by decide) rfl (by decide)
  exact absurd hfits (by decide)

end DiceNotation
