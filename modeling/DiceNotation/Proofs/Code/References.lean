import DiceNotation.Proofs.Code.Recognition

/-!
# Codes that refer back

A code refers to an earlier roll if dashes stand where its amount has its place, at the start or
behind the ranks, and neither a digit nor another dash follows them.  Whatever else such a code asks
for, if it is read at all then its amount is the roll so many back; and no other code has such an
amount (`amount_eq_back_iff`).

* `RefersBack`.
* `amount_mem_settings`, `eq_of_amount_mem`: the amount is set, and set once.
* `amount_eq_back_iff`.
-/

namespace DiceNotation.DiceCode

open Text

/-- Whether a code has `n` dashes in the place of its amount. -/
def RefersBack (n : Nat) (code : Text) : Prop :=
  0 < n ∧ ∃ rest, amountPlace (trim code) = List.replicate n '-' ++ rest ∧ endsLiteral rest = true

variable {n : Nat} {code : Text} {p : Parameters}

/-- The amount of a code is one of the settings that are found. -/
theorem amount_mem_settings (h : WellFormed code p) :
    Setting.amount p.amount ∈ (findings code).flatMap Finding.settings := by
  obtain ⟨am, ham, hp⟩ := Option.map_eq_some_iff.mp h.parameters
  obtain ⟨s, hs, hsam⟩ := List.exists_of_findSome?_eq_some ham
  obtain rfl : am = p.amount := congrArg Parameters.amount hp
  cases s with
  | amount b =>
    obtain rfl := Option.some.inj hsam
    exact hs
  | _ => exact nomatch hsam

theorem eq_of_amount_mem (h : WellFormed code p) {am : Amount}
    (ham : Setting.amount am ∈ (findings code).flatMap Finding.settings) : p.amount = am :=
  Setting.amount.inj (List.inj_on_of_nodup_map h.distinct (amount_mem_settings h) ham rfl)

/-- Dashes are found where the amount has its place. -/
theorem back_mem_settings (h : WellFormed (trim code) p) (hback : RefersBack n code) :
    Setting.amount (.back n) ∈ (findings (trim code)).flatMap Finding.settings := by
  obtain ⟨hpos, rest, hplace, hends⟩ := hback
  obtain ⟨m, rfl⟩ := Nat.exists_eq_succ_of_ne_zero (Nat.ne_of_gt hpos)
  have hat := at_notMem_amountPlace h.find_eq h.covered
  obtain ⟨a, hcode, hplaced⟩ := exists_placed (h.find_eq .selectors) hat
  rw [hplace] at hcode hplaced
  have hfind := findLiteral_append (.back m) hplaced hends
  rw [← hcode] at hfind
  have hfound := Rule.found_of_find (r := .literal) hfind
  have hmem := hfound ▸ List.mem_singleton_self _
  exact List.mem_flatMap.mpr ⟨_, List.mem_flatMap.mpr ⟨.literal, Rule.mem_all _, hmem⟩,
    List.mem_singleton_self _⟩

/-- An amount that refers back was found as dashes. -/
theorem refersBack_of_mem_settings (h : WellFormed (trim code) p)
    (hback : Setting.amount (.back n) ∈ (findings (trim code)).flatMap Finding.settings) :
    RefersBack n code := by
  rw [← settings_sources] at hback
  obtain ⟨e, he, hset⟩ := List.mem_flatMap.mp hback
  obtain ⟨a, x, b, hcode, -, -, hwrites, hfits⟩ := h.sits he
  generalize e.1 = r, e.2.settings = l at hwrites hfits hset
  have hhead := hwrites.not_blank_head b
  cases hwrites with
  | back m =>
    obtain rfl : n = m + 1 := Amount.back.inj (Setting.amount.inj (List.mem_singleton.mp hset))
    refine ⟨Nat.succ_pos m, b, ?_, hfits.2⟩
    rw [hcode]
    exact amountPlace_append hfits.1 hhead
  | _ => simp at hset

/-- **A code that is read takes its faces from the roll `n` back if and only if it has `n` dashes in
the place of its amount.** -/
theorem amount_eq_back_iff (h : read code = .ok p) : p.amount = .back n ↔ RefersBack n code := by
  have hwell := read_eq_ok_iff.mp h
  constructor
  · intro hamount
    exact refersBack_of_mem_settings hwell (hamount ▸ amount_mem_settings hwell)
  · intro hback
    exact eq_of_amount_mem hwell (back_mem_settings hwell hback)

end DiceNotation.DiceCode
