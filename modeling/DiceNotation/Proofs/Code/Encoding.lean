import DiceNotation.Proofs.Code.Layout

/-!
# Writing codes

A recipe says what a code should ask for: an amount, and whatever else of ranks, sides, dropped
faces, sorting, a suffix and bangs is wanted.  It is written part by part in this order, numbers in
decimal digits, and the code that comes out is read back as what the recipe says
(`read_recipe`).

What comes after the amount is there or is not, and wherever a part is missing those around it have
to go together.  They do because all of them begin with a letter or a bang, and those before the
suffix end with a digit or a dash.

* `Suffix`, `Recipe`: `Recipe.text`, `Recipe.parameters`, `Recipe.Sound`.
* `Lays`: a text is pieces that fit under a condition on what is around it, with `Lays.append`.
* `MayWrite`: a part that may be missing.
* `Recipe.lays_text`, `read_recipe`.
-/

namespace DiceNotation.DiceCode

open Text

/-! ## Recipes -/

/-- What a code can end with, apart from bangs. -/
inductive Suffix where
  | sum
  | max
  | min
  | nothing
  | amount
  | threshold (ones : Bool) (n : Int)
  deriving DecidableEq, Repr

namespace Suffix

def text : Suffix → Text
  | sum => ['g']
  | max => ['h']
  | min => ['l']
  | nothing => ['~']
  | amount => ['=']
  | threshold ones n => (if ones then 'f' else 'e') :: Whole.render n

def reduction : Suffix → Reduction
  | sum => .sum
  | max => .max
  | min => .min
  | nothing => .nothing
  | amount => .amount
  | threshold _ _ => .successes

def difficulty? : Suffix → Option Int
  | threshold _ n => some n
  | _ => none

def countsOnes : Suffix → Bool
  | threshold ones _ => ones
  | _ => false

/-- What the suffix sets. -/
def settings : Suffix → List Setting
  | threshold ones n => [.reduction .successes, .difficulty n, .oneBehaviour ones]
  | s => [.reduction s.reduction]

end Suffix

/-- What a code should ask for.  Ranks are a first one and any others. -/
structure Recipe where
  ranks : Option (Int × List Int) := none
  amount : Amount
  sides : Option Int := none
  rerolls : Option Int := none
  sort : Bool := false
  suffix : Option Suffix := none
  bangs : Nat := 0
  deriving DecidableEq, Repr

namespace Recipe

def ranksText (r : Recipe) : Text := r.ranks.elim [] fun l => (Reduction.ranks l.1 l.2).text

def sidesText (r : Recipe) : Text := r.sides.elim [] fun n => 'd' :: Whole.render n

def rerollsText (r : Recipe) : Text := r.rerolls.elim [] fun n => 'r' :: Whole.render n

def sortText (r : Recipe) : Text := if r.sort then ['s'] else []

def suffixText (r : Recipe) : Text := r.suffix.elim [] Suffix.text

def bangsText (r : Recipe) : Text := List.replicate r.bangs '!'

/-- The code that asks for what the recipe says. -/
def text (r : Recipe) : Text :=
  r.ranksText ++ (r.amount.text ++ (r.sidesText ++ (r.rerollsText ++
    (r.sortText ++ (r.suffixText ++ r.bangsText)))))

/-- What the recipe says, and for the rest what holds when nothing is said. -/
def parameters (r : Recipe) : Parameters where
  amount := r.amount
  sides := r.sides
  rerolls := r.rerolls.getD 0
  sort := r.sort
  explosion := r.bangs
  reduction := (r.ranks.map fun l => Reduction.ranks l.1 l.2).or (r.suffix.map Suffix.reduction)
  difficulty := r.suffix.bind Suffix.difficulty?
  oneBehaviour := r.suffix.any Suffix.countsOnes

/-- The numbers are in the range, and those that have no sign are not negative; the amount is a count
or refers to an earlier roll; there are not both ranks and a suffix. -/
structure Sound (r : Recipe) : Prop where
  ranks : ∀ l ∈ r.ranks, ∀ n ∈ l.1 :: l.2, Whole.fits n = true
  amount : (∃ n, r.amount = .count n ∧ Whole.fits n = true) ∨ ∃ n, r.amount = .back (n + 1)
  sides : ∀ n ∈ r.sides, 0 ≤ n ∧ Whole.fits n = true
  rerolls : ∀ n ∈ r.rerolls, Whole.fits n = true
  suffix : ∀ s ∈ r.suffix, ∀ n ∈ s.difficulty?, 0 ≤ n ∧ Whole.fits n = true
  exclusive : r.ranks = none ∨ r.suffix = none

def ranksSettings (r : Recipe) : List Setting :=
  r.ranks.elim [] fun l => [.reduction (.ranks l.1 l.2)]

def sidesSettings (r : Recipe) : List Setting := r.sides.elim [] fun n => [.sides n]

def rerollsSettings (r : Recipe) : List Setting := r.rerolls.elim [] fun n => [.rerolls n]

def sortSettings (r : Recipe) : List Setting := if r.sort then [.sort] else []

def suffixSettings (r : Recipe) : List Setting := r.suffix.elim [] Suffix.settings

def bangsSettings (r : Recipe) : List Setting :=
  if r.bangs = 0 then [] else [.explosion r.bangs]

/-- What the parts of the code set, in their order. -/
def settings (r : Recipe) : List Setting :=
  r.ranksSettings ++ ([.amount r.amount] ++ (r.sidesSettings ++ (r.rerollsSettings ++
    (r.sortSettings ++ (r.suffixSettings ++ r.bangsSettings)))))

end Recipe

/-! ## Texts of pieces -/

variable {x y : Text} {l m : List Setting} {P Q : Text → Text → Prop}

/-- A text is pieces with such settings, which fit under a condition on what is before and after
them. -/
def Lays (x : Text) (l : List Setting) (P : Text → Text → Prop) : Prop :=
  ∃ ps, render ps = x ∧ ps.flatMap Piece.settings = l ∧ ∀ a b, P a b → Laid a ps b

namespace Lays

theorem nil : Lays [] [] P := ⟨[], rfl, rfl, fun _ _ _ => trivial⟩

theorem part {r : Rule} (hx : Writes r x l) (hP : ∀ a b, P a b → Fits r a x b) : Lays x l P := by
  refine ⟨[⟨[], r, x, l, fun _ hc => (nomatch hc), hx⟩], List.append_nil x, List.append_nil l, ?_⟩
  intro a b hab
  refine ⟨?_, trivial⟩
  rw [render_nil, List.nil_append, List.append_nil]
  exact hP a b hab

theorem append (hx : Lays x l P) (hy : Lays y m Q) :
    Lays (x ++ y) (l ++ m) fun a b => P a (y ++ b) ∧ Q (a ++ x) b := by
  obtain ⟨ps, rfl, rfl, hps⟩ := hx
  obtain ⟨qs, rfl, rfl, hqs⟩ := hy
  refine ⟨ps ++ qs, render_append ps qs, List.flatMap_append, fun a b hab => ?_⟩
  exact laid_append.mpr ⟨hps _ _ hab.1, hqs _ _ hab.2⟩

theorem mono (hx : Lays x l P) (hPQ : ∀ a b, Q a b → P a b) : Lays x l Q := by
  obtain ⟨ps, htext, hsettings, hps⟩ := hx
  exact ⟨ps, htext, hsettings, fun a b hab => hps a b (hPQ a b hab)⟩

/-- **A text of pieces is read as what they set.** -/
theorem read (h : Lays x l P) (hP : P [] []) (hx : ∀ c ∈ x, isBlank c = false)
    (hdistinct : Setting.Distinct l) {p : Parameters} (hp : Parameters.ofSettings? l = some p) :
    DiceCode.read x = .ok p := by
  obtain ⟨ps, rfl, rfl, hps⟩ := h
  have htrim : trim (render ps) = render ps :=
    trim_of_not_blank (fun c hc => hx c (List.mem_of_head? hc))
      fun c hc => hx c (List.mem_of_getLast? hc)
  exact (Layout.mk (hps _ _ hP) hdistinct (exists_setsAmount hp)).read htrim hp

end Lays

/-! ## Parts that may be missing -/

/-- A text is nothing, or a part of what comes after the amount. -/
def MayWrite (x : Text) (l : List Setting) (P : Text → Text → Prop) : Prop :=
  x = [] ∧ l = [] ∨ ∃ r : Rule, r.isLate = true ∧ Writes r x l ∧ ∀ a b, P a b → Fits r a x b

namespace MayWrite

theorem elim {α : Type} {o : Option α} {x : α → Text} {l : α → List Setting}
    (h : ∀ a ∈ o, MayWrite (x a) (l a) P) : MayWrite (o.elim [] x) (o.elim [] l) P := by
  cases o with
  | none => exact Or.inl ⟨rfl, rfl⟩
  | some a => exact h a rfl

theorem lays (h : MayWrite x l P) : Lays x l P := by
  rcases h with ⟨rfl, rfl⟩ | ⟨r, -, hx, hP⟩
  · exact Lays.nil
  · exact Lays.part hx hP

theorem not_isBlank (h : MayWrite x l P) : ∀ c ∈ x, isBlank c = false := by
  rcases h with ⟨rfl, -⟩ | ⟨r, hr, hx, -⟩
  · exact fun c hc => nomatch hc
  · exact hx.not_isBlank (Rule.ne_literal hr)

theorem at_notMem (h : MayWrite x l P) : '@' ∉ x := by
  rcases h with ⟨rfl, -⟩ | ⟨r, hr, hx, -⟩
  · exact List.not_mem_nil
  · intro hat
    obtain rfl := hx.eq_of_mark hat rfl
    exact nomatch hr

/-- A literal ends before such a part. -/
theorem endsLiteral (h : MayWrite x l P) : DiceCode.endsLiteral x = true := by
  rcases h with ⟨rfl, -⟩ | ⟨r, hr, hx, -⟩
  · rfl
  · obtain ⟨c, t, rfl, hc⟩ := hx.exists_mark hr
    exact forall_of_mark (p := fun c _ => (!isDecimalDigit c && c != '-') = true) (by decide) hc

end MayWrite

theorem endsLiteral_append (hx : endsLiteral x = true) (hy : endsLiteral y = true) :
    endsLiteral (x ++ y) = true := by
  cases x with
  | nil => exact hy
  | cons c x => exact hx

/-! ## The parts of a recipe -/

theorem numeral_render {n : Int} (h : 0 ≤ n) : Numeral (Whole.render n) := by
  obtain ⟨m, rfl⟩ := Int.eq_ofNat_of_zero_le h
  exact numeral_renderNat m

/-- A number is digits, or a minus and digits. -/
theorem exists_sign_render (n : Int) :
    ∃ sign w, Whole.render n = sign ++ w ∧ (sign = [] ∨ sign = ['+'] ∨ sign = ['-']) ∧
      Numeral w := by
  cases n with
  | ofNat m => exact ⟨[], _, rfl, Or.inl rfl, numeral_renderNat m⟩
  | negSucc m => exact ⟨['-'], _, rfl, Or.inr (Or.inr rfl), numeral_renderNat (m + 1)⟩

theorem forall₂_render {ns : List Int} (h : ∀ n ∈ ns, Whole.fits n = true) :
    List.Forall₂ Spells (ns.map Whole.render) ns := by
  rw [List.forall₂_map_left_iff, List.forall₂_same]
  exact fun n hn => spells_render (h n hn)

theorem writes_suffix {s : Suffix} (h : ∀ n ∈ s.difficulty?, 0 ≤ n ∧ Whole.fits n = true) :
    MayWrite s.text s.settings fun _ b => ∀ c ∈ b, c = '!' := by
  have hletter : ∀ {c : Char} {r : Reduction}, Reduction.ofSuffix? c = some r →
      MayWrite [c] [.reduction r] fun _ b => ∀ c ∈ b, c = '!' :=
    fun hc => Or.inr ⟨.suffix, rfl, .suffix hc, fun _ _ hb => hb⟩
  cases s with
  | sum => exact hletter rfl
  | max => exact hletter rfl
  | min => exact hletter rfl
  | nothing => exact hletter rfl
  | amount => exact hletter rfl
  | threshold ones n =>
    obtain ⟨hn, hfits⟩ := h n rfl
    have husable := (spells_render hfits).usable_eq
    refine Or.inr ⟨.threshold, rfl, ?_, fun _ _ hb => hb⟩
    cases ones with
    | true => exact .threshold (Or.inr rfl) (numeral_render hn) husable
    | false => exact .threshold (Or.inl rfl) (numeral_render hn) husable

namespace Recipe

variable {r : Recipe}

theorem mayWrite_sides (h : r.Sound) :
    MayWrite r.sidesText r.sidesSettings fun a b => EndsWith isLoose a ∧ Stops b :=
  MayWrite.elim fun n hn =>
    have ⟨hle, hfits⟩ := h.sides n hn
    Or.inr ⟨.sides, rfl, .sides (numeral_render hle) (spells_render hfits).usable_eq,
      fun _ _ hab => hab⟩

theorem mayWrite_rerolls (h : r.Sound) :
    MayWrite r.rerollsText r.rerollsSettings fun a b => EndsWith isTight a ∧ Stops b := by
  refine MayWrite.elim fun n hn => Or.inr ⟨.rerolls, rfl, ?_, fun _ _ hab => hab⟩
  obtain ⟨sign, w, heq, hsign, hw⟩ := exists_sign_render n
  have husable := (spells_render (h.rerolls n hn)).usable_eq
  rw [heq] at husable ⊢
  exact .rerolls (Or.inl rfl) hsign hw husable

theorem mayWrite_sort (r : Recipe) :
    MayWrite r.sortText r.sortSettings fun a _ => EndsWith isTight a := by
  unfold sortText sortSettings
  cases r.sort with
  | false => exact Or.inl ⟨rfl, rfl⟩
  | true => exact Or.inr ⟨.sort, rfl, .sort, fun _ _ ha => ha⟩

theorem mayWrite_suffix (h : r.Sound) :
    MayWrite r.suffixText r.suffixSettings fun _ b => ∀ c ∈ b, c = '!' :=
  MayWrite.elim fun s hs => writes_suffix (h.suffix s hs)

theorem mayWrite_bangs (r : Recipe) :
    MayWrite r.bangsText r.bangsSettings fun _ b => b = [] := by
  unfold bangsText bangsSettings
  cases r.bangs with
  | zero => exact Or.inl ⟨rfl, rfl⟩
  | succ n => exact Or.inr ⟨.explosion, rfl, .bangs n, fun _ _ hb => hb⟩

theorem lays_ranks (h : r.Sound) :
    Lays r.ranksText r.ranksSettings fun a _ => a = [] := by
  unfold ranksText ranksSettings
  cases hranks : r.ranks with
  | none => exact Lays.nil
  | some l =>
    have hspells := forall₂_render (h.ranks l hranks)
    exact Lays.part (r := .selectors) (.selectors hspells) fun _ _ ha => ha

/-- Whether there are ranks or not, the amount has its place behind them. -/
theorem placed_ranksText (h : r.Sound) {y : Text} (hy : '@' ∉ y) : Placed r.ranksText y := by
  refine ⟨hy, ?_⟩
  unfold ranksText
  cases hranks : r.ranks with
  | none => exact Or.inl fun c hc => nomatch hc
  | some l =>
    have hspells := forall₂_render (h.ranks l hranks)
    exact Or.inr ⟨_, [], _, (List.append_nil _).symm, .selectors hspells, fun c hc => nomatch hc⟩

theorem lays_amount (h : r.Sound) :
    Lays r.amount.text [.amount r.amount]
      fun a b => Placed a (r.amount.text ++ b) ∧ endsLiteral b = true := by
  rcases h.amount with ⟨n, heq, hn⟩ | ⟨n, heq⟩
  · rw [heq]
    exact Lays.part (r := .amount) (.count (spells_render hn)) fun _ _ hab =>
      ⟨hab.1, stops_of_endsLiteral hab.2⟩
  · rw [heq]
    exact Lays.part (r := .literal) (.back n) fun _ _ hab => hab

theorem forall_mem_amount (h : r.Sound) {p : Char → Prop}
    (hp : ∀ c ∈ "-0123456789".toList, p c) : ∀ c ∈ r.amount.text, p c := by
  rcases h.amount with ⟨n, heq, hn⟩ | ⟨n, heq⟩
  · rw [heq]
    exact (spells_render hn).forall_mem hp
  · rw [heq]
    intro c hc
    rw [(List.mem_replicate.mp hc).2]
    exact hp '-' List.mem_cons_self

theorem endsWith_amount (h : r.Sound) : EndsWith isTight r.amount.text := by
  refine endsWith_of_forall ?_ (forall_mem_amount h (by decide))
  rcases h.amount with ⟨n, heq, hn⟩ | ⟨n, heq⟩
  · rw [heq]
    exact (spells_render hn).ne_nil
  · rw [heq]
    exact List.cons_ne_nil _ _

theorem endsWith_sides (h : r.Sound) : r.sidesText = [] ∨ EndsWith isTight r.sidesText := by
  unfold sidesText
  cases hsides : r.sides with
  | none => exact Or.inl rfl
  | some n =>
    exact Or.inr (EndsWith.append (endsWith_of_spells (spells_render (h.sides n hsides).2)) ['d'])

theorem endsWith_rerolls (h : r.Sound) : r.rerollsText = [] ∨ EndsWith isTight r.rerollsText := by
  unfold rerollsText
  cases hrerolls : r.rerolls with
  | none => exact Or.inl rfl
  | some n =>
    exact Or.inr (EndsWith.append (endsWith_of_spells (spells_render (h.rerolls n hrerolls))) ['r'])

/-! ## The code -/

theorem not_isBlank_text (h : r.Sound) : ∀ c ∈ r.text, isBlank c = false := by
  have hranks : ∀ c ∈ r.ranksText, isBlank c = false := by
    unfold ranksText
    cases hranks : r.ranks with
    | none => exact fun c hc => nomatch hc
    | some l =>
      have hspells := forall₂_render (h.ranks l hranks)
      exact (Writes.selectors hspells).not_isBlank nofun
  unfold text
  simp only [List.mem_append]
  rintro c (hc | hc | hc | hc | hc | hc | hc)
  · exact hranks c hc
  · exact forall_mem_amount h (p := fun c => isBlank c = false) (by decide) c hc
  · exact (mayWrite_sides h).not_isBlank c hc
  · exact (mayWrite_rerolls h).not_isBlank c hc
  · exact (mayWrite_sort r).not_isBlank c hc
  · exact (mayWrite_suffix h).not_isBlank c hc
  · exact (mayWrite_bangs r).not_isBlank c hc

/-- The parts of a recipe go together: each has its place behind the ones before it, and none goes on
into the ones after it. -/
theorem lays_text (h : r.Sound) : Lays r.text r.settings fun a b => a = [] ∧ b = [] := by
  have hlays := (lays_ranks h).append ((lays_amount h).append
    ((mayWrite_sides h).lays.append ((mayWrite_rerolls h).lays.append
      ((mayWrite_sort r).lays.append ((mayWrite_suffix h).lays.append
        (mayWrite_bangs r).lays)))))
  refine hlays.mono ?_
  rintro _ _ ⟨rfl, rfl⟩
  have hbangs := (mayWrite_bangs r).endsLiteral
  have hsuffix := endsLiteral_append (mayWrite_suffix h).endsLiteral hbangs
  have hsort := endsLiteral_append (mayWrite_sort r).endsLiteral hsuffix
  have hrerolls := endsLiteral_append (mayWrite_rerolls h).endsLiteral hsort
  have hsides := endsLiteral_append (mayWrite_sides h).endsLiteral hrerolls
  have hcounted := (endsWith_amount h).append r.ranksText
  have hsided := hcounted.append_right (endsWith_sides h)
  have hrerolled := hsided.append_right (endsWith_rerolls h)
  have hat : '@' ∉ r.amount.text ++ (r.sidesText ++ (r.rerollsText ++ (r.sortText ++
      (r.suffixText ++ r.bangsText)))) := by
    simp only [List.mem_append, not_or]
    exact ⟨fun hc => forall_mem_amount h (p := fun c => c ≠ '@') (by decide) _ hc rfl,
      (mayWrite_sides h).at_notMem, (mayWrite_rerolls h).at_notMem,
      (mayWrite_sort r).at_notMem, (mayWrite_suffix h).at_notMem,
      (mayWrite_bangs r).at_notMem⟩
  simp only [List.append_nil, List.nil_append]
  exact ⟨trivial, ⟨placed_ranksText h hat, hsides⟩,
    ⟨hcounted.isLoose, stops_of_endsLiteral hrerolls⟩, ⟨hsided, stops_of_endsLiteral hsort⟩,
    hrerolled, fun c hc => (List.mem_replicate.mp hc).2, trivial⟩

theorem keys_elim_sublist {α : Type} {o : Option α} {l : α → List Setting} {ks : List Key}
    (h : ∀ a, ((l a).map Setting.key).Sublist ks) : ((o.elim [] l).map Setting.key).Sublist ks := by
  cases o with
  | none => exact List.nil_sublist ks
  | some a => exact h a

/-- No key is set twice, if there are not both ranks and a suffix. -/
theorem distinct_of_exclusive (h : r.ranks = none ∨ r.suffix = none) :
    Setting.Distinct r.settings := by
  have hranks : (r.ranksSettings.map Setting.key).Sublist [.reduction] :=
    keys_elim_sublist fun _ => List.Sublist.refl _
  have hsides : (r.sidesSettings.map Setting.key).Sublist [.sides] :=
    keys_elim_sublist fun _ => List.Sublist.refl _
  have hrerolls : (r.rerollsSettings.map Setting.key).Sublist [.rerolls] :=
    keys_elim_sublist fun _ => List.Sublist.refl _
  have hsort : (r.sortSettings.map Setting.key).Sublist [.sort] := by
    unfold sortSettings
    cases r.sort with
    | false => exact List.nil_sublist _
    | true => exact List.Sublist.refl _
  have hsuffix : (r.suffixSettings.map Setting.key).Sublist
      [.reduction, .difficulty, .oneBehaviour] := by
    refine keys_elim_sublist fun s => ?_
    cases s with
    | threshold ones n => exact List.Sublist.refl _
    | _ => exact List.Sublist.cons_cons _ (List.nil_sublist _)
  have hbangs : (r.bangsSettings.map Setting.key).Sublist [.explosion] := by
    unfold bangsSettings
    split
    · exact List.nil_sublist _
    · exact List.Sublist.refl _
  have hamount := List.Sublist.refl [Key.amount]
  unfold Setting.Distinct settings
  simp only [List.map_append]
  rcases h with hnone | hnone
  · rw [ranksSettings, hnone]
    exact (hamount.append (hsides.append (hrerolls.append (hsort.append
      (hsuffix.append hbangs))))).nodup (by decide)
  · rw [suffixSettings, hnone]
    exact (hranks.append (hamount.append (hsides.append (hrerolls.append (hsort.append
      hbangs))))).nodup (by decide)

theorem distinct_settings (h : r.Sound) : Setting.Distinct r.settings :=
  distinct_of_exclusive h.exclusive

theorem ofSettings?_of_exclusive (h : r.ranks = none ∨ r.suffix = none) :
    Parameters.ofSettings? r.settings = some r.parameters := by
  obtain ⟨ranks, amount, sides, rerolls, sort, suffix, bangs⟩ := r
  cases sides <;> cases rerolls <;> cases sort <;> cases bangs
  all_goals
    rcases h with rfl | rfl
    · rcases suffix with _ | _ | _ | _ | _ | _ | ⟨ones, n⟩
      all_goals rfl
    · cases ranks
      all_goals rfl

theorem ofSettings?_settings (h : r.Sound) :
    Parameters.ofSettings? r.settings = some r.parameters :=
  ofSettings?_of_exclusive h.exclusive

end Recipe

/-- **What is written is read back.** -/
theorem read_recipe {r : Recipe} (h : r.Sound) : read r.text = .ok r.parameters :=
  (Recipe.lays_text h).read ⟨rfl, rfl⟩ (Recipe.not_isBlank_text h) (Recipe.distinct_settings h)
    (Recipe.ofSettings?_settings h)

theorem read_recipe_of_ranks :
    Recipe.Sound
      { ranks := some (-2, [1]), amount := .count (-5), sides := some 6, rerolls := some (-1),
        sort := true, bangs := 2 } ∧
    read "-2,1@-5d6r-1s!!".toList = .ok
      { amount := .count (-5), sides := some 6, rerolls := -1, sort := true, explosion := 2,
        reduction := some (.ranks (-2) [1]) } := by
  have hsound : Recipe.Sound
      { ranks := some (-2, [1]), amount := .count (-5), sides := some 6, rerolls := some (-1),
        sort := true, bangs := 2 } :=
    { ranks := by rintro _ ⟨⟩; decide
      amount := Or.inl ⟨-5, rfl, rfl⟩
      sides := by rintro _ ⟨⟩; decide
      rerolls := by rintro _ ⟨⟩; decide
      suffix := fun _ hs => nomatch hs
      exclusive := Or.inr rfl }
  have htext : "-2,1@-5d6r-1s!!".toList = Recipe.text
      { ranks := some (-2, [1]), amount := .count (-5), sides := some 6, rerolls := some (-1),
        sort := true, bangs := 2 } := by decide
  rw [htext]
  exact ⟨hsound, read_recipe hsound⟩

end DiceNotation.DiceCode
