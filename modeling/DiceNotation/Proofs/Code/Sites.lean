import DiceNotation.Proofs.Code.Found
import DiceNotation.Proofs.Origins

/-!
# Where the findings are

The other half of what a rule finds: whatever it finds is one of its parts, at a place where the
part fits (`sits_of_find`).  Where a rule goes wrong because a number is not usable it finds
nothing, and so the digits in what is found have values.

The amount depends on the ranks, since it is looked for behind them.  That they are usable, and that
no other `@` follows them, is left to those who know it: no single rule looks for both.

* `Sits`: a finding is a part in its place.
* `exists_of_mem_stretches`, `exists_of_withoutBangs`, `exists_of_rankList?`, `exists_placed`: what
  the rules have seen.
* `sits_of_find`.
-/

namespace DiceNotation

open Text

namespace Text

theorem exists_of_cutFirst {p : Char → Bool} {t u v : Text} (h : cutFirst p t = some (u, v)) :
    ∃ c, t = u ++ c :: v ∧ p c = true ∧ ∀ d ∈ u, p d = false := by
  induction t generalizing u v with
  | nil => cases h
  | cons c t ih =>
    rw [cutFirst] at h
    split at h
    · next hc =>
      cases h
      exact ⟨c, rfl, hc, fun d hd => absurd hd List.not_mem_nil⟩
    · next hc =>
      obtain ⟨⟨u', v'⟩, hcut, heq⟩ := Option.map_eq_some_iff.mp h
      cases heq
      obtain ⟨e, rfl, he, hu⟩ := ih hcut
      refine ⟨e, rfl, he, fun d hd => ?_⟩
      rcases List.mem_cons.mp hd with rfl | hd
      · exact Bool.eq_false_iff.mpr hc
      · exact hu d hd

theorem join_cons {sep : Char} {ws : List Text} (h : ws ≠ []) (w : Text) :
    join sep (w :: ws) = w ++ sep :: join sep ws := by
  obtain ⟨v, vs, rfl⟩ := List.exists_cons_of_ne_nil h
  rfl

/-- A text is its pieces with the separator between them. -/
theorem join_pieces (sep : Char) (t : Text) : join sep (pieces (· == sep) t) = t := by
  induction t with
  | nil => rfl
  | cons c t ih =>
    obtain ⟨w, ws, hws⟩ := List.exists_cons_of_length_pos (length_pieces_pos (· == sep) t)
    rw [pieces]
    split
    · next hc =>
      rw [join_cons (by rw [hws]; exact List.cons_ne_nil w ws), ih, beq_iff_eq.mp hc]
      rfl
    · rw [hws] at ih ⊢
      cases ws with
      | nil => exact congrArg (c :: ·) ih
      | cons v vs => exact congrArg (c :: ·) ih

end Text

namespace DiceCode

/-- A finding is a part of its rule, in a place where it fits. -/
def Sits (r : Rule) (code : Text) (f : Finding) : Prop :=
  ∃ a x b, code = a ++ (x ++ b) ∧ f.start = a.length ∧ f.length = x.length ∧
    Writes r x f.settings ∧ Fits r a x b

/-! ## Stretches -/

section Stretches

variable {lead : Char → Bool} {body : Text → Nat}

/-- A stretch comes after a character that leads to it. -/
theorem exists_of_mem_stretches {n : Nat} {code : Text} {found : Nat × Text}
    (h : found ∈ stretches lead body n code) :
    ∃ a t, code = a ++ t ∧ EndsWith lead a ∧ body t ≠ 0 ∧
      found = (n + a.length, t.take (body t)) := by
  fun_induction stretches lead body n code with
  | case1 => exact nomatch h
  | case2 n c t hc ih =>
    rw [Bool.and_eq_true, bne_iff_ne] at hc
    rcases List.mem_cons.mp h with rfl | h
    · exact ⟨[c], t, rfl, ⟨c, rfl, hc.1⟩, hc.2, rfl⟩
    · obtain ⟨a, t', hcode, hlead, hbody, rfl⟩ := ih h
      have hne : t.drop (body t) ≠ [] := by
        rw [hcode]
        obtain ⟨d, hd, -⟩ := hlead
        intro hnil
        rw [(List.append_eq_nil_iff.mp hnil).1] at hd
        exact nomatch hd
      have hlength : body t ≤ t.length :=
        Nat.le_of_lt (Nat.lt_of_not_le fun hle => hne (List.drop_eq_nil_of_le hle))
      refine ⟨c :: t.take (body t) ++ a, t', ?_, hlead.append _, hbody, ?_⟩
      · rw [List.append_assoc, ← hcode, List.cons_append, List.take_append_drop]
      · rw [List.length_append, List.length_cons, List.length_take, Nat.min_eq_left hlength]
        congr 1
        omega
  | case3 n c t _ ih =>
    obtain ⟨a, t', rfl, hlead, hbody, rfl⟩ := ih h
    refine ⟨c :: a, t', rfl, hlead.append [c], hbody, ?_⟩
    rw [List.length_cons]
    congr 1
    omega

end Stretches

/-! ## Numbers -/

theorem stops_afterDigits (t : Text) : Stops (afterDigits t) := by
  intro c hc
  have hnot := List.head?_dropWhile_not isDecimalDigit t
  unfold afterDigits at hc
  rw [Option.mem_def.mp hc] at hnot
  exact hnot

/-- Digits that are read are a numeral. -/
theorem numeral_digits {s t : Text} (hne : digits t ≠ []) {n : Int}
    (hn : usable (s ++ digits t) = .ok n) : Numeral (digits t) :=
  numeral_of_usable hn hne (fun _ hc => List.mem_takeWhile_imp hc) (List.subset_append_right _ _)

/-- A number of dashes and digits that is read has at most one minus. -/
theorem spells_of_digits {x : Text} {n : Int} (h : usable x = .ok n)
    (hx : ∀ c ∈ x, c = '-' ∨ isDecimalDigit c = true) : Spells x n := by
  refine spells_of_usable h (fun c hc => ?_) fun hplus => ?_
  · rcases hx c hc with rfl | hdigit
    · decide
    · exact not_isBlank_of_isDecimalDigit hdigit
  · rcases hx '+' hplus with heq | hdigit
    · exact absurd heq (by decide)
    · exact absurd hdigit (by decide)

theorem take_digits (front u : Text) :
    (front ++ u).take (front.length + (digits u).length) = front ++ digits u := by
  rw [List.take_length_add_append]
  nth_rewrite 2 [← digits_append_afterDigits u]
  rw [List.take_left]

theorem numberLength_ne_zero {before : Nat} {u : Text} (h : numberLength before u ≠ 0) :
    digits u ≠ [] ∧ numberLength before u = before + (digits u).length := by
  unfold numberLength at h ⊢
  split at h
  · exact absurd rfl h
  · next hne => exact ⟨fun he => hne (List.isEmpty_iff.mpr he), if_neg hne⟩

theorem exists_of_sidesLength {t : Text} (h : sidesLength t ≠ 0) :
    ∃ u, t = 'd' :: u ∧ digits u ≠ [] ∧ t.take (sidesLength t) = 'd' :: digits u := by
  unfold sidesLength at h
  split at h
  · next u =>
    obtain ⟨hne, hlength⟩ := numberLength_ne_zero h
    refine ⟨u, rfl, hne, ?_⟩
    show ('d' :: u).take (numberLength 1 u) = _
    rw [hlength]
    exact take_digits ['d'] u
  · exact absurd rfl h

theorem rerollsLength_cons {c : Char} (hc : (c == 'r' || c == 'R') = true) (t : Text) :
    rerollsLength (c :: t) = match t with
      | '+' :: t => numberLength 2 t
      | '-' :: t => numberLength 2 t
      | t => numberLength 1 t := if_pos hc

theorem exists_of_rerollsLength {t : Text} (h : rerollsLength t ≠ 0) :
    ∃ c sign u, t = c :: (sign ++ u) ∧ (c = 'r' ∨ c = 'R') ∧
      (sign = [] ∨ sign = ['+'] ∨ sign = ['-']) ∧ digits u ≠ [] ∧
      t.take (rerollsLength t) = c :: (sign ++ digits u) := by
  cases t with
  | nil => exact absurd rfl h
  | cons c t =>
    have hmark : (c == 'r' || c == 'R') = true := by
      by_contra hne
      exact h (if_neg hne)
    have hc : c = 'r' ∨ c = 'R' := by
      rwa [Bool.or_eq_true, beq_iff_eq, beq_iff_eq] at hmark
    rw [rerollsLength_cons hmark] at h ⊢
    split at h
    · next u =>
      obtain ⟨hne, hnumber⟩ := numberLength_ne_zero h
      refine ⟨c, ['+'], u, rfl, hc, Or.inr (Or.inl rfl), hne, ?_⟩
      rw [hnumber]
      exact take_digits [c, '+'] u
    · next u =>
      obtain ⟨hne, hnumber⟩ := numberLength_ne_zero h
      refine ⟨c, ['-'], u, rfl, hc, Or.inr (Or.inr rfl), hne, ?_⟩
      rw [hnumber]
      exact take_digits [c, '-'] u
    · obtain ⟨hne, hnumber⟩ := numberLength_ne_zero h
      refine ⟨c, [], t, rfl, hc, Or.inl rfl, hne, ?_⟩
      rw [hnumber]
      exact take_digits [c] t

theorem sits_sides {code : Text} {fs : List Finding} (h : findSides code = .ok fs) {f : Finding}
    (hf : f ∈ fs) : Sits .sides code f := by
  obtain ⟨found, hmem, hfound⟩ := exists_of_mem_mapM h hf
  obtain ⟨a, t, rfl, hlead, hbody, rfl⟩ := exists_of_mem_stretches hmem
  obtain ⟨n, hn, hfound⟩ := exists_of_bind_eq_ok hfound
  obtain rfl := Except.ok.inj hfound
  obtain ⟨u, rfl, hne, htake⟩ := exists_of_sidesLength hbody
  dsimp only at hn
  rw [htake] at hn
  refine ⟨a, 'd' :: digits u, afterDigits u, ?_, Nat.zero_add _, congrArg List.length htake,
    .sides (numeral_digits (s := []) hne hn) hn, hlead, stops_afterDigits u⟩
  rw [List.cons_append, digits_append_afterDigits]

theorem sits_rerolls {code : Text} {fs : List Finding} (h : findRerolls code = .ok fs) {f : Finding}
    (hf : f ∈ fs) : Sits .rerolls code f := by
  obtain ⟨found, hmem, hfound⟩ := exists_of_mem_mapM h hf
  obtain ⟨a, t, rfl, hlead, hbody, rfl⟩ := exists_of_mem_stretches hmem
  obtain ⟨n, hn, hfound⟩ := exists_of_bind_eq_ok hfound
  obtain rfl := Except.ok.inj hfound
  obtain ⟨c, sign, u, rfl, hc, hsign, hne, htake⟩ := exists_of_rerollsLength hbody
  dsimp only at hn
  rw [htake] at hn
  refine ⟨a, c :: (sign ++ digits u), afterDigits u, ?_, Nat.zero_add _,
    congrArg List.length htake, .rerolls hc hsign (numeral_digits hne hn) hn, hlead,
    stops_afterDigits u⟩
  rw [List.cons_append, List.append_assoc, digits_append_afterDigits]

theorem sits_sort {code : Text} {fs : List Finding} (h : findSort code = .ok fs) {f : Finding}
    (hf : f ∈ fs) : Sits .sort code f := by
  obtain rfl := Except.ok.inj h
  obtain ⟨found, hmem, rfl⟩ := List.mem_map.mp hf
  obtain ⟨a, t, rfl, hlead, hbody, rfl⟩ := exists_of_mem_stretches hmem
  unfold sortLength at hbody
  split at hbody
  · next u => exact ⟨a, ['s'], u, rfl, Nat.zero_add _, rfl, .sort, hlead⟩
  · exact absurd rfl hbody

/-! ## Ends -/

theorem exists_of_withoutBangs (code : Text) :
    ∃ b, code = (withoutBangs code).1 ++ b ∧ (withoutBangs code).2 = b.length ∧
      ∀ c ∈ b, c = '!' := by
  refine ⟨(code.reverse.takeWhile (· == '!')).reverse, ?_, ?_, fun c hc => ?_⟩
  · show code = (code.reverse.dropWhile (· == '!')).reverse ++ _
    rw [← List.reverse_append, List.takeWhile_append_dropWhile, List.reverse_reverse]
  · show code.length - (code.reverse.dropWhile (· == '!')).length = _
    have hlength := congrArg List.length
      (List.takeWhile_append_dropWhile (p := (· == '!')) (l := code.reverse))
    rw [List.length_append, List.length_reverse] at hlength
    rw [List.length_reverse]
    omega
  · have hbang : (c == '!') = true :=
      List.mem_takeWhile_imp (p := (· == '!')) (List.mem_reverse.mp hc)
    exact beq_iff_eq.mp hbang

theorem sits_suffix {code : Text} {fs : List Finding} (h : findSuffix code = .ok fs) {f : Finding}
    (hf : f ∈ fs) : Sits .suffix code f := by
  obtain ⟨b, hcode, -, hb⟩ := exists_of_withoutBangs code
  unfold findSuffix at h
  dsimp only at h
  split at h
  · next r hr =>
    obtain rfl := Except.ok.inj h
    obtain rfl := List.mem_singleton.mp hf
    obtain ⟨c, hc, hr⟩ := Option.bind_eq_some_iff.mp hr
    obtain ⟨a, ha⟩ := List.getLast?_eq_some_iff.mp hc
    rw [ha] at hcode ⊢
    refine ⟨a, [c], b, ?_, ?_, rfl, .suffix hr, hb⟩
    · rw [hcode, List.append_assoc]
    · rw [List.length_append, List.length_singleton, Nat.add_sub_cancel]
  · obtain rfl := Except.ok.inj h
    exact nomatch hf

theorem sits_threshold {code : Text} {fs : List Finding} (h : findThreshold code = .ok fs)
    {f : Finding} (hf : f ∈ fs) : Sits .threshold code f := by
  obtain ⟨b, hcode, -, hb⟩ := exists_of_withoutBangs code
  unfold findThreshold at h
  dsimp only at h
  split at h
  · obtain rfl := Except.ok.inj h
    exact nomatch hf
  · obtain rfl := Except.ok.inj h
    exact nomatch hf
  · next c before hbefore hne =>
    split at h
    · next hc =>
      obtain ⟨n, hn, h⟩ := exists_of_bind_eq_ok h
      obtain rfl := Except.ok.inj h
      obtain rfl := List.mem_singleton.mp hf
      have hbackward := digits_append_afterDigits (withoutBangs code).1.reverse
      rw [hbefore] at hbackward
      have hbody : (withoutBangs code).1 =
          before.reverse ++ c :: (digits (withoutBangs code).1.reverse).reverse := by
        have hreverse := congrArg List.reverse hbackward
        rw [List.reverse_append, List.reverse_cons, List.append_assoc, List.singleton_append,
          List.reverse_reverse] at hreverse
        exact hreverse.symm
      have hnumeral : Numeral (digits (withoutBangs code).1.reverse).reverse := by
        refine numeral_of_usable hn hne (fun d hd => ?_) (List.Subset.refl _)
        exact List.mem_takeWhile_imp (List.mem_reverse.mp hd)
      rw [Bool.or_eq_true, beq_iff_eq, beq_iff_eq] at hc
      refine ⟨before.reverse, _, b, ?_, List.length_reverse.symm, rfl, .threshold hc hnumeral hn,
        hb⟩
      rw [← List.append_assoc, ← hbody]
      exact hcode
    · obtain rfl := Except.ok.inj h
      exact nomatch hf

theorem sits_explosion {code : Text} {fs : List Finding} (h : findExplosion code = .ok fs)
    {f : Finding} (hf : f ∈ fs) : Sits .explosion code f := by
  obtain ⟨b, hcode, hlength, hb⟩ := exists_of_withoutBangs code
  unfold findExplosion at h
  dsimp only at h
  split at h
  · obtain rfl := Except.ok.inj h
    exact nomatch hf
  · next hne =>
    obtain rfl := Except.ok.inj h
    obtain rfl := List.mem_singleton.mp hf
    obtain ⟨n, hn⟩ := Nat.exists_eq_succ_of_ne_zero hne
    have hbangs : b = List.replicate (n + 1) '!' :=
      List.eq_replicate_iff.mpr ⟨hlength.symm.trans hn, hb⟩
    rw [hn]
    refine ⟨(withoutBangs code).1, List.replicate (n + 1) '!', [], ?_, rfl,
      List.length_replicate.symm, .bangs n, rfl⟩
    rw [List.append_nil, ← hbangs]
    exact hcode

/-! ## The front -/

theorem mem_of_isRank {x : Text} (h : isRank x = true) {c : Char} (hc : c ∈ x) :
    c = '-' ∨ isDecimalDigit c = true := by
  unfold isRank at h
  split at h
  · rw [Bool.and_eq_true, List.all_eq_true] at h
    exact (List.mem_cons.mp hc).imp_right fun hc => h.2 c hc
  · rw [Bool.and_eq_true, List.all_eq_true] at h
    exact Or.inr (h.2 c hc)

/-- Ranks that are read make up the front of the code. -/
theorem exists_of_rankList? {code rest : Text} {ws : List Text} {fs : List Finding}
    (hfind : findSelectors code = .ok fs) (h : rankList? code = some (ws, rest)) :
    ∃ first others, List.Forall₂ Spells ws (first :: others) ∧
      code = join ',' ws ++ ['@'] ++ rest ∧
      fs = [⟨0, (join ',' ws ++ ['@']).length, [.reduction (.ranks first others)]⟩] := by
  have hranks : code = join ',' ws ++ ['@'] ++ rest ∧ ws ≠ [] ∧ ∀ w ∈ ws, isRank w = true := by
    unfold rankList? at h
    split at h
    · exact nomatch h
    · next head rest' hcut =>
      obtain ⟨c, rfl, hc, -⟩ := exists_of_cutFirst hcut
      dsimp only at h
      split at h
      · next hall =>
        cases h
        rw [join_pieces, beq_iff_eq.mp hc, List.append_assoc]
        exact ⟨rfl, List.length_pos_iff.mp (length_pieces_pos _ _), List.all_eq_true.mp hall⟩
      · exact nomatch h
  obtain ⟨hcode, hne, hall⟩ := hranks
  unfold findSelectors at hfind
  rw [h] at hfind
  obtain ⟨ns, hns, hfind⟩ := exists_of_bind_eq_ok hfind
  have hspells : List.Forall₂ Spells ws ns :=
    ((List.forall₂_and_left ws ns).mpr ⟨hall, exists_of_mapM_eq_ok hns⟩).imp fun w n hw =>
      spells_of_digits hw.2 fun c hc => mem_of_isRank hw.1 hc
  cases ns with
  | nil => exact absurd (List.forall₂_nil_right_iff.mp hspells) hne
  | cons first others =>
    refine ⟨first, others, hspells, hcode, ?_⟩
    obtain rfl := Except.ok.inj hfind
    have hlength : code.length - rest.length = (join ',' ws ++ ['@']).length := by
      rw [hcode, List.length_append, Nat.add_sub_cancel]
    rw [hlength]
    rfl

theorem sits_selectors {code : Text} {fs : List Finding} (h : findSelectors code = .ok fs)
    {f : Finding} (hf : f ∈ fs) : Sits .selectors code f := by
  cases hranks : rankList? code with
  | none =>
    unfold findSelectors at h
    rw [hranks] at h
    obtain rfl := Except.ok.inj h
    exact nomatch hf
  | some cut =>
    obtain ⟨first, others, hws, hcode, rfl⟩ := exists_of_rankList? h hranks
    obtain rfl := List.mem_singleton.mp hf
    exact ⟨[], join ',' cut.1 ++ ['@'], cut.2, hcode, rfl, rfl, .selectors hws, rfl⟩

/-- The place of the amount, if the ranks are usable and no other `@` follows. -/
theorem exists_placed {code : Text} {fs : List Finding} (hfind : findSelectors code = .ok fs)
    (hat : '@' ∉ amountPlace code) :
    ∃ a, code = a ++ amountPlace code ∧ Placed a (amountPlace code) := by
  have hblank : ∀ t : Text, ∀ c ∈ t.takeWhile isBlank, isBlank c = true :=
    fun t c hc => List.mem_takeWhile_imp hc
  unfold amountPlace at hat ⊢
  cases hranks : rankList? code with
  | none =>
    rw [hranks] at hat
    exact ⟨code.takeWhile isBlank, List.takeWhile_append_dropWhile.symm, hat, Or.inl (hblank code)⟩
  | some cut =>
    obtain ⟨first, others, hws, hcode, -⟩ := exists_of_rankList? hfind hranks
    rw [hranks] at hat
    refine ⟨join ',' cut.1 ++ ['@'] ++ cut.2.takeWhile isBlank, ?_, hat,
      Or.inr ⟨_, _, _, rfl, .selectors hws, hblank cut.2⟩⟩
    rw [List.append_assoc _ (cut.2.takeWhile isBlank)]
    exact hcode.trans (congrArg _ List.takeWhile_append_dropWhile.symm)

theorem amountStart_eq {code a : Text} (h : code = a ++ amountPlace code) :
    amountStart code = a.length := by
  have hlength := congrArg List.length h
  rw [List.length_append] at hlength
  unfold amountStart
  omega

theorem exists_of_signedDigits {t : Text} (h : signedDigits t ≠ []) :
    ∃ b, t = signedDigits t ++ b ∧ Stops b ∧
      ∀ c ∈ signedDigits t, c = '-' ∨ isDecimalDigit c = true := by
  have hdigits : ∀ u : Text, ∀ c ∈ digits u, isDecimalDigit c = true :=
    fun u c hc => List.mem_takeWhile_imp hc
  unfold signedDigits at h ⊢
  split at h
  · next u =>
    split at h
    · exact absurd rfl h
    · next hne =>
      refine ⟨afterDigits u, ?_, stops_afterDigits u, fun c hc => ?_⟩
      · rw [if_neg hne, List.cons_append, digits_append_afterDigits]
      · rw [if_neg hne] at hc
        exact (List.mem_cons.mp hc).imp_right (hdigits u c)
  · exact ⟨afterDigits t, (digits_append_afterDigits t).symm, stops_afterDigits t,
      fun c hc => Or.inr (hdigits t c hc)⟩

theorem sits_amount {code : Text} {fs fs' : List Finding}
    (hselectors : findSelectors code = .ok fs')
    (h : findAmount code = .ok fs) {f : Finding} (hf : f ∈ fs) : Sits .amount code f := by
  unfold findAmount at h
  dsimp only at h
  split at h
  · obtain rfl := Except.ok.inj h
    exact nomatch hf
  · next hfound =>
    rw [Bool.or_eq_true, not_or, List.isEmpty_iff] at hfound
    obtain ⟨n, hn, h⟩ := exists_of_bind_eq_ok h
    obtain rfl := Except.ok.inj h
    obtain rfl := List.mem_singleton.mp hf
    obtain ⟨a, hcode, hplaced⟩ := exists_placed hselectors fun hat =>
      hfound.2 (List.contains_iff_mem.mpr hat)
    obtain ⟨b, hplace, hstops, hchars⟩ := exists_of_signedDigits hfound.1
    refine ⟨a, signedDigits (amountPlace code), b, ?_, amountStart_eq hcode, rfl,
      .count (spells_of_digits hn hchars), ?_, hstops⟩
    · rw [← hplace]
      exact hcode
    · rw [← hplace]
      exact hplaced

/-- A literal is brackets or dashes. -/
theorem literalText_cases {t : Text} (hne : literalText t ≠ []) :
    (∃ inner b, ']' ∉ inner ∧ t = '[' :: inner ++ [']'] ++ b ∧
      literalText t = '[' :: inner ++ [']']) ∨
    ∃ n b, t = List.replicate (n + 1) '-' ++ b ∧ literalText t = List.replicate (n + 1) '-' := by
  unfold literalText at hne ⊢
  split at hne
  · next rest =>
    split at hne
    · next inner after hcut =>
      obtain ⟨c, rfl, hc, hinner⟩ := exists_of_cutFirst hcut
      obtain rfl : c = ']' := beq_iff_eq.mp hc
      refine Or.inl ⟨inner, after, fun hmem => absurd (hinner _ hmem) (by simp), ?_, rfl⟩
      rw [List.append_assoc]
      rfl
    · exact absurd rfl hne
  · have hdashes : t.takeWhile (· == '-') =
        List.replicate (t.takeWhile (· == '-')).length '-' :=
      List.eq_replicate_of_mem fun c hc =>
        beq_iff_eq.mp (List.mem_takeWhile_imp (p := (· == '-')) hc)
    obtain ⟨n, hn⟩ := Nat.exists_eq_succ_of_ne_zero (n := (t.takeWhile (· == '-')).length)
      fun hlength => hne (List.eq_nil_of_length_eq_zero hlength)
    rw [hn] at hdashes
    refine Or.inr ⟨n, t.dropWhile (· == '-'), ?_, hdashes⟩
    rw [← hdashes]
    exact List.takeWhile_append_dropWhile.symm

/-- A literal that is read is a part. -/
theorem exists_of_literalText {t : Text} {am : Amount} (hne : literalText t ≠ [])
    (h : literalAmount (literalText t) = .ok am) :
    ∃ b, t = literalText t ++ b ∧ Writes .literal (literalText t) [.amount am] := by
  rcases literalText_cases hne with ⟨inner, b, hinner, ht, hx⟩ | ⟨n, b, ht, hx⟩
  · rw [hx] at h ⊢
    refine ⟨b, ht, ?_⟩
    have hfaces : (do
        let faces := (pieces (· == ',') (inner ++ [']']).dropLast).filter
          fun face => !isAllBlank face
        return Amount.faces (← faces.mapM usable)) = .ok am := h
    rw [List.dropLast_concat] at hfaces
    obtain ⟨ns, hns, hfaces⟩ := exists_of_bind_eq_ok hfaces
    obtain rfl := Except.ok.inj hfaces
    exact .faces hinner hns
  · rw [hx] at h ⊢
    obtain rfl : Amount.back (List.replicate (n + 1) '-').length = am := Except.ok.inj h
    rw [List.length_replicate]
    exact ⟨b, ht, .back n⟩

theorem exists_of_findLiteral {code : Text} {fs : List Finding} (h : findLiteral code = .ok fs)
    {f : Finding} (hf : f ∈ fs) :
    ∃ x b, amountPlace code = x ++ b ∧ f.start = amountStart code ∧ f.length = x.length ∧
      Writes .literal x f.settings ∧ endsLiteral b = true := by
  unfold findLiteral at h
  dsimp only at h
  split at h
  · obtain rfl := Except.ok.inj h
    exact nomatch hf
  · next hfound =>
    rw [Bool.or_eq_true, not_or, List.isEmpty_iff, Bool.not_eq_true, Bool.not_eq_false'] at hfound
    obtain ⟨am, ham, h⟩ := exists_of_bind_eq_ok h
    obtain rfl := Except.ok.inj h
    obtain rfl := List.mem_singleton.mp hf
    obtain ⟨b, hplace, hwrites⟩ := exists_of_literalText hfound.1 ham
    refine ⟨_, b, hplace, rfl, rfl, hwrites, ?_⟩
    have hdrop := congrArg (List.drop (literalText (amountPlace code)).length) hplace
    rw [List.drop_left] at hdrop
    rw [← hdrop]
    exact hfound.2

theorem sits_literal {code : Text} {fs fs' : List Finding}
    (hselectors : findSelectors code = .ok fs')
    (hat : '@' ∉ amountPlace code) (h : findLiteral code = .ok fs) {f : Finding} (hf : f ∈ fs) :
    Sits .literal code f := by
  obtain ⟨x, b, hplace, hstart, hlength, hwrites, hends⟩ := exists_of_findLiteral h hf
  obtain ⟨a, hcode, hplaced⟩ := exists_placed hselectors hat
  rw [amountStart_eq hcode] at hstart
  rw [hplace] at hcode hplaced
  exact ⟨a, x, b, hcode, hstart, hlength, hwrites, hplaced, hends⟩

/-- What comes after the amount is found without regard to the rest. -/
theorem sits_of_isLate {r : Rule} (hr : r.isLate = true) {code : Text} {fs : List Finding}
    (h : r.find code = .ok fs) {f : Finding} (hf : f ∈ fs) : Sits r code f := by
  cases r with
  | sides => exact sits_sides h hf
  | rerolls => exact sits_rerolls h hf
  | sort => exact sits_sort h hf
  | suffix => exact sits_suffix h hf
  | threshold => exact sits_threshold h hf
  | explosion => exact sits_explosion h hf
  | _ => exact nomatch hr

/-- **Whatever a rule finds is one of its parts where it fits.** -/
theorem sits_of_find {r : Rule} {code : Text} {fs fs' : List Finding}
    (hselectors : findSelectors code = .ok fs') (hat : '@' ∉ amountPlace code)
    (h : r.find code = .ok fs) {f : Finding} (hf : f ∈ fs) : Sits r code f := by
  rcases r.cases_of_place with rfl | hr | hr
  · exact sits_selectors h hf
  · exact sits_of_isLate hr h hf
  · cases r with
    | amount => exact sits_amount hselectors h hf
    | literal => exact sits_literal hselectors hat h hf
    | _ => exact nomatch hr

end DiceCode

end DiceNotation
