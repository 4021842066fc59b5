import GameScript.Proofs.Text.Case

/-!
# Spellings of a text

Texts that are the same but for the case of `A` to `Z` have the same small form
(`lower_eq_of_same`), and other texts may have it as well. A text in ASCII shares its small form
with no others (`hasOneSpelling_of_ascii`), unless it has the letter k, which is the small form of
the sign of the kelvin too. A part of a text has the same small form by itself unless there is a
sigma in it (`lowerAfter_of_no_sigma`).
-/

namespace GameScript.Text

/-! ## The case of `A` to `Z` -/

theorem toLower_of_not_ascii {c : Char} (h : 128 ≤ c.toNat) : c.toLower = c := by
  refine dif_neg ?_
  rintro ⟨-, hhigh⟩
  have hhigh : c.toNat ≤ 90 := UInt32.le_iff_toNat_le.1 hhigh
  omega

theorem toNat_toLower_lt {c : Char} (h : c.toNat < 128) : c.toLower.toNat < 128 := by
  have hall : ∀ n : Fin 128, (Char.ofNat n).toLower.toNat < 128 := by decide +kernel
  have hc := hall ⟨c.toNat, h⟩
  rwa [Char.ofNat_toNat] at hc

theorem IsSmall.toLower_eq {c : Char} (h : IsSmall c) : c.toLower = c := by
  by_cases hascii : c.toNat < 128
  · have hsmall := h.lowerChar_eq
    rw [lowerChar_ascii hascii] at hsmall
    exact List.singleton_inj.1 hsmall
  · exact toLower_of_not_ascii (Nat.not_lt.1 hascii)

theorem toLower_cases (c : Char) :
    c.toLower = c ∨ 65 ≤ c.toNat ∧ c.toNat ≤ 90 ∧ c.toLower.toNat = c.toNat + 32 := by
  by_cases hascii : c.toNat < 128
  · have hall : ∀ n : Fin 128, (Char.ofNat n).toLower = Char.ofNat n ∨
        65 ≤ (Char.ofNat n).toNat ∧ (Char.ofNat n).toNat ≤ 90 ∧
          (Char.ofNat n).toLower.toNat = (Char.ofNat n).toNat + 32 := by
      decide +kernel
    have hc := hall ⟨c.toNat, hascii⟩
    rwa [Char.ofNat_toNat] at hc
  · exact .inl (toLower_of_not_ascii (Nat.not_lt.1 hascii))

theorem lowerChar_toLower (c : Char) : lowerChar c.toLower = lowerChar c := by
  rcases toLower_cases c with h | ⟨-, hlast, -⟩
  · rw [h]
  · have hascii : c.toNat < 128 := by omega
    rw [(isSmall_toLower hascii).lowerChar_eq, lowerChar_ascii hascii]

theorem toLower_eq_sigma {c : Char} : c.toLower = 'Σ' ↔ c = 'Σ' := by
  rcases toLower_cases c with h | ⟨-, hlast, hsmall⟩
  · rw [h]
  · have hsigma : 'Σ'.toNat = 931 := by decide
    refine iff_of_false (fun heq => ?_) (fun heq => ?_)
    · rw [heq] at hsmall
      omega
    · rw [heq] at hlast
      omega

theorem inRanges_toLower (c : Char) :
    inRanges caseIgnorableRanges c.toLower = inRanges caseIgnorableRanges c ∧
      inRanges casedRanges c.toLower = inRanges casedRanges c := by
  rcases toLower_cases c with h | ⟨hfirst, hlast, hsmall⟩
  · rw [h]
    exact ⟨rfl, rfl⟩
  have hmissed : ∀ r ∈ caseIgnorableRanges, r.2 < 65 ∨ 122 < r.1 ∨ 90 < r.1 ∧ r.2 < 97 := by
    decide +kernel
  have hignored (d : Char) (hd : 65 ≤ d.toNat ∧ d.toNat ≤ 90 ∨ 97 ≤ d.toNat ∧ d.toNat ≤ 122) :
      inRanges caseIgnorableRanges d = false := by
    refine Bool.eq_false_iff.2 fun hin => ?_
    obtain ⟨r, hr, hin⟩ := List.any_eq_true.1 hin
    simp only [Bool.and_eq_true, decide_eq_true_eq] at hin
    have := hmissed r hr
    omega
  have hcased (d : Char) (r : Nat × Nat) (hr : r ∈ casedRanges)
      (hd : r.1 ≤ d.toNat ∧ d.toNat ≤ r.2) : inRanges casedRanges d = true :=
    List.any_eq_true.2 ⟨r, hr, by simpa using hd⟩
  rw [hignored c (by omega), hignored c.toLower (by omega),
    hcased c (0x41, 0x5A) (by simp [casedRanges]) (by simp only; omega),
    hcased c.toLower (0x61, 0x7A) (by simp [casedRanges]) (by simp only; omega)]
  exact ⟨rfl, rfl⟩

theorem meetsCased_asciiLower (t : Text) : meetsCased (asciiLower t) = meetsCased t := by
  have hcounts : inRanges caseIgnorableRanges ∘ Char.toLower = inRanges caseIgnorableRanges :=
    funext fun c => (inRanges_toLower c).1
  rw [meetsCased, meetsCased, asciiLower, List.dropWhile_map, hcounts]
  cases t.dropWhile (inRanges caseIgnorableRanges) with
  | nil => rfl
  | cons c cs => exact (inRanges_toLower c).2

theorem lowerAfter_asciiLower (before t : Text) :
    lowerAfter (asciiLower before) (asciiLower t) = lowerAfter before t := by
  induction t generalizing before with
  | nil => rfl
  | cons c t ih =>
    have hsmall : smallForm (asciiLower before) c.toLower (asciiLower t) =
        smallForm before c t := by
      simp only [smallForm, meetsCased_asciiLower, lowerChar_toLower, toLower_eq_sigma]
    have hrest : lowerAfter (c.toLower :: asciiLower before) (asciiLower t) =
        lowerAfter (c :: before) t := ih (c :: before)
    rw [lowerAfter_cons, ← hsmall, ← hrest]
    rfl

/-- Lowercasing takes the case of `A` to `Z` away among others. -/
theorem lower_asciiLower (t : Text) : lower (asciiLower t) = lower t := lowerAfter_asciiLower [] t

theorem asciiLower_lower (t : Text) : asciiLower (lower t) = lower t := by
  rw [asciiLower]
  exact (List.map_congr_left fun c hc => (isSmall_of_mem_lowerAfter c hc).toLower_eq).trans
    (List.map_id _)

theorem mem_of_mem_asciiLower {x : Char} {t : Text} (hx : 128 ≤ x.toNat) (h : x ∈ asciiLower t) :
    x ∈ t := by
  obtain ⟨c, hc, rfl⟩ := List.mem_map.1 h
  rcases toLower_cases c with heq | ⟨-, hlast, hsmall⟩
  · rwa [heq]
  · omega

theorem same_iff {t u : Text} : same t u = true ↔ asciiLower t = asciiLower u := beq_iff_eq

theorem lower_eq_of_same {t u : Text} (h : same t u = true) : lower t = lower u := by
  rw [← lower_asciiLower t, same_iff.1 h, lower_asciiLower]

/-- A text that only texts that are the same but for the case of `A` to `Z` share their small form
with. -/
def HasOneSpelling (t : Text) : Prop := ∀ u, lower u = lower t → same u t = true

theorem lower_of_ascii {t : Text} (h : ∀ c ∈ t, c.toNat < 128) : lower t = asciiLower t := by
  have hafter (before : Text) : lowerAfter before t = asciiLower t := by
    induction t generalizing before with
    | nil => rfl
    | cons c t ih =>
      rw [List.forall_mem_cons] at h
      have hsigma : c ≠ 'Σ' := by rintro rfl; exact absurd h.1 (by decide)
      rw [lowerAfter_cons, ih h.2, smallForm, if_neg hsigma, lowerChar_ascii h.1]
      rfl
  exact hafter []

theorem exists_smallForm_subset {t : Text} {d : Char} (h : d ∈ t) (before : Text) :
    ∃ before' cs, smallForm before' d cs ⊆ lowerAfter before t := by
  induction t generalizing before with
  | nil => cases h
  | cons c t ih =>
    rw [lowerAfter_cons]
    rcases List.mem_cons.1 h with rfl | h
    · exact ⟨before, t, List.subset_append_left _ _⟩
    · obtain ⟨before', cs, hsub⟩ := ih h (c :: before)
      exact ⟨before', cs, fun x hx => List.mem_append_right _ (hsub hx)⟩

/-- Of the characters outside ASCII the sign of the kelvin alone has a small form in ASCII. -/
theorem exists_mem_smallForm_of_not_ascii {d : Char} (hd : 128 ≤ d.toNat) (before cs : Text) :
    ∃ x ∈ smallForm before d cs, 128 ≤ x.toNat ∨ x = 'k' := by
  have hruns : (caseRuns.all fun r => Nat.ble 128 r.small || Nat.beq r.small 'k'.toNat &&
      Nat.beq r.first r.last) = true := by
    decide +kernel
  rw [smallForm]
  split
  · refine ⟨_, List.mem_singleton_self _, .inl ?_⟩
    split <;> decide
  rw [lowerChar, if_neg (Nat.not_lt.2 hd)]
  split
  · exact ⟨'\u0307', by simp, .inl (by decide)⟩
  split
  · next r hr =>
    have hcovers : r.covers d.toNat = true := by simpa using List.find?_some hr
    have hmem := List.mem_of_find?_eq_some hr
    have hsmall := CaseRun.toNat_smallOf hmem hcovers
    refine ⟨_, List.mem_singleton_self _, ?_⟩
    have hr := List.all_eq_true.1 hruns r hmem
    simp only [Bool.or_eq_true, Bool.and_eq_true, Nat.ble_eq, Nat.beq_eq] at hr
    rcases hr with hhigh | ⟨hk, hsingle⟩
    · refine .inl ?_
      change 128 ≤ (Char.ofNat (r.smallOf d.toNat)).toNat
      rw [hsmall, CaseRun.smallOf]
      omega
    · obtain ⟨hfirst, hlast, -⟩ := CaseRun.covers_iff.1 hcovers
      have hnat : r.small + (d.toNat - r.first) = 'k'.toNat := by omega
      rw [hnat]
      exact .inr rfl
  · exact ⟨d, List.mem_singleton_self d, .inl hd⟩

/-- A text in ASCII has one spelling, unless it has the letter that the kelvin is written with. -/
theorem hasOneSpelling_of_ascii {t : Text} (h : ∀ c ∈ t, c.toNat < 128 ∧ c.toLower ≠ 'k') :
    HasOneSpelling t := by
  intro u hu
  have ht := lower_of_ascii fun c hc => (h c hc).1
  rw [ht] at hu
  have hascii : ∀ d ∈ u, d.toNat < 128 := by
    intro d hd
    refine Nat.not_le.1 fun hhigh => ?_
    obtain ⟨before, cs, hsub⟩ := exists_smallForm_subset hd []
    obtain ⟨x, hx, hhard⟩ := exists_mem_smallForm_of_not_ascii hhigh before cs
    have hxt : x ∈ asciiLower t := hu ▸ hsub hx
    obtain ⟨c, hc, rfl⟩ := List.mem_map.1 hxt
    obtain ⟨hclow, hck⟩ := h c hc
    rcases hhard with hhard | hk
    · exact absurd (toNat_toLower_lt hclow) (Nat.not_lt.2 hhard)
    · exact hck hk
  rw [same_iff, ← lower_of_ascii hascii, hu]

/-! ## Behind other texts -/

/-- What is in front of a text decides where its small form begins, and which sigma is final. -/
theorem exists_lowerAfter_append (before t u : Text) : ∃ front,
    lowerAfter before (t ++ u) = front ++ lowerAfter (t.reverse ++ before) u ∧
      (front = [] ↔ t = []) := by
  induction t generalizing before with
  | nil => exact ⟨[], rfl, Iff.rfl⟩
  | cons c t ih =>
    obtain ⟨front, hfront, -⟩ := ih (c :: before)
    refine ⟨smallForm before c (t ++ u) ++ front, ?_, ?_⟩
    · rw [List.cons_append, lowerAfter_cons, hfront, List.append_assoc, List.reverse_cons,
        List.append_assoc, List.singleton_append]
    · simp

theorem lowerAfter_of_no_sigma {t : Text} (h : 'Σ' ∉ t) (before before' : Text) :
    lowerAfter before t = lowerAfter before' t := by
  induction t generalizing before before' with
  | nil => rfl
  | cons c t ih =>
    rw [List.mem_cons, not_or] at h
    rw [lowerAfter_cons, lowerAfter_cons, ih h.2 (c :: before) (c :: before'), smallForm, smallForm,
      if_neg (Ne.symm h.1), if_neg (Ne.symm h.1)]

theorem sigma_not_mem {before t : Text} (h : 'σ' ∉ lowerAfter before t)
    (hfinal : 'ς' ∉ lowerAfter before t) : 'Σ' ∉ t := by
  intro hmem
  obtain ⟨before', cs, hsub⟩ := exists_smallForm_subset hmem before
  rw [smallForm, if_pos rfl] at hsub
  have hsmall := hsub (List.mem_singleton_self _)
  split at hsmall
  · exact hfinal hsmall
  · exact h hsmall

/-- Texts that have the same small form in some places, without a sigma, have it in all. -/
theorem lowerAfter_congr {before x y t u : Text} (h : lowerAfter x t = lowerAfter y u)
    (hsigma : 'σ' ∉ lowerAfter before t) (hfinal : 'ς' ∉ lowerAfter before t) :
    lowerAfter before u = lowerAfter before t := by
  have ht : 'Σ' ∉ t := sigma_not_mem hsigma hfinal
  rw [lowerAfter_of_no_sigma ht x before] at h
  rw [h] at hsigma hfinal
  have hu : 'Σ' ∉ u := sigma_not_mem hsigma hfinal
  rw [h, lowerAfter_of_no_sigma hu before y]

end GameScript.Text
