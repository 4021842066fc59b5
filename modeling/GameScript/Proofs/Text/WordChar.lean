import GameScript.Text.WordChar

/-!
# What is no word character

White space is not: the two classes lie in ranges apart.
-/

namespace GameScript.Text

variable {c : Char} {rs qs : List (Nat × Nat)}

theorem inRanges_false_of_apart (h : ∀ r ∈ rs, ∀ q ∈ qs, r.2 < q.1 ∨ q.2 < r.1)
    (hc : inRanges rs c = true) : inRanges qs c = false := by
  obtain ⟨r, hr, hin⟩ := List.any_eq_true.1 hc
  refine Bool.eq_false_iff.2 fun hq => ?_
  obtain ⟨q, hq, hin'⟩ := List.any_eq_true.1 hq
  simp only [Bool.and_eq_true, decide_eq_true_eq] at hin hin'
  have := h r hr q hq
  omega

theorem not_blank_of_isWordChar (h : isWordChar c = true) : isBlankChar c = false := by
  by_cases hascii : c.toNat < 128
  · have hall : ∀ n < 128, isWordChar (Char.ofNat n) = true →
        isBlankChar (Char.ofNat n) = false := by
      decide
    have hc := hall c.toNat hascii
    rw [Char.ofNat_toNat] at hc
    exact hc h
  · rw [isWordChar, if_neg hascii] at h
    exact inRanges_false_of_apart (by decide +kernel) h

theorem not_control_of_isWordChar (h : isWordChar c = true) : isControl c = false := by
  by_cases hascii : c.toNat < 128
  · have hall : ∀ n < 128, isWordChar (Char.ofNat n) = true → isControl (Char.ofNat n) = false := by
      decide
    have hc := hall c.toNat hascii
    rw [Char.ofNat_toNat] at hc
    exact hc h
  · rw [isWordChar, if_neg hascii] at h
    obtain ⟨r, hr, hin⟩ := List.any_eq_true.1 h
    have hall : ∀ r ∈ wordRanges, 0xA0 ≤ r.1 := by decide +kernel
    have hfirst := hall r hr
    simp only [Bool.and_eq_true, decide_eq_true_eq] at hin
    simp only [isControl, Bool.or_eq_false_iff, Bool.and_eq_false_iff, decide_eq_false_iff_not]
    omega

end GameScript.Text
