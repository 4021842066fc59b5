import GameScript.Text.Case

/-!
# What lowercasing gives

A text of small letters is left alone by `lower`, and `lower` gives nothing else, so that
lowercasing twice is lowercasing once (`lower_lower`). A character without case that is not the
small form of another one, such as a separator of paths, stands in the result just where it stood
in the text: inside (`Caseless.mem_lower`), in front (`Caseless.head?_lower`) and at the end
(`Caseless.getLast?_lower`). One that also keeps letters apart, as that separator does, divides a
text into parts that are lowercased one by one (`Divides.lower_append`).
-/

namespace GameScript.Text

/-! ## The table of small letters -/

namespace CaseRun

/-- The small letter of a capital one. -/
def smallOf (r : CaseRun) (n : Nat) : Nat := r.small + (n - r.first)

/-- Whether no small letter of `r` is covered by `s`. Small letters may lie between the letters of
a run of every second one. -/
def misses (r s : CaseRun) : Bool :=
  Nat.blt (r.small + (r.last - r.first)) s.first || Nat.blt s.last r.small ||
    (Nat.beq s.step 2 && (Nat.beq r.step 2 || Nat.beq r.first r.last) &&
      Nat.beq ((r.small + s.first) % 2) 1)

/-- Whether the small letters are characters, and those in ASCII are letters there. -/
def hasLetters (r : CaseRun) : Bool :=
  (Nat.blt (r.small + (r.last - r.first)) 0xD800 || Nat.blt 0xDFFF r.small) &&
    Nat.blt (r.small + (r.last - r.first)) 0x110000 &&
    (Nat.blt 0x130 r.small ||
      Nat.blt 0x7F r.small && Nat.blt (r.small + (r.last - r.first)) 0x130 ||
      Nat.beq r.first r.last && Nat.blt 0x60 r.small && Nat.blt r.small 0x7B)

variable {r s : CaseRun} {n : Nat}

theorem misses_of_mem (hr : r ∈ caseRuns) (hs : s ∈ caseRuns) : r.misses s = true := by
  have hall : (caseRuns.all fun r => caseRuns.all r.misses) = true := by decide +kernel
  exact List.all_eq_true.1 (List.all_eq_true.1 hall r hr) s hs

theorem hasLetters_of_mem (hr : r ∈ caseRuns) : r.hasLetters = true := by
  have hall : caseRuns.all hasLetters = true := by decide +kernel
  exact List.all_eq_true.1 hall r hr

theorem covers_iff : r.covers n = true ↔ r.first ≤ n ∧ n ≤ r.last ∧ (n - r.first) % r.step = 0 := by
  simp [covers, and_assoc]

theorem not_covers_smallOf (hr : r ∈ caseRuns) (hs : s ∈ caseRuns) (hn : r.covers n = true) :
    s.covers (r.smallOf n) = false := by
  have hmiss := misses_of_mem hr hs
  obtain ⟨hfirst, hlast, hstep⟩ := covers_iff.1 hn
  rw [Bool.eq_false_iff, Ne, covers_iff, smallOf]
  rintro ⟨hsfirst, hslast, hsstep⟩
  simp only [misses, Bool.or_eq_true, Bool.and_eq_true, Nat.blt_eq, Nat.beq_eq] at hmiss
  rcases hmiss with (h | h) | ⟨⟨h2, hrstep | hsingle⟩, hparity⟩
  · omega
  · omega
  · rw [h2] at hsstep
    rw [hrstep] at hstep
    omega
  · rw [h2] at hsstep
    omega

theorem smallOf_letter (hr : r ∈ caseRuns) (hn : r.covers n = true) :
    (r.smallOf n).isValidChar ∧ (0x130 < r.smallOf n ∨
      0x7F < r.smallOf n ∧ r.smallOf n < 0x130 ∨ 0x60 < r.smallOf n ∧ r.smallOf n < 0x7B) := by
  have hletters := hasLetters_of_mem hr
  obtain ⟨hfirst, hlast, -⟩ := covers_iff.1 hn
  simp only [hasLetters, Bool.or_eq_true, Bool.and_eq_true, Nat.blt_eq, Nat.beq_eq] at hletters
  rw [Nat.isValidChar, smallOf]
  omega

end CaseRun

/-! ## Small letters -/

/-- A character that lowercasing leaves alone, wherever it stands. -/
structure IsSmall (c : Char) : Prop where
  lowerChar_eq : lowerChar c = [c]
  ne_sigma : c ≠ 'Σ'

theorem lowerChar_ascii {c : Char} (h : c.toNat < 128) : lowerChar c = [c.toLower] := if_pos h

/-- A character outside ASCII that no run covers is left alone. -/
theorem isSmall_of_not_covered {c : Char} (h : 128 ≤ c.toNat) (hdotted : c ≠ '\u0130')
    (hnone : ∀ r ∈ caseRuns, r.covers c.toNat = false) : IsSmall c where
  lowerChar_eq := by
    have hfind : caseRuns.find? (·.covers c.toNat) = none :=
      List.find?_eq_none.2 fun r hr => by simp [hnone r hr]
    rw [lowerChar, if_neg (Nat.not_lt.2 h), if_neg hdotted, hfind]
  ne_sigma := by
    rintro rfl
    have hsigma : (caseRuns.any (·.covers 'Σ'.toNat)) = true := by decide +kernel
    obtain ⟨r, hr, hcovers⟩ := List.any_eq_true.1 hsigma
    rw [hnone r hr] at hcovers
    cases hcovers

theorem isSmall_toLower {c : Char} (h : c.toNat < 128) : IsSmall c.toLower := by
  have hall : ∀ n : Fin 128, lowerChar (Char.ofNat n).toLower = [(Char.ofNat n).toLower] ∧
      (Char.ofNat n).toLower ≠ 'Σ' := by decide +kernel
  have hc := hall ⟨c.toNat, h⟩
  rw [Char.ofNat_toNat] at hc
  exact ⟨hc.1, hc.2⟩

theorem CaseRun.toNat_smallOf {r : CaseRun} {n : Nat} (hr : r ∈ caseRuns)
    (hn : r.covers n = true) : (Char.ofNat (r.smallOf n)).toNat = r.smallOf n := by
  rw [Char.ofNat, dif_pos (smallOf_letter hr hn).1]
  rfl

theorem isSmall_smallOf {r : CaseRun} {n : Nat} (hr : r ∈ caseRuns) (hn : r.covers n = true) :
    IsSmall (Char.ofNat (r.smallOf n)) := by
  have hrange := (CaseRun.smallOf_letter hr hn).2
  have hnat := CaseRun.toNat_smallOf hr hn
  by_cases hascii : 128 ≤ r.smallOf n
  · refine isSmall_of_not_covered (by rwa [hnat]) (fun hdotted => ?_) fun s hs => ?_
    · have hdotted : r.smallOf n = 0x130 := by rw [← hnat, hdotted]; rfl
      omega
    · rw [hnat]
      exact CaseRun.not_covers_smallOf hr hs hn
  · have hlow : (Char.ofNat (r.smallOf n)).toLower = Char.ofNat (r.smallOf n) := by
      refine dif_neg ?_
      rintro ⟨-, hhigh⟩
      have hhigh : (Char.ofNat (r.smallOf n)).toNat ≤ 90 := UInt32.le_iff_toNat_le.1 hhigh
      omega
    rw [← hlow]
    exact isSmall_toLower (by omega)

/-- Lowercasing gives small letters. -/
theorem isSmall_of_mem_lowerChar {c x : Char} (hc : c ≠ 'Σ') (h : x ∈ lowerChar c) : IsSmall x := by
  by_cases hascii : c.toNat < 128
  · rw [lowerChar_ascii hascii, List.mem_singleton] at h
    exact h ▸ isSmall_toLower hascii
  rw [lowerChar, if_neg hascii] at h
  split at h
  · have hdots : x = 'i' ∨ x = '\u0307' := by simpa using h
    rcases hdots with rfl | rfl
    · exact ⟨by decide +kernel, by decide⟩
    · exact ⟨by decide +kernel, by decide⟩
  · next hdotted =>
    split at h
    · next r hr =>
      rw [List.mem_singleton] at h
      have hcovers : r.covers c.toNat = true := by simpa using List.find?_some hr
      exact h ▸ isSmall_smallOf (List.mem_of_find?_eq_some hr) hcovers
    · next hnone =>
      rw [List.mem_singleton] at h
      subst h
      refine isSmall_of_not_covered (Nat.not_lt.1 hascii) hdotted fun r hr => ?_
      simpa using List.find?_eq_none.1 hnone r hr

/-- The small form of a character that stands between `before` and `cs`. -/
def smallForm (before : Text) (c : Char) (cs : Text) : Text :=
  if c = 'Σ' then [if meetsCased before && !meetsCased cs then 'ς' else 'σ'] else lowerChar c

theorem lowerAfter_cons {before cs : Text} {c : Char} :
    lowerAfter before (c :: cs) = smallForm before c cs ++ lowerAfter (c :: before) cs := rfl

@[simp] theorem smallForm_ne_nil {before cs : Text} {c : Char} : smallForm before c cs ≠ [] := by
  rw [smallForm]
  split
  · exact List.cons_ne_nil _ _
  · exact lowerChar_ne_nil c

theorem isSmall_of_mem_smallForm {before cs : Text} {c x : Char} (h : x ∈ smallForm before c cs) :
    IsSmall x := by
  rw [smallForm] at h
  split at h
  · rw [List.mem_singleton] at h
    subst h
    split
    · exact ⟨by decide +kernel, by decide⟩
    · exact ⟨by decide +kernel, by decide⟩
  · next hc => exact isSmall_of_mem_lowerChar hc h

theorem lowerAfter_eq {before t : Text} (h : ∀ c ∈ t, IsSmall c) : lowerAfter before t = t := by
  induction t generalizing before with
  | nil => rfl
  | cons c t ih =>
    obtain ⟨hc, ht⟩ := List.forall_mem_cons.1 h
    rw [lowerAfter_cons, smallForm, if_neg hc.ne_sigma, hc.lowerChar_eq, ih ht]
    rfl

theorem isSmall_of_mem_lowerAfter {before t : Text} : ∀ c ∈ lowerAfter before t, IsSmall c := by
  induction t generalizing before with
  | nil => rintro c ⟨⟩
  | cons c t ih =>
    rw [lowerAfter_cons]
    exact List.forall_mem_append.2 ⟨fun x hx => isSmall_of_mem_smallForm hx, ih⟩

@[simp] theorem lower_lower (t : Text) : lower (lower t) = lower t :=
  lowerAfter_eq isSmall_of_mem_lowerAfter

/-! ## Characters without case -/

/-- A character that is the small form of itself alone. -/
structure Caseless (c : Char) : Prop where
  isSmall : IsSmall c
  eq_of_mem : ∀ {before d cs}, c ∈ smallForm before d cs → d = c

/-- The small form of a letter of ASCII is a letter, and nothing else there is changed. -/
theorem toLower_ascii {c : Char} (h : c.toNat < 128) :
    (c.isUpper = true → c.toLower.isLower = true) ∧ (c.isUpper = false → c.toLower = c) := by
  have hall : ∀ n : Fin 128, ((Char.ofNat n).isUpper = true →
      (Char.ofNat n).toLower.isLower = true) ∧
      ((Char.ofNat n).isUpper = false → (Char.ofNat n).toLower = Char.ofNat n) := by
    decide +kernel
  have hc := hall ⟨c.toNat, h⟩
  rwa [Char.ofNat_toNat] at hc

/-- The small form of a character outside ASCII is a letter, unless the character has none. -/
theorem mem_lowerChar_of_not_ascii {c d : Char} (hd : 128 ≤ d.toNat) (h : c ∈ lowerChar d) :
    d = c ∨ 128 ≤ c.toNat ∨ c.isLower = true := by
  rw [lowerChar, if_neg (Nat.not_lt.2 hd)] at h
  split at h
  · have hdots : c = 'i' ∨ c = '\u0307' := by simpa using h
    rcases hdots with rfl | rfl
    · exact .inr (.inr rfl)
    · exact .inr (.inl (by decide))
  split at h
  · next r hr =>
    rw [List.mem_singleton] at h
    have hcovers : r.covers d.toNat = true := by simpa using List.find?_some hr
    have hmem := List.mem_of_find?_eq_some hr
    have hnat : c.toNat = r.smallOf d.toNat := h ▸ CaseRun.toNat_smallOf hmem hcovers
    rcases (CaseRun.smallOf_letter hmem hcovers).2 with hhigh | hhigh | hletter
    · exact .inr (.inl (by omega))
    · exact .inr (.inl (by omega))
    · refine .inr (.inr ?_)
      have hlow : 97 ≤ c.toNat ∧ c.toNat ≤ 122 := by omega
      exact Bool.and_eq_true_iff.2 ⟨decide_eq_true (UInt32.le_iff_toNat_le.2 hlow.1),
        decide_eq_true (UInt32.le_iff_toNat_le.2 hlow.2)⟩
  · exact .inl (List.mem_singleton.1 h).symm

theorem caseless_of_ascii {c : Char} (hascii : c.toNat < 128) (hupper : c.isUpper = false)
    (hlower : c.isLower = false) : Caseless c where
  isSmall := (toLower_ascii hascii).2 hupper ▸ isSmall_toLower hascii
  eq_of_mem := by
    intro before d cs h
    rw [smallForm] at h
    split at h
    · rw [List.mem_singleton] at h
      split at h <;> subst h <;> exact absurd hascii (by decide)
    by_cases hd : d.toNat < 128
    · rw [lowerChar_ascii hd, List.mem_singleton] at h
      cases hdu : d.isUpper with
      | true =>
        rw [h, (toLower_ascii hd).1 hdu] at hlower
        cases hlower
      | false => rw [h, (toLower_ascii hd).2 hdu]
    · rcases mem_lowerChar_of_not_ascii (Nat.not_lt.1 hd) h with rfl | hhigh | hletter
      · rfl
      · omega
      · rw [hletter] at hlower
        cases hlower

namespace Caseless

variable {c d : Char} {before cs t : Text}

theorem smallForm_eq (hc : Caseless c) : smallForm before c cs = [c] := by
  rw [smallForm, if_neg hc.isSmall.ne_sigma, hc.isSmall.lowerChar_eq]

theorem mem_lowerAfter (hc : Caseless c) : c ∈ lowerAfter before t ↔ c ∈ t := by
  induction t generalizing before with
  | nil => exact Iff.rfl
  | cons d t ih =>
    rw [lowerAfter_cons, List.mem_append, List.mem_cons, ih]
    refine or_congr_left ⟨fun h => (hc.eq_of_mem h).symm, ?_⟩
    rintro rfl
    rw [hc.smallForm_eq]
    exact List.mem_singleton_self c

theorem mem_lower (hc : Caseless c) : c ∈ lower t ↔ c ∈ t := hc.mem_lowerAfter

theorem head?_lower (hc : Caseless c) : (lower t).head? = some c ↔ t.head? = some c := by
  cases t with
  | nil => exact Iff.rfl
  | cons d t =>
    rw [lower, lowerAfter_cons, List.head?_append, List.head?_cons, Option.some_inj,
      List.head?_eq_some_head smallForm_ne_nil, Option.some_or, Option.some_inj]
    constructor
    · rintro rfl
      exact hc.eq_of_mem (List.head_mem _)
    · rintro rfl
      simp [hc.smallForm_eq]

theorem getLast?_lowerAfter (hc : Caseless c) :
    (lowerAfter before t).getLast? = some c ↔ t.getLast? = some c := by
  induction t generalizing before with
  | nil => exact Iff.rfl
  | cons d t ih =>
    rw [lowerAfter_cons, List.getLast?_append]
    cases t with
    | nil =>
      rw [lowerAfter, List.getLast?_nil, Option.none_or,
        List.getLast?_eq_some_getLast smallForm_ne_nil, List.getLast?_singleton, Option.some_inj,
        Option.some_inj]
      constructor
      · rintro rfl
        exact hc.eq_of_mem (List.getLast_mem _)
      · rintro rfl
        simp [hc.smallForm_eq]
    | cons e t =>
      have hne : lowerAfter (d :: before) (e :: t) ≠ [] := by
        rw [lowerAfter_cons]
        exact List.append_ne_nil_of_left_ne_nil smallForm_ne_nil _
      rw [List.getLast?_cons_cons, ← ih, List.getLast?_eq_some_getLast hne, Option.some_or]

theorem getLast?_lower (hc : Caseless c) : (lower t).getLast? = some c ↔ t.getLast? = some c :=
  hc.getLast?_lowerAfter

end Caseless

/-! ## Characters that divide words -/

/-- A character that keeps the letters on its two sides apart. -/
structure Divides (c : Char) : Prop extends Caseless c where
  counts : inRanges caseIgnorableRanges c = false
  not_cased : inRanges casedRanges c = false

namespace Divides

variable {c : Char} {before t u x y : Text}

theorem meetsCased_append (hc : Divides c) : meetsCased (x ++ c :: y) = meetsCased x := by
  rw [meetsCased, meetsCased, List.dropWhile_append]
  cases x.dropWhile (inRanges caseIgnorableRanges) with
  | nil =>
    rw [List.dropWhile_cons_of_neg (by simp [hc.counts])]
    exact hc.not_cased
  | cons d x => rfl

theorem lowerAfter_behind (hc : Divides c) : lowerAfter (x ++ c :: y) t = lowerAfter x t := by
  induction t generalizing x with
  | nil => rfl
  | cons d t ih =>
    rw [lowerAfter_cons, lowerAfter_cons, ← List.cons_append, ih, smallForm, smallForm,
      hc.meetsCased_append]

theorem lowerAfter_append (hc : Divides c) :
    lowerAfter before (t ++ c :: u) = lowerAfter before t ++ c :: lower u := by
  induction t generalizing before with
  | nil =>
    have hrest : lowerAfter (c :: before) u = lower u := hc.lowerAfter_behind (x := [])
    rw [List.nil_append, lowerAfter_cons, hc.toCaseless.smallForm_eq, hrest]
    rfl
  | cons d t ih =>
    rw [List.cons_append, lowerAfter_cons, lowerAfter_cons, ih, smallForm, smallForm,
      hc.meetsCased_append, List.append_assoc]

/-- What is divided is lowercased on each side by itself. -/
theorem lower_append (hc : Divides c) : lower (t ++ c :: u) = lower t ++ c :: lower u :=
  hc.lowerAfter_append

end Divides

theorem divides_slash : Divides '/' where
  toCaseless := caseless_of_ascii (by decide) (by decide) (by decide)
  counts := by decide +kernel
  not_cased := by decide +kernel

theorem divides_backslash : Divides '\\' where
  toCaseless := caseless_of_ascii (by decide) (by decide) (by decide)
  counts := by decide +kernel
  not_cased := by decide +kernel

end GameScript.Text
