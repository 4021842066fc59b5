import GameScript.Proofs.Script.Canonical
import GameScript.Proofs.Script.Condensing

/-!
# Words that leave a bracket open

Between square brackets, blanks and operators belong to the word. A word whose last bracket opens
ends only at a brace or at the end of its line; with anything else behind it, it goes on
(`CutsOff.word_open`). A word that leaves no bracket open is read as a word by itself
(`CutsOff.stands_word`).
-/

namespace GameScript

open Text Lexer Element

def leavesOpen (w : Text) : Bool := ((WordState.plain false).after w).bracketed

/-- Whether a character inside brackets belongs to the word and leaves it inside. -/
def staysInside (c : Char) : Bool := !isControl c && !(['"', '{', '}', '[', ']'].contains c)

section

variable {m r t u w : Text} {c : Char} {s : WordState}

theorem stopsWord_of_staysInside {cs : Text} (h : staysInside c = true) :
    stopsWord m (.plain true) c cs = false := by
  simp only [staysInside, Bool.and_eq_true, Bool.not_eq_true'] at h
  obtain ⟨hcontrol, hmark⟩ := h
  have hfeed : c ≠ '\n' := by rintro rfl; cases hcontrol
  have hreturn : c ≠ '\r' := by rintro rfl; cases hcontrol
  simp only [List.contains_eq_mem, List.mem_cons, List.not_mem_nil, or_false,
    decide_eq_false_iff_not, not_or] at hmark
  simp [stopsWord, endsWord, hcontrol, hfeed, hreturn, hmark]

theorem next_of_staysInside {b : Bool} (h : staysInside c = true) :
    (WordState.plain b).next c = .plain b := by
  simp only [staysInside, Bool.and_eq_true, Bool.not_eq_true', List.contains_eq_mem, List.mem_cons,
    List.not_mem_nil, or_false, decide_eq_false_iff_not, not_or] at h
  obtain ⟨-, hquote, -, -, hopen, hclose⟩ := h
  rw [WordState.next, if_neg hquote, if_neg hopen, if_neg hclose]

theorem after_of_staysInside {b : Bool} (h : ∀ c ∈ w, staysInside c = true) :
    (WordState.plain b).after w = .plain b := by
  induction w with
  | nil => rfl
  | cons c w ih =>
    rw [List.forall_mem_cons] at h
    rw [WordState.after, List.foldl_cons, next_of_staysInside h.1]
    exact ih h.2

theorem staysInside_append_blank (h : ∀ c ∈ w, staysInside c = true) :
    ∀ c ∈ w ++ [' '], staysInside c = true := by
  refine List.forall_mem_append.2 ⟨h, fun c hc => ?_⟩
  rw [List.mem_singleton.1 hc]
  decide

theorem spanWord_inside {g : Text} (hg : ∀ c ∈ g, staysInside c = true)
    (h : spanWord m (.plain true) t = ⟨u, r, none⟩) :
    spanWord m (.plain true) (g ++ t) = ⟨g ++ u, r, none⟩ := by
  induction g with
  | nil => exact h
  | cons c g ih =>
    rw [List.forall_mem_cons] at hg
    rw [List.cons_append, spanWord_cons, if_neg (by simp [stopsWord_of_staysInside hg.1]),
      next_of_staysInside hg.1, ih hg.2]
    rfl

/-! ## Keywords -/

theorem toLower_of_not_staysInside (h : staysInside c = false) : c.toLower = c := by
  refine dif_neg ?_
  rintro ⟨hlow, hhigh⟩
  have hlow : 65 ≤ c.toNat := UInt32.le_iff_toNat_le.1 hlow
  have hhigh : c.toNat ≤ 90 := UInt32.le_iff_toNat_le.1 hhigh
  simp only [staysInside, isControl, Bool.and_eq_false_iff, Bool.not_eq_false', Bool.or_eq_true,
    Bool.and_eq_true, decide_eq_true_eq, List.contains_eq_mem, List.mem_cons, List.not_mem_nil,
    or_false] at h
  rcases h with h | rfl | rfl | rfl | rfl | rfl
  · omega
  all_goals revert hlow hhigh; decide

/-- A keyword of inline values has no brackets. -/
theorem staysInside_of_isInlineKeyword (h : isInlineKeyword w = true) :
    ∀ c ∈ w, staysInside c = true := by
  intro c hc
  obtain ⟨kw, hkw, hsame⟩ := List.any_eq_true.1 h
  have hlower : asciiLower kw = asciiLower w := eq_of_beq hsame
  have hmem : c.toLower ∈ asciiLower kw := hlower ▸ List.mem_map_of_mem hc
  cases hstays : staysInside c with
  | true => rfl
  | false =>
    rw [toLower_of_not_staysInside hstays] at hmem
    have hall : (inlineKeywords.all fun kw => (asciiLower kw).all staysInside) = true := by decide
    rw [List.all_eq_true.1 (List.all_eq_true.1 hall kw hkw) c hmem] at hstays
    cases hstays

theorem leavesOpen_of_isInlineKeyword (h : isInlineKeyword w = true) : leavesOpen w = false := by
  rw [leavesOpen, after_of_staysInside (staysInside_of_isInlineKeyword h)]
  rfl

theorem bracketed_after (h : s.bracketed = false) (hw : '[' ∉ w) :
    (s.after w).bracketed = false := by
  induction w generalizing s with
  | nil => exact h
  | cons c w ih =>
    rw [List.mem_cons, not_or] at hw
    exact ih (WordState.next_bracketed h (Ne.symm hw.1)) hw.2

theorem openBracket_mem (h : leavesOpen w = true) : '[' ∈ w :=
  Decidable.not_not.1 fun hw => Bool.eq_false_iff.1 (bracketed_after rfl hw) h

theorem ne_nil_of_leavesOpen (h : leavesOpen w = true) : w ≠ [] := by
  rintro rfl
  cases h

/-- No keyword begins with a word that leaves a bracket open. -/
theorem isInlineKeyword_append (h : leavesOpen w = true) : isInlineKeyword (w ++ u) = false := by
  refine Bool.eq_false_iff.2 fun hkw => ?_
  have hmem := List.mem_append_left u (openBracket_mem h)
  exact absurd (staysInside_of_isInlineKeyword hkw _ hmem) (by decide)

/-! ## Words that were read somewhere -/

theorem CutsOff.after_word (h : CutsOff m (.word w) r) :
    (WordState.plain false).after w = .plain (leavesOpen w) := by
  obtain ⟨_, _, _, _, _, hw⟩ := cutsOff_word_iff.1 h
  obtain ⟨b, hb⟩ := plain_of_spanWord (spanWord_after hw)
  rw [leavesOpen, hb]
  rfl

/-- A word that leaves no bracket open is one in front of a blank. -/
theorem CutsOff.stands_word (hm : PlainMarker m) (h : CutsOff m (.word w) r)
    (hclosed : leavesOpen w = false) : Stands m (.word w) := by
  have hblank : isBlankChar ' ' = true := by decide
  refine ⟨[], ?_⟩
  have hend : spanWord m ((WordState.plain false).after w) ([] ++ [' ']) = ⟨[], [' '], none⟩ := by
    rw [h.after_word, hclosed, List.nil_append, spanWord_cons, if_pos (stopsWord_blank hblank [])]
  simpa using h.word_extend (by simpa using hm.blank hblank) (by simp) hend

/-- Whether a text ends, or the line does. -/
def EndsLine (t : Text) : Prop := ∀ c ∈ t.head?, c = '\n'

theorem spanWord_endsLine {b : Bool} (h : EndsLine t) :
    spanWord m (.plain b) t = ⟨[], t, none⟩ := by
  cases t with
  | nil => rfl
  | cons c t =>
    obtain rfl := h c rfl
    rw [spanWord_cons]
    rfl

/-- A word ends with its line. -/
theorem CutsOff.word_endsLine (hm : '\n' ∉ m) (h : CutsOff m (.word w) r) (ht : EndsLine t) :
    CutsOff m (.word w) t := by
  refine h.word_before ⟨fun b _ => spanWord_endsLine ht, ?_⟩ fun _ heq => ?_
  · intro c hc
    rwa [ht c hc]
  · exact absurd (ht _ heq) (by decide)

/-- Whether a word was read somewhere. -/
def IsRead (w : Text) : Prop := ∃ r, CutsOff ['#'] (.word w) r

theorem IsRead.after (h : IsRead w) : (WordState.plain false).after w = .plain (leavesOpen w) := by
  obtain ⟨r, h⟩ := h
  exact h.after_word

/-- What is read as a word begins with a mark, which is not the one of a comment. -/
theorem CutsOff.not_blank (h : CutsOff m (.word w) r) : isBlank w = false := by
  obtain ⟨c, cs, hw, hgap, -⟩ := h
  obtain rfl : w = c :: cs := hw
  simp only [isGap, Bool.or_eq_false_iff] at hgap
  rw [isBlank_cons, hgap.1, Bool.false_and]

theorem IsRead.not_blank (h : IsRead w) : isBlank w = false := by
  obtain ⟨r, h⟩ := h
  exact h.not_blank

theorem IsRead.before_endsLine (h : IsRead w) (ht : EndsLine t) : CutsOff ['#'] (.word w) t := by
  obtain ⟨r, h⟩ := h
  exact h.word_endsLine (by decide) ht

theorem IsRead.stands (h : IsRead w) (hclosed : leavesOpen w = false) : Stands ['#'] (.word w) := by
  obtain ⟨r, h⟩ := h
  exact h.stands_word plainMarker_hash hclosed

theorem IsRead.open (h : IsRead w) (hopen : leavesOpen w = true)
    (hu : spanWord ['#'] (.plain true) (u ++ r) = ⟨u, r, none⟩) (hblank : u.head? = some ' ') :
    CutsOff ['#'] (.word (w ++ u)) r := by
  have hafter := h.after
  obtain ⟨r', h⟩ := h
  obtain ⟨u, rfl⟩ := List.head?_eq_some_iff.1 hblank
  refine h.word_extend (by simp) (by simp) ?_
  rw [hafter, hopen]
  exact hu

/-- Inside brackets, a word is still read to its end. -/
theorem IsRead.inside (h : IsRead w) (ht : EndsLine t) :
    spanWord ['#'] (.plain true) (w ++ t) = ⟨w, t, none⟩ := by
  have hlooser : Looser (.plain false) (.plain true) := .plain fun _ => rfl
  have hend : spanWord ['#'] ((WordState.plain true).after w) t = ⟨[], t, none⟩ := by
    have hafter := hlooser.after w
    rw [h.after] at hafter
    generalize (WordState.plain true).after w = s' at hafter
    cases hafter with
    | plain _ => exact spanWord_endsLine ht
  obtain ⟨r, h⟩ := h
  obtain ⟨_, _, _, _, _, hw⟩ := cutsOff_word_iff.1 h
  refine (spanWord_extend hlooser ?_ ?_ hw hend).trans (by rw [List.append_nil])
  · intro c hc
    rw [ht c hc]
    decide
  · exact fun _ heq => absurd (ht _ heq) (by decide)

/-- What a word inside brackets would take of an operator: all of it. -/
theorem IsOperator.stays (h : IsOperator w) : ∀ c ∈ w, staysInside c = true := by
  intro c hc
  obtain ⟨_, _, _, _, _, hspan⟩ := cutsOff_operator_iff.1 (isOperator_iff.1 h)
  obtain ⟨cs, hcs⟩ := isOperatorAt_of_mem hspan c hc
  simp only [isOperatorAt, isOperatorChar, Bool.or_eq_true, Bool.and_eq_true, beq_iff_eq] at hcs
  rcases hcs with (((rfl | rfl) | rfl) | rfl) | ⟨rfl, -⟩ <;> decide

end

end GameScript
