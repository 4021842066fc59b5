import GameScript.Proofs.Script.BraceChecks
import Mathlib.Data.List.Infix

/-!
# The culprit among the braces outside comments

Without quotes and square brackets, the braces of a source are those outside comments
(`bracesOutside`), for both checks. So either every brace has its partner and both pass, or both
report the culprit: the first closing brace without a partner, else the first opening one
(`checks_agree`).
-/

namespace GameScript

open Text Lexer Balance

/-- The braces of a text behind `before` that no comment on their line starts in front of. -/
def bracesBehind (m before : Text) : Text → Braces
  | [] => []
  | c :: cs =>
    (if m <:+: before.rtakeWhile (· ≠ '\n') then []
      else ((brace? c).map (·, (Position.behind before).place)).toList) ++
      bracesBehind m (before ++ [c]) cs

def bracesOutside (m source : Text) : Braces := bracesBehind m [] source

/-- Whether a text has neither quotes nor opening brackets nor control characters but blanks. -/
structure IsBare (t : Text) : Prop where
  quote : '"' ∉ t
  bracket : '[' ∉ t
  control : ∀ c ∈ t, isControl c = true → isBlankChar c = true

section

variable {m r t u w before source : Text} {c : Char} {p : Position} {x : Token} {ls : List Text}

/-! ## Braces on a line -/

theorem brace?_eq_none (hopen : c ≠ '{') (hclose : c ≠ '}') : brace? c = none := by
  rw [brace?, if_neg hopen, if_neg hclose]

theorem bracesBehind_of_not_mem (hopen : '{' ∉ t) (hclose : '}' ∉ t) :
    bracesBehind m before (t ++ r) = bracesBehind m (before ++ t) r := by
  induction t generalizing before with
  | nil => rw [List.nil_append, List.append_nil]
  | cons c t ih =>
    rw [List.mem_cons, not_or] at hopen hclose
    rw [List.cons_append, bracesBehind, brace?_eq_none (Ne.symm hopen.1) (Ne.symm hclose.1),
      ih hopen.2 hclose.2, List.append_assoc]
    split <;> rfl

theorem rtakeWhile_append (h : '\n' ∉ t) :
    (before ++ t).rtakeWhile (· ≠ '\n') = before.rtakeWhile (· ≠ '\n') ++ t := by
  induction t using List.reverseRecOn with
  | nil => rw [List.append_nil, List.append_nil]
  | append_singleton t c ih =>
    rw [List.mem_append, List.mem_singleton, not_or] at h
    rw [← List.append_assoc, List.rtakeWhile_concat_pos _ _ _ (by simpa using Ne.symm h.2), ih h.1,
      List.append_assoc]

theorem bracesBehind_comment (hline : '\n' ∉ t) (h : m <:+: before.rtakeWhile (· ≠ '\n')) :
    bracesBehind m before (t ++ r) = bracesBehind m (before ++ t) r := by
  induction t generalizing before with
  | nil => rw [List.nil_append, List.append_nil]
  | cons c t ih =>
    rw [List.mem_cons, not_or] at hline
    have hgrown : m <:+: (before ++ [c]).rtakeWhile (· ≠ '\n') := by
      rw [rtakeWhile_append (by simpa using hline.1)]
      exact h.trans (List.prefix_append _ _).isInfix
    rw [List.cons_append, bracesBehind, if_pos h, ih hline.2 hgrown, List.append_assoc]
    rfl

/-- **On a line without quotes a pass sees the braces outside comments**, if no comment has started
on the line before. -/
theorem bracesBehind_line (hm : IsRepeated m) (hline : '\n' ∉ t) (hquote : '"' ∉ t)
    (hno : ∀ v, v <:+ before.rtakeWhile (· ≠ '\n') → v ≠ [] → ¬ m <+: v ++ t) :
    bracesBehind m before (t ++ r) =
      lineBraces m (Position.behind before).line (Position.behind before).column false t ++
        bracesBehind m (before ++ t) r := by
  induction t generalizing before with
  | nil =>
    rw [List.nil_append, List.append_nil]
    rfl
  | cons c t ih =>
    by_cases hat : isCommentAt m (c :: t) = true
    · obtain ⟨hne, body, hbody⟩ := isCommentAt_iff.1 hat
      have hfeed : '\n' ∉ body := fun hmem => hline (hbody ▸ List.mem_append_right m hmem)
      have hin : m <:+: (before ++ m).rtakeWhile (· ≠ '\n') := by
        rw [rtakeWhile_append hm.feed_not_mem]
        exact (List.suffix_append _ m).isInfix
      rw [lineBraces, hat, ← hbody, List.append_assoc,
        bracesBehind_of_not_mem hm.plain.openBrace hm.plain.closeBrace,
        bracesBehind_comment hfeed hin, List.append_assoc]
      rfl
    · have hat := Bool.eq_false_iff.2 hat
      rw [List.mem_cons, not_or] at hline hquote
      have hcover : (before ++ [c]).rtakeWhile (· ≠ '\n') =
          before.rtakeWhile (· ≠ '\n') ++ [c] := rtakeWhile_append (by simpa using hline.1)
      have hout : ¬ m <:+: before.rtakeWhile (· ≠ '\n') := by
        rintro ⟨u, v, huv⟩
        refine hno (m ++ v) ⟨u, by rw [← huv, List.append_assoc]⟩ (by simp [hm.ne_nil]) ?_
        rw [List.append_assoc]
        exact List.prefix_append m _
      have hno' : ∀ v, v <:+ (before ++ [c]).rtakeWhile (· ≠ '\n') → v ≠ [] → ¬ m <+: v ++ t := by
        intro v hv hne
        rw [hcover, List.suffix_concat_iff] at hv
        rcases hv with rfl | ⟨v, rfl, hv⟩
        · exact absurd rfl hne
        · rw [List.append_assoc]
          by_cases hnil : v = []
          · subst hnil
            exact fun hprefix => Bool.eq_false_iff.1 hat (isCommentAt_iff.2 ⟨hm.ne_nil, hprefix⟩)
          · exact hno v hv hnil
      obtain ⟨hsame, hcolumn⟩ :
          ((Position.behind before).next c).line = (Position.behind before).line ∧
            ((Position.behind before).next c).column = (Position.behind before).column + 1 :=
        advance_line (t := [c]) (by simpa using hline.1)
      rw [List.cons_append, bracesBehind, if_neg hout, ih hline.2 hquote.2 hno', lineBraces, hat,
        ← next_behind, hsame, hcolumn, Bool.and_false, if_neg Bool.false_ne_true,
        if_neg (Ne.symm hquote.1), if_neg Bool.false_ne_true, List.append_assoc, List.append_assoc]
      rfl

/-! ## Braces on all lines -/

theorem bracesBehind_lines (hm : IsRepeated m) (hls : ∀ l ∈ ls, '\n' ∉ l ∧ '"' ∉ l)
    (hbefore : before.rtakeWhile (· ≠ '\n') = []) :
    bracesBehind m before (unlines ls) = linesBraces m (Position.behind before).line ls := by
  induction ls generalizing before with
  | nil => rfl
  | cons l ls ih =>
    rw [List.forall_mem_cons] at hls
    have hcolumn : (Position.behind before).column = 1 := by
      show 1 + (before.rtakeWhile (· ≠ '\n')).length = 1
      rw [hbefore]
      rfl
    have hno : ∀ v, v <:+ before.rtakeWhile (· ≠ '\n') → v ≠ [] → ¬ m <+: v ++ l := by
      intro v hv hne
      rw [hbefore] at hv
      exact absurd (List.suffix_nil.1 hv) hne
    have hline (r : Text) := bracesBehind_line (r := r) hm hls.1.1 hls.1.2 hno
    rw [hcolumn] at hline
    cases ls with
    | nil =>
      have hend := hline []
      rw [List.append_nil] at hend
      exact hend
    | cons l' ls =>
      have hfeed : bracesBehind m (before ++ l) (['\n'] ++ unlines (l' :: ls)) =
          bracesBehind m (before ++ l ++ ['\n']) (unlines (l' :: ls)) :=
        bracesBehind_of_not_mem (by decide) (by decide)
      have hstart : (before ++ l ++ ['\n']).rtakeWhile (· ≠ '\n') = [] :=
        List.rtakeWhile_concat_neg _ _ _ (by decide)
      have hnumber : (Position.behind (before ++ l ++ ['\n'])).line =
          (Position.behind before).line + 1 := by
        simp [Position.behind, List.count_eq_zero.2 hls.1.1, Nat.add_assoc]
      rw [unlines_cons_cons, hline, ← List.singleton_append, hfeed, ih hls.2 hstart, hnumber]
      rfl

theorem bracesOutside_eq (hm : IsRepeated m) (hquote : '"' ∉ source) :
    bracesOutside m source = linesBraces m 1 (splitOn '\n' source) := by
  have hls : ∀ l ∈ splitOn '\n' source, '\n' ∉ l ∧ '"' ∉ l := fun l hl =>
    ⟨not_mem_of_mem_splitOn hl, fun hmem => hquote (subset_of_mem_splitOn hl hmem)⟩
  have hstart : ([] : Text).rtakeWhile (· ≠ '\n') = [] := rfl
  have hlines := bracesBehind_lines hm hls hstart
  rwa [unlines_splitOn] at hlines

/-! ## Tokens of texts without quotes -/

theorem quote_mem_of_unclosed {b : Bool} (h : (spanWord m (.plain b) t).unclosed ≠ none) :
    '"' ∈ t := by
  induction t generalizing b with
  | nil => exact absurd rfl h
  | cons c t ih =>
    by_cases hquote : c = '"'
    · exact hquote ▸ List.mem_cons_self
    · obtain ⟨b', hb'⟩ : ∃ b', (WordState.plain b).next c = .plain b' := by
        rw [WordState.next, if_neg hquote]
        split
        · exact ⟨true, rfl⟩
        · split
          · exact ⟨false, rfl⟩
          · exact ⟨b, rfl⟩
      rw [spanWord_cons, hb'] at h
      split at h
      · exact absurd rfl h
      · exact List.mem_cons_of_mem c (ih h)

/-- What is illegal is a quote that is never closed, or a control character that is no gap. -/
theorem of_illegal {cause : Illegal} (hx : x ∈ tokensFrom m p t) (hk : x.kind = .illegal cause) :
    '"' ∈ t ∨ ∃ c ∈ t, isGap c = false ∧ isControl c = true := by
  fun_induction tokensFrom m p t with
  | case1 p =>
    obtain rfl := List.mem_singleton.1 hx
    cases hk
  | case2 p c cs hgap ih =>
    rcases ih hx with h | ⟨d, hd, h⟩
    · exact .inl (List.mem_cons_of_mem c h)
    · exact .inr ⟨d, List.mem_cons_of_mem c hd, h⟩
  | case3 p c cs hgap y after ih =>
    rcases List.mem_cons.1 hx with rfl | hx
    · cases cause with
      | control d =>
        exact .inr ⟨c, List.mem_cons_self, by simpa using hgap, (of_cut_control hk).1⟩
      | unterminated i j => exact .inl (quote_mem_of_unclosed (unclosed_of_unterminated hk))
    · have hall : y.lexeme ++ y.rest = c :: cs := cut_append ..
      rw [← hall]
      rcases ih hx with h | ⟨d, hd, h⟩
      · exact .inl (List.mem_append_right _ h)
      · exact .inr ⟨d, List.mem_append_right _ hd, h⟩

/-- A word is part of its source. -/
theorem word_subset (h : .word w ∈ kinds m t) : w ⊆ t := by
  obtain ⟨x, hx, hk⟩ := List.mem_map.1 h
  obtain ⟨lexeme, -, -, ⟨before, after, ht, -⟩, hspells⟩ :=
    (tokens_tile m t).slices x hx (by simp [hk])
  rw [hk] at hspells
  have hlexeme : lexeme = w := hspells
  rw [ht, hlexeme]
  exact List.Subset.trans (List.subset_append_left w after) (List.subset_append_right before _)

/-! ## Bare texts -/

theorem IsBare.part (h : IsBare t) (hu : u ⊆ t) : IsBare u where
  quote hmem := h.quote (hu hmem)
  bracket hmem := h.bracket (hu hmem)
  control c hc := h.control c (hu hc)

theorem IsBare.legal (h : IsBare t) : ∀ x ∈ tokens m t, ∀ cause, x.kind ≠ .illegal cause := by
  intro x hx cause hk
  rcases of_illegal hx hk with hquote | ⟨c, hc, hgap, hcontrol⟩
  · exact h.quote hquote
  · rw [isGap, h.control c hc hcontrol, Bool.true_or] at hgap
    cases hgap

/-- A pass over characters sees nothing but their braces in the tokens of a bare text. -/
theorem IsBare.isTracelessTo (hm : IsRepeated m) (h : IsBare t) :
    ∀ x ∈ tokens m t, x.kind.IsTracelessTo m := by
  refine isTracelessTo_of_words hm (fun k hk => ?_) fun w hw hintricate => ?_
  · obtain ⟨x, hx, rfl⟩ := List.mem_map.1 hk
    refine Bool.eq_false_iff.2 fun hu => ?_
    obtain ⟨i, j, hunclosed⟩ := isUnclosed_iff.1 hu
    exact h.legal x hx _ hunclosed
  · have hw : w ⊆ t := word_subset hw
    rcases hintricate with hbracket | ⟨hquote, -⟩
    · exact absurd (hw hbracket) h.bracket
    · exact absurd (hw hquote) h.quote

end

/-- **Both checks report the culprit** of a source without quotes, square brackets and control
characters but blanks, or pass when every brace outside comments has its partner. -/
theorem checks_agree {m source : Text} (hm : m ∈ usualMarkers) (hquote : '"' ∉ source)
    (hbracket : '[' ∉ source) (hcontrol : ∀ c ∈ source, isControl c = true → isBlankChar c = true) :
    (AllOpened (bracesOutside m source) ∧ AllClosed (bracesOutside m source) ∧
      checkStructure m source = .ok () ∧ checkBraces m source = .ok ()) ∨
    ∃ p, IsCulprit (bracesOutside m source) p ∧
      (∃ message, checkStructure m source = .error (faultAt message p)) ∧
      ∃ message, checkBraces m source = .error (faultAt message p) := by
  have hrep := isRepeated_of_usual hm
  have hbare : IsBare source := ⟨hquote, hbracket, hcontrol⟩
  have hbraces := tokenBraces_source hrep fun l hl =>
    (hbare.part (subset_of_mem_splitOn hl)).isTracelessTo hrep
  have hlines := bracesOutside_eq hrep hquote
  rw [← hlines] at hbraces
  rw [checkStructure, checkTokens_eq hbare.legal, hbraces,
    checkBraces_eq (hrep.foreign (.inr (.inl rfl))), ← hlines]
  rcases tally_cases (bracesOutside m source) with ⟨h, hopened, hclosed⟩ | ⟨p, hculprit, h⟩
  · rw [h]
    exact .inl ⟨hopened, hclosed, rfl, rfl⟩
  · refine .inr ⟨p, hculprit, ?_⟩
    rcases h with h | ⟨o, h, hp⟩
    · rw [h]
      exact ⟨⟨_, rfl⟩, _, rfl⟩
    · rw [h]
      simp only [verdict, hp]
      exact ⟨⟨_, rfl⟩, _, rfl⟩

def markedScript : Text := "\uFEFFé=\x7b#\x7b\r\n\t\x7d\r\n é\x7dx#\x7d\n\x7d"

theorem checks_agree_markedScript :
    (['#'] : Text) ∈ usualMarkers ∧ '"' ∉ markedScript ∧ '[' ∉ markedScript ∧
      (∀ c ∈ markedScript, isControl c = true → isBlankChar c = true) ∧
      IsCulprit (bracesOutside ['#'] markedScript) (3, 3) ∧
      (∃ message, checkStructure ['#'] markedScript = .error (faultAt message (3, 3))) ∧
      ∃ message, checkBraces ['#'] markedScript = .error (faultAt message (3, 3)) := by
  have hm : (['#'] : Text) ∈ usualMarkers := List.mem_cons_self
  have hquote : '"' ∉ markedScript := by decide
  have hbracket : '[' ∉ markedScript := by decide
  have hblanks : (markedScript.filter isControl).all isBlankChar = true := by decide +kernel
  have hcontrol : ∀ c ∈ markedScript, isControl c = true → isBlankChar c = true :=
    fun c hc hc' => List.all_eq_true.1 hblanks c (List.mem_filter.2 ⟨hc, hc'⟩)
  have hfails : checkStructure ['#'] markedScript =
      .error (faultAt "unexpected closing bracket" (3, 3)) := by decide +kernel
  refine ⟨hm, hquote, hbracket, hcontrol, ?_⟩
  rcases checks_agree hm hquote hbracket hcontrol with ⟨-, -, h, -⟩ | ⟨p, hp, ⟨message, h⟩, hbraces⟩
  · rw [hfails] at h
    cases h
  · rw [hfails] at h
    obtain ⟨-, hline, hcolumn⟩ := Fault.defective.inj (Except.error.inj h)
    obtain rfl : (3, 3) = p := Prod.ext (Option.some.inj hline) (Option.some.inj hcolumn)
    exact ⟨hp, ⟨_, hfails⟩, hbraces⟩

end GameScript
