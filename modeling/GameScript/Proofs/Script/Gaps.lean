import GameScript.Proofs.Script.Condensing
import GameScript.Proofs.Script.Spread

/-!
# What is hashed of gaps

Tidying, joining the lines and condensing turn the gap before a token into a gap again. It may
vanish beside something tight; otherwise a gap that begins with a blank still does, so that it
ends a word as before (`hashedRest_token`, `hashedRest_gap`).
-/

namespace GameScript

open Text Lexer

section

variable {c : Char} {g t u w r : Text}

/-- Whether the text is empty or begins with a mark. -/
def StartsMarked (t : Text) : Prop := ∀ c ∈ t.head?, isBlankChar c = false

theorem startsMarked_nil : StartsMarked [] := by rintro c ⟨⟩

theorem IsPiece.startsMarked (hw : IsPiece w) : StartsMarked (w ++ t) := by
  obtain ⟨c, cs, rfl, hc⟩ := hw.bounded.head
  rintro d ⟨⟩
  exact hc

/-! ## Joined lines -/

theorem lineRest_nil : lineRest [] = [] := rfl

theorem lineRest_mark (h : isBlankChar c = false) : lineRest (c :: t) = c :: lineRest t := by
  have hbounded : Bounded [c] := ⟨⟨c, [], rfl, h⟩, [], c, rfl, h⟩
  refine lineRest_append (w := [c]) hbounded fun hline => ?_
  rw [← List.mem_singleton.1 hline] at h
  cases h

theorem singleLine_mark (h : isBlankChar c = false) : singleLine (c :: t) = c :: lineRest t := by
  have hbounded : Bounded [c] := ⟨⟨c, [], rfl, h⟩, [], c, rfl, h⟩
  refine singleLine_append (w := [c]) hbounded fun hline => ?_
  rw [← List.mem_singleton.1 hline] at h
  cases h

theorem singleLine_marked (h : StartsMarked u) : singleLine u = lineRest u := by
  cases u with
  | nil => rfl
  | cons c u => rw [singleLine_mark (h c rfl), lineRest_mark (h c rfl)]

theorem startsBlank_lineRest (ht : StartsBlank t) : StartsBlank (lineRest t) := by
  cases t with
  | nil => rintro d ⟨⟩
  | cons c t =>
    have hc : isBlankChar c = true := ht c rfl
    obtain ⟨p, ps, hp⟩ := exists_splitOn '\n' t
    by_cases hline : c = '\n'
    · rw [hline, lineRest_lineFeed]
      split
      · rintro d ⟨⟩
      · rintro d ⟨⟩
        rfl
    simp only [lineRest, splitOn_cons hline hp, trimEnd_cons_blank hc]
    split
    · cases marked ps with
      | nil => rintro d ⟨⟩
      | cons q qs =>
        rintro d ⟨⟩
        rfl
    · have hjoin : join [' '] ((c :: trimEnd p) :: marked ps) =
          c :: join [' '] (trimEnd p :: marked ps) := join_append (w := [c])
      rw [hjoin]
      rintro d ⟨⟩
      exact hc

/-- Joining the lines makes a gap of a gap, at the start of a text and behind a mark. -/
theorem lines_gaps (hg : IsGaps g) (hu : StartsMarked u) :
    (∃ g', IsGaps g' ∧ singleLine (g ++ u) = g' ++ lineRest u) ∧
      ∃ g', IsGaps g' ∧ lineRest (g ++ u) = g' ++ lineRest u := by
  induction g with
  | nil => exact ⟨⟨[], isGaps_nil, singleLine_marked hu⟩, [], isGaps_nil, rfl⟩
  | cons c g ih =>
    obtain ⟨hc, hg⟩ := isGaps_cons.1 hg
    obtain ⟨⟨g₁, hg₁, hsingle⟩, g₂, hg₂, hrest⟩ := ih hg
    have hcg₂ : IsGaps (c :: g₂) := isGaps_cons.2 ⟨hc, hg₂⟩
    cases hblank : isBlankChar c with
    | false =>
      refine ⟨⟨c :: g₂, hcg₂, ?_⟩, c :: g₂, hcg₂, ?_⟩
      · rw [List.cons_append, singleLine_mark hblank, hrest]
        rfl
      · rw [List.cons_append, lineRest_mark hblank, hrest]
        rfl
    | true =>
      refine ⟨⟨g₁, hg₁, (singleLine_blank hblank).trans hsingle⟩, ?_⟩
      by_cases hline : c = '\n'
      · rw [hline, List.cons_append, lineRest_lineFeed, hsingle]
        split
        · next hnil => exact ⟨[], isGaps_nil, (List.append_eq_nil_iff.1 hnil).2.symm⟩
        · exact ⟨' ' :: g₁, isGaps_cons.2 ⟨rfl, hg₁⟩, rfl⟩
      · rcases lineRest_blank (t := g ++ u) hblank hline with h | ⟨-, h⟩
        · exact ⟨g₂, hg₂, h.trans hrest⟩
        · exact ⟨c :: g₂, hcg₂, h.trans (congrArg (c :: ·) hrest)⟩

theorem lines_gap (hg : IsGaps g) : IsGaps (singleLine g) ∧ IsGaps (lineRest g) := by
  obtain ⟨⟨g₁, hg₁, hsingle⟩, g₂, hg₂, hrest⟩ := lines_gaps hg startsMarked_nil
  rw [List.append_nil, lineRest_nil, List.append_nil] at hsingle hrest
  exact ⟨hsingle ▸ hg₁, hrest ▸ hg₂⟩

/-! ## Condensed gaps -/

theorem not_tight_of_isGap (h : isGap c = true) : isTight c = false ∧ c ≠ '"' := by
  refine ⟨Bool.eq_false_iff.2 fun htight => ?_, ?_⟩
  · simp only [isTight, Bool.or_eq_true, beq_iff_eq] at htight
    rcases htight with (rfl | rfl) | rfl <;> revert h <;> decide
  · rintro rfl
    revert h
    decide

/-- Condensing makes a gap of a gap. If none is left, blanks are pending; else it begins with a
blank where one is to be kept. -/
theorem condenseFrom_gaps (hg : IsGaps g) (tight pending : Bool) : ∃ g' tight' pending',
    IsGaps g' ∧ (∀ r, condenseFrom (.outside tight pending) (g ++ r) =
      g' ++ condenseFrom (.outside tight' pending') r) ∧
    (g' = [] → tight' = tight ∧ pending' = (pending || !g.isEmpty)) ∧
    (tight = false → pending = true ∨ StartsBlank g → StartsBlank g') := by
  induction g generalizing tight pending with
  | nil => exact ⟨[], tight, pending, isGaps_nil, fun _ => rfl, by simp, by rintro - - c ⟨⟩⟩
  | cons c g ih =>
    obtain ⟨hc, hg⟩ := isGaps_cons.1 hg
    by_cases hb : c = ' ' ∨ c = '\t'
    · obtain ⟨g', tight', pending', hg', heq, hnil, hstarts⟩ :=
        ih hg tight true
      refine ⟨g', tight', pending', hg', fun r => ?_, fun h => ?_, fun ht _ => ?_⟩
      · rw [List.cons_append, condenseFrom, if_pos hb, heq]
      · simpa using hnil h
      · exact hstarts ht (.inl rfl)
    · obtain ⟨htight, hq⟩ := not_tight_of_isGap hc
      obtain ⟨g', tight', pending', hg', heq, -, -⟩ := ih hg false false
      have hspace : spaceBefore tight pending [c] = if pending && !tight then [' '] else [] := by
        simp [spaceBefore, startsTight, htight]
      refine ⟨spaceBefore tight pending [c] ++ c :: g', tight', pending', ?_, fun r => ?_,
        fun h => ?_, fun ht hstarts => ?_⟩
      · rw [hspace]
        split
        · exact isGaps_cons.2 ⟨rfl, isGaps_cons.2 ⟨hc, hg'⟩⟩
        · exact isGaps_cons.2 ⟨hc, hg'⟩
      · rw [List.cons_append, condenseFrom_mark hb, if_neg hq, htight, heq, List.append_assoc,
          List.cons_append]
      · exact absurd h (List.append_ne_nil_of_right_ne_nil _ (List.cons_ne_nil c g'))
      · rw [hspace, ht]
        cases pending with
        | true =>
          rintro d ⟨⟩
          rfl
        | false =>
          rintro d ⟨⟩
          exact hstarts.resolve_left Bool.false_ne_true c rfl

/-- Condensing copies a piece behind a gap and leaves a gap before it. -/
theorem condenseFrom_gaps_append (hg : IsGaps g) (hw : Copied w) (tight : Bool) : ∃ g',
    IsGaps g' ∧ (∀ r, condenseFrom (.outside tight false) (g ++ (w ++ r)) =
      g' ++ (w ++ condenseFrom (.outside (endsTight w) false) r)) ∧
    (g = [] → g' = []) ∧
    (tight = false → StartsBlank g →
      StartsBlank g' ∧ (g' = [] → g = [] ∨ startsTight w = true)) := by
  obtain ⟨g₁, tight', pending', hg₁, heq, hnil, hstarts⟩ :=
    condenseFrom_gaps hg tight false
  have hspace : IsGaps (spaceBefore tight' pending' w) := by
    rw [spaceBefore]
    split
    · exact isGaps_cons.2 ⟨rfl, isGaps_nil⟩
    · exact isGaps_nil
  refine ⟨g₁ ++ spaceBefore tight' pending' w, List.forall_mem_append.2 ⟨hg₁, hspace⟩,
    fun r => by rw [heq, hw, List.append_assoc], ?_, fun htight hblank => ?_⟩
  · rintro rfl
    obtain rfl : g₁ = [] := (List.append_eq_nil_iff.1 (heq []).symm).1
    obtain ⟨-, rfl⟩ := hnil rfl
    rfl
  · cases g₁ with
    | cons c g₁ => exact ⟨hstarts htight (.inr hblank), fun h => absurd h (List.cons_ne_nil _ _)⟩
    | nil =>
      -- nothing is left of the gap but the space that is pending
      obtain ⟨rfl, rfl⟩ := hnil rfl
      rw [List.nil_append, spaceBefore, htight]
      split
      · exact ⟨by rintro c ⟨⟩; rfl, fun h => absurd h (List.cons_ne_nil _ _)⟩
      · next hkept =>
        refine ⟨by rintro c ⟨⟩, fun _ => ?_⟩
        cases g with
        | nil => exact .inl rfl
        | cons c g => exact .inr (by simpa using hkept)

theorem condenseFrom_gap (hg : IsGaps g) (tight : Bool) :
    IsGaps (condenseFrom (.outside tight false) g) ∧
    (tight = false → StartsBlank g → StartsBlank (condenseFrom (.outside tight false) g)) := by
  obtain ⟨g', _, _, hg', heq, -, hstarts⟩ :=
    condenseFrom_gaps hg tight false
  have hall := heq []
  rw [condenseFrom_nil, List.append_nil, List.append_nil] at hall
  rw [hall]
  exact ⟨hg', fun htight hblank => hstarts htight (.inr hblank)⟩

/-! ## What is hashed -/

/-- What is hashed of the rest of a text, behind something that may be `tight`. -/
def hashedRest (tight : Bool) (t : Text) : Text :=
  condenseFrom (.outside tight false) (lineRest (withoutTabs t))

/-- A gap in front of a piece is one when it is hashed. -/
theorem hashedRest_token (hg : IsGaps g) (hw : IsPiece w) (htab : '\t' ∉ w) (tight : Bool)
    (t : Text) : ∃ g', IsGaps g' ∧
    hashedRest tight (g ++ (w ++ t)) = g' ++ (w ++ hashedRest (endsTight w) t) ∧
    (tight = false → StartsBlank g →
      StartsBlank g' ∧ (g' = [] → g = [] ∨ startsTight w = true)) := by
  have htext : withoutTabs (g ++ (w ++ t)) = withoutTabs g ++ (w ++ withoutTabs t) := by
    rw [withoutTabs_append, withoutTabs_append, withoutTabs_eq htab]
  have hmarked : StartsMarked (w ++ withoutTabs t) := hw.startsMarked
  obtain ⟨-, g₁, hg₁, hline⟩ := lines_gaps (forall_withoutTabs rfl hg) hmarked
  rw [lineRest_append hw.bounded hw.line] at hline
  obtain ⟨g₂, hg₂, heq, hnil, hstarts⟩ := condenseFrom_gaps_append hg₁ hw.copied tight
  refine ⟨g₂, hg₂, by rw [hashedRest, htext, hline, heq]; rfl, fun htight hblank => ?_⟩
  cases g with
  | nil =>
    rw [withoutTabs_eq List.not_mem_nil, List.nil_append,
      lineRest_append hw.bounded hw.line] at hline
    obtain rfl : g₁ = [] := List.append_left_eq_self.1 hline.symm
    rw [hnil rfl]
    exact ⟨by rintro c ⟨⟩, fun _ => .inl rfl⟩
  | cons d g =>
    have hrest : StartsBlank (lineRest (withoutTabs (d :: g ++ (w ++ t)))) :=
      startsBlank_lineRest (head?_withoutTabs (by decide) fun c hc => hblank c hc)
    rw [htext, hline] at hrest
    cases g₁ with
    | nil =>
      obtain ⟨c, cs, rfl, hc⟩ := hw.bounded.head
      have hfirst : isBlankChar c = true := hrest c rfl
      rw [hc] at hfirst
      cases hfirst
    | cons e g₁ =>
      obtain ⟨hblank', htight'⟩ := hstarts htight fun c hc => hrest c hc
      exact ⟨hblank', fun h => .inr ((htight' h).resolve_left (List.cons_ne_nil _ _))⟩

theorem hashedRest_gap (hg : IsGaps g) (tight : Bool) : IsGaps (hashedRest tight g) ∧
    (tight = false → StartsBlank g → StartsBlank (hashedRest tight g)) := by
  have hline : IsGaps (lineRest (withoutTabs g)) := (lines_gap (forall_withoutTabs rfl hg)).2
  obtain ⟨hgaps, hstarts⟩ := condenseFrom_gap hline tight
  refine ⟨hgaps, fun htight hblank => hstarts htight ?_⟩
  exact startsBlank_lineRest (head?_withoutTabs (by decide) hblank)

theorem fingerprint_tidyCode (t : Text) : Definition.fingerprint (Definition.tidyCode t) =
    condenseFrom (.outside false false) (singleLine (withoutTabs t)) := by
  rw [Definition.fingerprint, singleLine_tidyCode, condense, trim_singleLine]

theorem fingerprint_token (hg : IsGaps g) (hw : IsPiece w) (htab : '\t' ∉ w) (t : Text) :
    ∃ g', IsGaps g' ∧
    Definition.fingerprint (Definition.tidyCode (g ++ (w ++ t))) =
      g' ++ (w ++ hashedRest (endsTight w) t) := by
  have hmarked : StartsMarked (w ++ withoutTabs t) := hw.startsMarked
  obtain ⟨⟨g₁, hg₁, hline⟩, -⟩ := lines_gaps (forall_withoutTabs rfl hg) hmarked
  rw [lineRest_append hw.bounded hw.line] at hline
  obtain ⟨g₂, hg₂, heq, -⟩ := condenseFrom_gaps_append hg₁ hw.copied false
  refine ⟨g₂, hg₂, ?_⟩
  rw [fingerprint_tidyCode, withoutTabs_append, withoutTabs_append, withoutTabs_eq htab, hline, heq]
  rfl

theorem fingerprint_gap (hg : IsGaps g) :
    IsGaps (Definition.fingerprint (Definition.tidyCode g)) := by
  have hline : IsGaps (singleLine (withoutTabs g)) := (lines_gap (forall_withoutTabs rfl hg)).1
  rw [fingerprint_tidyCode]
  exact (condenseFrom_gap hline false).1

end

end GameScript
