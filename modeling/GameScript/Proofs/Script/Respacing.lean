import GameScript.Proofs.Script.Spacing
import GameScript.Proofs.Text.Pieces

/-!
# Tokens between other blanks

A text is `Respaced` when runs of blanks stand for others in it, where line feeds stand for line
feeds. Inside quotes and brackets the blanks belong to a word, which is another one then; but it
ends where it ended (`spanWord_alike`). So both texts are cut into tokens of the same shapes, with
any gaps in front of them (`shapes_eq`).
-/

namespace GameScript

open Text Lexer

/-! ## Runs of blanks -/

/-- Whether a character ends a line. It ends a word inside brackets too. -/
def isLineEnd (c : Char) : Bool := c == '\n' || c == '\r'

/-- Blanks between other characters, with a line feed or else without any line end. -/
structure IsSeparator (feeds : Bool) (g : Text) : Prop where
  ne_nil : g ≠ []
  blank : ∀ c ∈ g, isBlankChar c = true
  feed : feeds = true → '\n' ∈ g
  flat : feeds = false → ∀ c ∈ g, isLineEnd c = false

/-- Texts that differ in their runs of blanks only. -/
inductive Respaced : Text → Text → Prop
  | tail {g g' : Text} : (∀ c ∈ g, isBlankChar c = true) → (∀ c ∈ g', isBlankChar c = true) →
    Respaced g g'
  | same {c : Char} {t t' : Text} : Respaced t t' → Respaced (c :: t) (c :: t')
  | gap {feeds : Bool} {g g' t t' : Text} : IsSeparator feeds g → IsSeparator feeds g' →
    Respaced t t' → Respaced (g ++ t) (g' ++ t')

variable {m g g' t t' : Text} {c : Char} {feeds : Bool}

theorem isGap_of_isBlankChar (h : isBlankChar c = true) : isGap c = true := by
  rw [isGap, h, Bool.true_or]

theorem isBlankChar_of_isGap_eq_false (h : isGap c = false) : isBlankChar c = false :=
  (Bool.or_eq_false_iff.1 h).1

theorem IsSeparator.exists_cons (h : IsSeparator feeds g) :
    ∃ c cs, g = c :: cs ∧ isBlankChar c = true := by
  obtain ⟨c, cs, rfl⟩ := List.exists_cons_of_ne_nil h.ne_nil
  exact ⟨c, cs, rfl, h.blank c List.mem_cons_self⟩

theorem isSeparator_replicate {n : Nat} (hn : n ≠ 0) (hblank : isBlankChar c = true)
    (hflat : isLineEnd c = false) : IsSeparator false (List.replicate n c) where
  ne_nil := by simpa using hn
  blank d hd := List.eq_of_mem_replicate hd ▸ hblank
  feed h := by cases h
  flat _ d hd := List.eq_of_mem_replicate hd ▸ hflat

namespace Respaced

theorem refl (t : Text) : Respaced t t := by
  induction t with
  | nil => exact .tail (by simp) (by simp)
  | cons c t ih => exact .same ih

theorem symm (h : Respaced t t') : Respaced t' t := by
  induction h with
  | tail hg hg' => exact .tail hg' hg
  | same _ ih => exact .same ih
  | gap hg hg' _ ih => exact .gap hg' hg ih

theorem of_mark (h : Respaced (c :: t) t') (hc : isBlankChar c = false) :
    ∃ u, t' = c :: u ∧ Respaced t u := by
  generalize hx : c :: t = x at h
  cases h with
  | tail hg _ =>
    subst hx
    rw [hg c List.mem_cons_self] at hc
    cases hc
  | same h =>
    cases hx
    exact ⟨_, rfl, h⟩
  | gap hg _ _ =>
    obtain ⟨d, ds, rfl, hd⟩ := hg.exists_cons
    cases hx
    rw [hd] at hc
    cases hc

theorem of_marks (h : Respaced (m ++ t) t') (hm : ∀ c ∈ m, isBlankChar c = false) :
    ∃ u, t' = m ++ u ∧ Respaced t u := by
  induction m generalizing t' with
  | nil => exact ⟨t', rfl, h⟩
  | cons c m ih =>
    rw [List.forall_mem_cons] at hm
    obtain ⟨_, rfl, hrest⟩ := of_mark h hm.1
    obtain ⟨u, rfl, hu⟩ := ih hrest hm.2
    exact ⟨u, rfl, hu⟩

theorem isOperatorAt_eq (h : Respaced t t') (c : Char) : isOperatorAt c t = isOperatorAt c t' := by
  have hhead {t t' : Text} (h : Respaced t t') (ht : t.head? = some '=') :
      t'.head? = some '=' := by
    obtain ⟨u, rfl⟩ := List.head?_eq_some_iff.1 ht
    obtain ⟨u', rfl, -⟩ := of_mark h (by decide)
    rfl
  have hiff : t.head? = some '=' ↔ t'.head? = some '=' := ⟨hhead h, hhead h.symm⟩
  rw [isOperatorAt, isOperatorAt, Bool.eq_iff_iff]
  simp [hiff]

theorem isCommentAt_eq (h : Respaced t t') (hm : PlainMarker m) :
    isCommentAt m t = isCommentAt m t' := by
  have hstart {t t' : Text} (h : Respaced t t') (ht : isCommentAt m t = true) :
      isCommentAt m t' = true := by
    obtain ⟨hne, r, rfl⟩ := isCommentAt_iff.1 ht
    obtain ⟨r', rfl, -⟩ := of_marks h fun c hc => (hm c hc).1
    exact isCommentAt_iff.2 ⟨hne, r', rfl⟩
  exact Bool.eq_iff_iff.2 ⟨hstart h, hstart h.symm⟩

end Respaced

/-! ## Words -/

/-- The same place in a word, however many characters after the quote. -/
inductive SamePlace : WordState → WordState → Prop
  | plain {b : Bool} : SamePlace (.plain b) (.plain b)
  | quoted {b : Bool} {n n' : Nat} : SamePlace (.quoted b n) (.quoted b n')
  | escaped {b : Bool} {n n' : Nat} : SamePlace (.escaped b n) (.escaped b n')

/-- Words that are both closed or both not, and the same behind them but for blanks. -/
structure Lexer.WordSpan.Alike (w w' : WordSpan) : Prop where
  unclosed : w.unclosed = none ↔ w'.unclosed = none
  rest : Respaced w.rest w'.rest

variable {s s' : WordState} {b : Bool} {n : Nat}

theorem SamePlace.next (h : SamePlace s s') (c : Char) : SamePlace (s.next c) (s'.next c) := by
  cases h with
  | escaped => exact .quoted
  | quoted =>
    rw [WordState.next, WordState.next]
    split
    · exact .plain
    · split
      · exact .escaped
      · exact .quoted
  | plain =>
    rw [WordState.next]
    split
    · exact .quoted
    · split
      · exact .plain
      · split <;> exact .plain

theorem SamePlace.stopsWord_eq (hs : SamePlace s s') (hm : PlainMarker m) (h : Respaced t t') :
    stopsWord m s c t = stopsWord m s' c t' := by
  cases hs with
  | escaped | quoted => rfl
  | plain => rw [stopsWord, stopsWord, endsWord, endsWord, h.isOperatorAt_eq,
      h.same.isCommentAt_eq hm]

theorem mark_of_blank (h : isBlankChar c = true) : c ≠ '"' ∧ c ≠ '\\' ∧ c ≠ '[' ∧ c ≠ ']' := by
  refine ⟨?_, ?_, ?_, ?_⟩ <;> rintro rfl <;> revert h <;> decide

/-- A blank inside brackets ends a word when it ends a line. -/
theorem stopsWord_bracketed (h : isBlankChar c = true) (cs : Text) :
    stopsWord m (.plain true) c cs = isLineEnd c := by
  obtain ⟨hquote, -, hopen, hclose⟩ := mark_of_blank h
  have hleft : c ≠ '{' := by rintro rfl; revert h; decide
  have hright : c ≠ '}' := by rintro rfl; revert h; decide
  simp only [stopsWord, endsWord, isLineEnd, h, bne_iff_ne.2 hquote, beq_false_of_ne hleft,
    beq_false_of_ne hright]
  simp

theorem next_plain_blank (h : isBlankChar c = true) : (WordState.plain b).next c = .plain b := by
  obtain ⟨hquote, -, hopen, hclose⟩ := mark_of_blank h
  rw [WordState.next, if_neg hquote, if_neg hopen, if_neg hclose]

theorem next_quoted_blank (h : isBlankChar c = true) :
    (WordState.quoted b n).next c = .quoted b (n + 1) := by
  obtain ⟨hquote, hescape, -, -⟩ := mark_of_blank h
  rw [WordState.next, if_neg hquote, if_neg hescape]

/-- Inside quotes, blanks belong to the word. -/
theorem spanWord_quoted_blanks (hg : ∀ c ∈ g, isBlankChar c = true) : ∃ w n',
    spanWord m (.quoted b n) (g ++ t) = { spanWord m (.quoted b n') t with word := w } := by
  induction g generalizing n with
  | nil => exact ⟨_, n, rfl⟩
  | cons c g ih =>
    rw [List.forall_mem_cons] at hg
    obtain ⟨w, n', hw⟩ := ih (n := n + 1) hg.2
    refine ⟨c :: w, n', ?_⟩
    rw [List.cons_append, spanWord_cons, if_neg (by simp [stopsWord]), next_quoted_blank hg.1, hw]
    rfl

/-- Inside brackets, blanks without line ends do. -/
theorem spanWord_bracketed_flat (hg : ∀ c ∈ g, isBlankChar c = true)
    (hflat : ∀ c ∈ g, isLineEnd c = false) : ∃ w,
      spanWord m (.plain true) (g ++ t) = { spanWord m (.plain true) t with word := w } := by
  induction g with
  | nil => exact ⟨_, rfl⟩
  | cons c g ih =>
    rw [List.forall_mem_cons] at hg hflat
    obtain ⟨w, hw⟩ := ih hg.2 hflat.2
    refine ⟨c :: w, ?_⟩
    rw [List.cons_append, spanWord_cons, stopsWord_bracketed hg.1, hflat.1, if_neg (by simp),
      next_plain_blank hg.1, hw]
    rfl

/-- Outside quotes, blanks with a line end, or at the end of the text, end a word somewhere among
them: with a line feed still to come, if there was one. -/
theorem spanWord_plain_blanks (hg : ∀ c ∈ g, isBlankChar c = true)
    (hend : t = [] ∨ ∃ c ∈ g, isLineEnd c = true) : ∃ w g₂,
      spanWord m (.plain b) (g ++ t) = ⟨w, g₂ ++ t, none⟩ ∧ (∀ c ∈ g₂, isBlankChar c = true) ∧
        ('\n' ∈ g → '\n' ∈ g₂) := by
  induction g with
  | nil =>
    obtain rfl : t = [] := by simpa using hend
    exact ⟨[], [], rfl, by simp, by simp⟩
  | cons c g ih =>
    rw [List.cons_append, spanWord_cons]
    by_cases hstop : stopsWord m (.plain b) c (g ++ t) = true
    · rw [if_pos hstop]
      exact ⟨[], c :: g, rfl, hg, id⟩
    · rw [List.forall_mem_cons] at hg
      have hline : isLineEnd c = false := by
        cases b with
        | false => exact absurd (stopsWord_blank hg.1 _) hstop
        | true => rwa [stopsWord_bracketed hg.1, Bool.not_eq_true] at hstop
      obtain ⟨w, g₂, hw, hblank, hfeed⟩ := ih hg.2 (by simpa [hline] using hend)
      refine ⟨c :: w, g₂, ?_, hblank, fun h => hfeed ?_⟩
      · rw [if_neg hstop, next_plain_blank hg.1, hw]
        rfl
      · rcases List.mem_cons.1 h with rfl | h
        · cases hline
        · exact h

theorem IsSeparator.spanWord_feeds (hg : IsSeparator true g) : ∃ w g₂,
    spanWord m (.plain true) (g ++ t) = ⟨w, g₂ ++ t, none⟩ ∧ IsSeparator true g₂ := by
  obtain ⟨w, g₂, hw, hblank, hfeed⟩ := spanWord_plain_blanks (m := m) (t := t) (b := true)
    hg.blank (.inr ⟨_, hg.feed rfl, rfl⟩)
  have hfeed := hfeed (hg.feed rfl)
  exact ⟨w, g₂, hw, List.ne_nil_of_mem hfeed, hblank, fun _ => hfeed, by simp⟩

theorem Lexer.WordSpan.Alike.cons {w w' : WordSpan} {c c' : Char} (h : w.Alike w') :
    (w.cons c).Alike (w'.cons c') :=
  ⟨h.unclosed, h.rest⟩

/-- A word with a separator behind it ends there, unless it is in quotes or in brackets. -/
theorem IsSeparator.alike (hg : IsSeparator feeds g) (hg' : IsSeparator feeds g')
    (hs : SamePlace s s') (hrest : Respaced t t')
    (h : ∀ {s s'}, SamePlace s s' → (spanWord m s t).Alike (spanWord m s' t')) :
    (spanWord m s (g ++ t)).Alike (spanWord m s' (g' ++ t')) := by
  have hquoted {b : Bool} {n n' : Nat} {g g' : Text} (hg : ∀ c ∈ g, isBlankChar c = true)
      (hg' : ∀ c ∈ g', isBlankChar c = true) :
      (spanWord m (.quoted b n) (g ++ t)).Alike (spanWord m (.quoted b n') (g' ++ t')) := by
    obtain ⟨w, i, hw⟩ := spanWord_quoted_blanks (m := m) (t := t) (b := b) (n := n) hg
    obtain ⟨w', i', hw'⟩ := spanWord_quoted_blanks (m := m) (t := t') (b := b) (n := n') hg'
    rw [hw, hw']
    exact ⟨(h .quoted).unclosed, (h .quoted).rest⟩
  have hfirst := hg.exists_cons
  have hfirst' := hg'.exists_cons
  cases hs with
  | quoted => exact hquoted hg.blank hg'.blank
  | escaped =>
    obtain ⟨c, cs, rfl, -⟩ := hfirst
    obtain ⟨c', cs', rfl, -⟩ := hfirst'
    exact (hquoted (List.forall_mem_cons.1 hg.blank).2 (List.forall_mem_cons.1 hg'.blank).2).cons
  | @plain b =>
    cases b with
    | false =>
      obtain ⟨c, cs, rfl, hc⟩ := hfirst
      obtain ⟨c', cs', rfl, hc'⟩ := hfirst'
      rw [List.cons_append, List.cons_append, spanWord_cons, spanWord_cons,
        if_pos (stopsWord_blank hc _), if_pos (stopsWord_blank hc' _)]
      exact ⟨Iff.rfl, .gap hg hg' hrest⟩
    | true =>
      cases feeds with
      | false =>
        obtain ⟨w, hw⟩ := spanWord_bracketed_flat (m := m) (t := t) hg.blank (hg.flat rfl)
        obtain ⟨w', hw'⟩ := spanWord_bracketed_flat (m := m) (t := t') hg'.blank (hg'.flat rfl)
        rw [hw, hw']
        exact ⟨(h .plain).unclosed, (h .plain).rest⟩
      | true =>
        obtain ⟨w, g₂, hw, hg₂⟩ := hg.spanWord_feeds (m := m) (t := t)
        obtain ⟨w', g₂', hw', hg₂'⟩ := hg'.spanWord_feeds (m := m) (t := t')
        rw [hw, hw']
        exact ⟨Iff.rfl, .gap hg₂ hg₂' hrest⟩

theorem alike_tail (hg : ∀ c ∈ g, isBlankChar c = true) (hg' : ∀ c ∈ g', isBlankChar c = true)
    (hs : SamePlace s s') : (spanWord m s g).Alike (spanWord m s' g') := by
  have hplain (b : Bool) {g : Text} (hg : ∀ c ∈ g, isBlankChar c = true) : ∃ w g₂,
      spanWord m (.plain b) g = ⟨w, g₂, none⟩ ∧ ∀ c ∈ g₂, isBlankChar c = true := by
    obtain ⟨w, g₂, hw, hg₂, -⟩ :=
      spanWord_plain_blanks (m := m) (t := []) (b := b) hg (.inl rfl)
    rw [List.append_nil, List.append_nil] at hw
    exact ⟨w, g₂, hw, hg₂⟩
  have hquoted (b : Bool) (n : Nat) {g : Text} (hg : ∀ c ∈ g, isBlankChar c = true) : ∃ w i,
      spanWord m (.quoted b n) g = ⟨w, [], some i⟩ := by
    obtain ⟨w, i, hw⟩ := spanWord_quoted_blanks (m := m) (t := []) (b := b) (n := n) hg
    rw [List.append_nil] at hw
    exact ⟨w, i, hw⟩
  have hescaped (b : Bool) (n : Nat) {g : Text} (hg : ∀ c ∈ g, isBlankChar c = true) : ∃ w i,
      spanWord m (.escaped b n) g = ⟨w, [], some i⟩ := by
    cases g with
    | nil => exact ⟨[], n, rfl⟩
    | cons c g =>
      obtain ⟨w, i, hw⟩ := hquoted b (n + 1) (List.forall_mem_cons.1 hg).2
      exact ⟨c :: w, i, by rw [spanWord, hw]; rfl⟩
  cases hs with
  | @plain b =>
    obtain ⟨w, g₂, hw, hg₂⟩ := hplain b hg
    obtain ⟨w', g₂', hw', hg₂'⟩ := hplain b hg'
    rw [hw, hw']
    exact ⟨Iff.rfl, .tail hg₂ hg₂'⟩
  | @quoted b n n' =>
    obtain ⟨w, i, hw⟩ := hquoted b n hg
    obtain ⟨w', i', hw'⟩ := hquoted b n' hg'
    rw [hw, hw']
    exact ⟨by simp, .refl []⟩
  | @escaped b n n' =>
    obtain ⟨w, i, hw⟩ := hescaped b n hg
    obtain ⟨w', i', hw'⟩ := hescaped b n' hg'
    rw [hw, hw']
    exact ⟨by simp, .refl []⟩

theorem spanWord_alike (hm : PlainMarker m) (h : Respaced t t') (hs : SamePlace s s') :
    (spanWord m s t).Alike (spanWord m s' t') := by
  induction h generalizing s s' with
  | tail hg hg' => exact alike_tail hg hg' hs
  | @same c t t' h ih =>
    rw [spanWord_cons, spanWord_cons, hs.stopsWord_eq hm h]
    split
    · exact ⟨Iff.rfl, .same h⟩
    · exact (ih (hs.next c)).cons
  | gap hg hg' h ih => exact hg.alike hg' hs h ih

/-! ## Operators and comments -/

theorem spanOperator_gap (h : isGap c = true) : spanOperator (c :: t) = ([], c :: t) := by
  rw [spanOperator, isOperatorAt_gap h, if_neg (by simp)]

theorem spanOperator_blanks (hg : ∀ c ∈ g, isBlankChar c = true) : spanOperator g = ([], g) := by
  cases g with
  | nil => rfl
  | cons c g => exact spanOperator_gap (isGap_of_isBlankChar (List.forall_mem_cons.1 hg).1)

theorem IsSeparator.spanOperator (h : IsSeparator feeds g) :
    spanOperator (g ++ t) = ([], g ++ t) := by
  obtain ⟨c, cs, rfl, hc⟩ := h.exists_cons
  exact spanOperator_gap (isGap_of_isBlankChar hc)

theorem spanOperator_respaced (h : Respaced t t') :
    (spanOperator t).1 = (spanOperator t').1 ∧ Respaced (spanOperator t).2 (spanOperator t').2 := by
  induction h with
  | tail hg hg' =>
    rw [spanOperator_blanks hg, spanOperator_blanks hg']
    exact ⟨rfl, .tail hg hg'⟩
  | @same c t t' h ih =>
    rw [spanOperator, spanOperator, h.isOperatorAt_eq]
    split
    · exact ⟨congrArg (c :: ·) ih.1, ih.2⟩
    · exact ⟨rfl, .same h⟩
  | gap hg hg' h _ =>
    rw [hg.spanOperator, hg'.spanOperator]
    exact ⟨rfl, .gap hg hg' h⟩

theorem dropWhile_respaced (h : Respaced t t') :
    Respaced (t.dropWhile (· ≠ '\n')) (t'.dropWhile (· ≠ '\n')) := by
  have hrest {g : Text} (hg : ∀ c ∈ g, isBlankChar c = true) :
      ∀ c ∈ g.dropWhile (· ≠ '\n'), isBlankChar c = true :=
    fun c hc => hg c ((List.dropWhile_sublist _).subset hc)
  induction h with
  | tail hg hg' => exact .tail (hrest hg) (hrest hg')
  | @same c t t' h ih =>
    by_cases hc : c = '\n'
    · subst hc
      exact .same h
    · simpa [List.dropWhile_cons, hc] using ih
  | @gap feeds g g' t t' hg hg' h ih =>
    cases feeds with
    | true =>
      have hfeeds {g t : Text} (hg : IsSeparator true g) : ∃ b,
          (g ++ t).dropWhile (· ≠ '\n') = '\n' :: b ++ t ∧ IsSeparator true ('\n' :: b) := by
        obtain ⟨a, b, rfl, ha⟩ := List.eq_append_cons_of_mem (hg.feed rfl)
        refine ⟨b, ?_, List.cons_ne_nil _ _, fun c hc => hg.blank c (List.mem_append_right _ hc),
          fun _ => List.mem_cons_self, by simp⟩
        rw [List.append_assoc, List.cons_append, dropWhile_append ha]
      obtain ⟨b, hb, hsep⟩ := hfeeds hg (t := t)
      obtain ⟨b', hb', hsep'⟩ := hfeeds hg' (t := t')
      rw [hb, hb']
      exact .gap hsep hsep' h
    | false =>
      have hflat {g : Text} (hg : IsSeparator false g) : ∀ c ∈ g, decide (c ≠ '\n') = true := by
        intro c hc
        have hline := hg.flat rfl c hc
        refine decide_eq_true ?_
        rintro rfl
        cases hline
      rw [List.dropWhile_append_of_pos (hflat hg), List.dropWhile_append_of_pos (hflat hg')]
      exact ih

/-! ## Tokens -/

/-- A token without its text, unless it is an operator. -/
def TokenKind.shape : TokenKind → TokenKind
  | word _ => word []
  | comment _ => comment []
  | illegal _ => illegal (.unterminated 0 0)
  | k => k

theorem cut_respaced (hm : PlainMarker m) (h : Respaced t t') (p q : Position) :
    (cut m p c t).kind.shape = (cut m q c t').kind.shape ∧
      Respaced (cut m p c t).rest (cut m q c t').rest := by
  have hcs := h.same (c := c)
  have hcomment := hcs.isCommentAt_eq hm
  unfold cut
  rw [← h.isOperatorAt_eq, ← hcomment]
  by_cases hstart : isCommentAt m (c :: t) = true
  · rw [if_pos hstart, if_pos hstart]
    obtain ⟨-, r, hr⟩ := isCommentAt_iff.1 hstart
    obtain ⟨r', hr', hrest⟩ := Respaced.of_marks (hr ▸ hcs) fun c hc => (hm c hc).1
    rw [← hr, hr', List.drop_left, List.drop_left]
    exact ⟨rfl, dropWhile_respaced hrest⟩
  rw [if_neg hstart, if_neg hstart]
  split
  · exact ⟨rfl, h⟩
  split
  · exact ⟨rfl, h⟩
  split
  · obtain ⟨hop, hrest⟩ := spanOperator_respaced hcs
    exact ⟨congrArg TokenKind.operator hop, hrest⟩
  split
  · exact ⟨rfl, h⟩
  obtain ⟨hclosed, hrest⟩ := spanWord_alike hm hcs (.plain (b := false))
  dsimp only
  split
  · next hnone =>
    rw [hclosed.1 hnone]
    exact ⟨rfl, hrest⟩
  · next n hsome =>
    cases hopen : (spanWord m (.plain false) (c :: t')).unclosed with
    | none =>
      rw [hclosed.2 hopen] at hsome
      cases hsome
    | some n' => exact ⟨rfl, hrest⟩

/-- Gaps in front of texts that differ in their runs of blanks only. -/
def Loosened (t t' : Text) : Prop :=
  ∃ g g' u u', t = g ++ u ∧ t' = g' ++ u' ∧ (∀ c ∈ g ++ g', isGap c = true) ∧ Respaced u u'

theorem tokensFrom_gaps (hg : ∀ c ∈ g, isGap c = true) (p : Position) :
    ∃ q, tokensFrom m p (g ++ t) = tokensFrom m q t := by
  induction g generalizing p with
  | nil => exact ⟨p, rfl⟩
  | cons c g ih =>
    rw [List.forall_mem_cons] at hg
    rw [List.cons_append, tokensFrom_gap hg.1]
    exact ih hg.2 _

theorem Respaced.loosened (h : Respaced t t') : Loosened t t' :=
  ⟨[], [], t, t', rfl, rfl, by simp, h⟩

theorem Loosened.of_gap (h : Loosened (c :: t) t') (hc : isGap c = true) : Loosened t t' := by
  obtain ⟨g, g', u, u', hu, rfl, hgaps, h⟩ := h
  cases g with
  | cons d g =>
    cases hu
    exact ⟨g, g', u, u', rfl, rfl, fun c hc => hgaps c (List.mem_cons_of_mem _ hc), h⟩
  | nil =>
    subst hu
    generalize hx : c :: t = x at h
    cases h with
    | tail hg hg' =>
      subst hx
      exact ⟨[], g', t, _, rfl, rfl, hgaps, .tail (List.forall_mem_cons.1 hg).2 hg'⟩
    | @same d t t' h =>
      cases hx
      refine ⟨[], g' ++ [c], t, t', rfl, by simp, ?_, h⟩
      simpa [or_imp, forall_and] using ⟨hgaps, hc⟩
    | @gap feeds d d' t t' hg hg' h =>
      obtain ⟨e, ds, rfl, -⟩ := hg.exists_cons
      cases hx
      refine ⟨ds, g' ++ d', t, t', rfl, by simp, fun c hc => ?_, h⟩
      rw [List.mem_append, List.mem_append] at hc
      rcases hc with hc | hc | hc
      · exact isGap_of_isBlankChar (hg.blank c (List.mem_cons_of_mem _ hc))
      · exact hgaps c hc
      · exact isGap_of_isBlankChar (hg'.blank c hc)

theorem Loosened.of_mark (h : Loosened (c :: t) t') (hc : isGap c = false) :
    ∃ g u, t' = g ++ c :: u ∧ (∀ c ∈ g, isGap c = true) ∧ Respaced t u := by
  obtain ⟨g, g', u, u', hu, rfl, hgaps, h⟩ := h
  cases g with
  | cons d g =>
    cases hu
    rw [hgaps _ List.mem_cons_self] at hc
    cases hc
  | nil =>
    subst hu
    obtain ⟨v, rfl, hv⟩ := Respaced.of_mark h (isBlankChar_of_isGap_eq_false hc)
    exact ⟨g', v, rfl, hgaps, hv⟩

theorem Loosened.of_nil (h : Loosened [] t') : ∀ c ∈ t', isGap c = true := by
  obtain ⟨g, g', u, u', hu, rfl, hgaps, h⟩ := h
  obtain ⟨rfl, rfl⟩ := List.append_eq_nil_iff.1 hu.symm
  have hblank : ∀ c ∈ u', isBlankChar c = true := by
    generalize hx : ([] : Text) = x at h
    cases h with
    | tail _ hg' => exact hg'
    | same _ => cases hx
    | gap hg _ _ => exact absurd (List.append_eq_nil_iff.1 hx.symm).1 hg.ne_nil
  exact List.forall_mem_append.2 ⟨hgaps, fun c hc => isGap_of_isBlankChar (hblank c hc)⟩

theorem shapes_eq (hm : PlainMarker m) (p q : Position) (h : Loosened t t') :
    (tokensFrom m p t).map (·.kind.shape) = (tokensFrom m q t').map (·.kind.shape) := by
  fun_induction tokensFrom m p t generalizing q t' with
  | case1 p =>
    obtain ⟨q', hq'⟩ := tokensFrom_gaps (m := m) (t := []) h.of_nil q
    rw [List.append_nil] at hq'
    rw [hq', tokensFrom_nil]
    rfl
  | case2 p c cs hgap ih => exact ih q (h.of_gap hgap)
  | case3 p c cs hgap x after =>
    rename_i ih
    rw [Bool.not_eq_true] at hgap
    obtain ⟨g, u, rfl, hg, hu⟩ := h.of_mark hgap
    obtain ⟨q', hq'⟩ := tokensFrom_gaps (m := m) (t := c :: u) hg q
    obtain ⟨hshape, hrest⟩ := cut_respaced hm hu p q'
    rw [hq', tokensFrom_cut hgap, List.map_cons, List.map_cons, hshape, ih _ hrest.loosened]

end GameScript
