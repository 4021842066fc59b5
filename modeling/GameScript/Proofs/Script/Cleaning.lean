import GameScript.Proofs.Script.Conservation
import GameScript.Proofs.Script.Evident
import GameScript.Proofs.Script.Steady

/-!
# Cleaning takes comments off lines

Cleaning cuts each line at its first comment outside quotes and trims it. What ends a token there
still ends it when it is cut short so (`CutsOff.cutShort`). So a line whose words are evident to the
pass over characters is read as before but for its comment (`readsLike_cleaned`), and so are lines
of which none runs on into the next (`cleanLines_alike`).
-/

namespace GameScript

open Text Lexer

/-- Whether `r'` is what may be left of `r` when a comment and blanks are cut off its end. -/
structure CutShort (m r r' : Text) : Prop where
  front : ∃ x, r = r' ++ x ∧ x.head? ≠ some '='
  comment : isCommentAt m r = true → r' = []

/-- The kinds of tokens but comments, without the places of quotes. -/
def essence (ts : List Token) : List TokenKind :=
  (ts.filter (!·.kind.isComment)).map (·.kind.unplaced)

section

variable {m r r' t u w g before whole : Text} {c d : Char} {cs : Text} {k : TokenKind}
  {p : Position} {quoted b : Bool} {s : WordState} {ls : List Text} {ts us : List Token}

/-! ## What is cut off a line -/

theorem beforeComment_front (m : Text) (quoted : Bool) (t : Text) :
    ∃ x, t = beforeComment m quoted t ++ x ∧ (x = [] ∨ isCommentAt m x = true) := by
  induction t generalizing quoted with
  | nil => exact ⟨[], rfl, .inl rfl⟩
  | cons c t ih =>
    rw [beforeComment]
    split
    · obtain ⟨x, hx, hend⟩ := ih (!quoted)
      exact ⟨x, congrArg (c :: ·) hx, hend⟩
    · split
      · next hcomment =>
        rw [Bool.and_eq_true] at hcomment
        exact ⟨c :: t, rfl, .inr hcomment.2⟩
      · obtain ⟨x, hx, hend⟩ := ih quoted
        exact ⟨x, congrArg (c :: ·) hx, hend⟩

theorem trimEnd_front (t : Text) : ∃ g, t = trimEnd t ++ g ∧ ∀ c ∈ g, isBlankChar c = true := by
  refine ⟨(t.reverse.takeWhile isBlankChar).reverse, ?_, fun c hc => ?_⟩
  · rw [trimEnd, ← List.reverse_append, List.takeWhile_append_dropWhile, List.reverse_reverse]
  · exact List.mem_takeWhile_imp (List.mem_reverse.1 hc)

theorem cutShort_cleaned (hm : IsRepeated m) (r : Text) :
    CutShort m r (trimEnd (beforeComment m false r)) where
  front := by
    obtain ⟨x, hx, hend⟩ := beforeComment_front m false r
    obtain ⟨g, hg, hblank⟩ := trimEnd_front (beforeComment m false r)
    refine ⟨g ++ x, by rw [← List.append_assoc, ← hg, ← hx], ?_⟩
    cases g with
    | cons c g =>
      rintro ⟨⟩
      exact absurd (hblank '=' List.mem_cons_self) (by decide)
    | nil =>
      rcases hend with rfl | hcomment
      · exact Option.some_ne_none _ ∘ Eq.symm
      · intro hhead
        obtain ⟨cs, rfl⟩ := List.head?_eq_some_iff.1 hhead
        have hop : isOperatorAt '=' cs = true := rfl
        have hforeign : '=' ∉ m := hm.plain.operator hop
        exact Bool.false_ne_true ((isCommentAt_foreign hforeign cs).symm.trans hcomment)
  comment hcomment := by
    cases r with
    | nil => rfl
    | cons c r =>
      have hquote : c ≠ '"' := by
        rintro rfl
        have hforeign : '"' ∉ m := hm.foreign (.inr (.inr (by simp)))
        exact Bool.false_ne_true ((isCommentAt_foreign hforeign r).symm.trans hcomment)
      rw [beforeComment, if_neg hquote, hcomment]
      rfl

/-! ## Tokens in front of less -/

theorem CutShort.exists_cons (h : CutShort m r (c :: cs)) : ∃ t, r = c :: t := by
  obtain ⟨x, rfl, -⟩ := h.front
  exact ⟨cs ++ x, rfl⟩

theorem CutShort.isOperatorAt (h : CutShort m (c :: t) (c :: cs)) :
    isOperatorAt c cs = isOperatorAt c t := by
  obtain ⟨x, hx, hhead⟩ := h.front
  obtain rfl : t = cs ++ x := (List.cons.inj hx).2
  cases cs with
  | nil => simp [Lexer.isOperatorAt, hhead]
  | cons d cs => rfl

theorem CutShort.stopsWord (h : CutShort m (c :: t) (c :: cs)) :
    stopsWord m (.plain b) c cs = stopsWord m (.plain b) c t := by
  have hlong : isCommentAt m (c :: t) = false := Bool.eq_false_iff.2 fun hat =>
    List.cons_ne_nil c cs (h.comment hat)
  obtain ⟨x, hx, -⟩ := h.front
  have hshort : isCommentAt m (c :: cs ++ []) = false :=
    isCommentAt_before (hx ▸ hlong) fun d hd => by cases hd
  rw [List.append_nil] at hshort
  simp only [Lexer.stopsWord, endsWord, hlong, hshort, h.isOperatorAt]

/-- No operator begins at the end of a word and goes on behind it. -/
theorem CutsOff.not_operator_across (h : CutsOff m (.word w) r) (hw : w.getLast? = some '?') :
    r.head? ≠ some '=' := by
  intro hr
  obtain ⟨u, rfl⟩ := List.getLast?_eq_some_iff.1 hw
  obtain ⟨r', rfl⟩ := List.head?_eq_some_iff.1 hr
  obtain ⟨b, hgoes, hend⟩ := h.before_last (by decide) (by decide) (by decide)
  have hstops := stopsWord_of_spanWord hend
  cases b with
  | false =>
    have hno : Lexer.stopsWord m (.plain false) '?' ('=' :: r') = true := rfl
    exact Bool.false_ne_true (hgoes.symm.trans hno)
  | true =>
    -- inside brackets an equals sign would belong to the word
    have hno : Lexer.stopsWord m (.plain true) '=' r' = false := rfl
    exact Bool.false_ne_true (hno.symm.trans hstops)

theorem spanOperator_rest {o : Text} (h : spanOperator (o ++ c :: cs) = (o, c :: cs)) :
    isOperatorAt c cs = false := by
  induction o with
  | nil =>
    rw [List.nil_append, spanOperator] at h
    split at h
    · cases (Prod.mk.inj h).1
    · next hno => exact Bool.eq_false_iff.2 hno
  | cons d o ih => exact ih (of_spanOperator_cons h).2

/-- **What ends a token still ends it when it is cut short.** -/
theorem CutsOff.cutShort (hm : IsRepeated m) (h : CutsOff m k r) (hr : CutShort m r r') :
    CutsOff m k r' := by
  cases k with
  | openBrace => exact cutsOff_openBrace hm.plain.openBrace
  | closeBrace => exact cutsOff_closeBrace hm.plain.closeBrace
  | operator o =>
    refine h.operator_before (isCommentAt_operator hm.plain h r') ?_
    rintro c cs rfl
    obtain ⟨t, rfl⟩ := hr.exists_cons
    obtain ⟨_, _, _, _, _, hspan⟩ := cutsOff_operator_iff.1 h
    rw [hr.isOperatorAt]
    exact spanOperator_rest hspan
  | word w =>
    obtain ⟨_, _, _, _, _, hspan⟩ := cutsOff_word_iff.1 h
    have hend := spanWord_after hspan
    refine h.word_before ⟨fun b hends => ?_, ?_⟩ fun hw => ?_
    · cases r' with
      | nil => rfl
      | cons c cs =>
        obtain ⟨t, rfl⟩ := hr.exists_cons
        rw [spanWord_cons, hr.stopsWord, stopsWord_of_spanWord hends, if_pos rfl]
    · intro d hd hmem
      obtain ⟨cs, rfl⟩ := List.head?_eq_some_iff.1 hd
      obtain ⟨t, rfl⟩ := hr.exists_cons
      obtain ⟨b, hb⟩ := plain_of_spanWord hend
      rw [hb] at hend
      have hstops := stopsWord_of_spanWord hend
      rw [stopsWord_of_mem hm hmem, Bool.and_eq_true] at hstops
      exact List.cons_ne_nil d cs (hr.comment hstops.2)
    · intro hhead
      obtain ⟨cs, rfl⟩ := List.head?_eq_some_iff.1 hhead
      obtain ⟨t, rfl⟩ := hr.exists_cons
      exact h.not_operator_across hw rfl
  | comment body | endOfInput | illegal cause =>
    obtain ⟨c, cs, hnil, -⟩ := h
    cases hnil

/-! ## Lines -/

/-- Whether cleaning copies a token of these characters and closes the quotes in it, as far as they
are closed. -/
def IsCopied (m : Text) (k : TokenKind) (u : Text) : Prop :=
  beforeComment m false u = u ∧ (k.isUnclosed = true ∨ u.count '"' % 2 = 0)

instance (m : Text) (k : TokenKind) (u : Text) : Decidable (IsCopied m k u) :=
  inferInstanceAs (Decidable (_ ∧ _))

/-- What cleaning asks of a token of these characters: it stands on one line, leaves no bracket
open, and is copied if it is intricate. -/
structure IsCleanable (m : Text) (k : TokenKind) (u : Text) : Prop where
  line : '\n' ∉ u
  closed : ∀ w, k = .word w → leavesOpen w = false
  copied : k.isComment = false → IsIntricate u → IsCopied m k u

theorem essence_cons (t : Token) (ts : List Token) : essence (t :: ts) =
    if t.kind.isComment then essence ts else t.kind.unplaced :: essence ts := by
  cases h : t.kind.isComment <;> simp [essence, h]

theorem ReadsLike.gap {ks : List TokenKind} (h : ReadsLike m t ks) (hgap : isGap c = true) :
    ReadsLike m (c :: t) ks := fun p => by
  rw [tokensFrom_gap hgap, h]

/-- One blank end less: a gap in front is trimmed with all that follows, or stays. -/
theorem readsLike_trimEnd_gap {ks : List TokenKind} (h : ReadsLike m (trimEnd t) ks)
    (hgap : isGap c = true) : ReadsLike m (trimEnd (c :: t)) ks := by
  cases hblank : isBlankChar c with
  | true =>
    rw [trimEnd_cons_blank hblank]
    split
    · next hnil => rwa [hnil] at h
    · exact h.gap hgap
  | false =>
    have hstays : trimEnd (c :: t) = c :: trimEnd t := trimEnd_append (t := []) hblank
    rw [hstays]
    exact h.gap hgap

theorem unclosed_blanks (hg : ∀ c ∈ g, isBlankChar c = true) :
    (spanWord m (.plain b) g).unclosed = none := by
  induction g with
  | nil => rfl
  | cons c g ih =>
    rw [List.forall_mem_cons] at hg
    have hspecial {d : Char} (hd : isBlankChar d = false) : c ≠ d := by
      rintro rfl
      exact Bool.false_ne_true (hd.symm.trans hg.1)
    have hnext : (WordState.plain b).next c = .plain b := by
      rw [WordState.next, if_neg (hspecial (by decide)), if_neg (hspecial (by decide)),
        if_neg (hspecial (by decide))]
    rw [spanWord_cons, hnext]
    split
    · rfl
    · exact ih hg.2

/-- Blanks close no quote. -/
theorem unclosed_of_append (hg : ∀ c ∈ g, isBlankChar c = true)
    (h : (spanWord m s (t ++ g)).unclosed ≠ none) : (spanWord m s t).unclosed ≠ none := by
  induction t generalizing s with
  | nil =>
    cases s with
    | quoted b n | escaped b n => exact Option.some_ne_none _
    | plain b => exact absurd (unclosed_blanks hg) h
  | cons c t ih =>
    rw [List.cons_append, spanWord_cons] at h
    split at h
    · exact absurd rfl h
    · next hgoes =>
      have hgoes' : stopsWord m s c (t ++ []) = false :=
        stopsWord_before (looser_refl s) (fun d hd => by cases hd) (fun _ => by simp)
          (Bool.eq_false_iff.2 hgoes)
      rw [List.append_nil] at hgoes'
      rw [spanWord_cons, if_neg (by simp [hgoes'])]
      exact ih h

theorem CutsOff.bounded (h : CutsOff m k r) (hclosed : ∀ w, k = .word w → leavesOpen w = false) :
    Bounded k.lexeme := by
  by_cases hword : ∃ w, k = .word w
  · obtain ⟨w, rfl⟩ := hword
    obtain ⟨c, cs, ds, d, hfirst, hlast, hc, -, hd, -⟩ := h.closed_ends (hclosed w rfl)
    exact ⟨⟨c, cs, hfirst, hc⟩, ds, d, hlast, hd⟩
  · exact (h.isPiece_mark fun w hw => hword ⟨w, hw⟩).1.bounded

/-- What is cut off ends with a mark, and is read in front of what is left of the rest. -/
theorem readsLike_cutShort {ks : List TokenKind} (hm : IsRepeated m) (hgap : isGap c = false)
    (hcomment : (cut m p c cs).kind.isComment = false)
    (hunclosed : (cut m p c cs).kind.isUnclosed = false)
    (hclosed : ∀ w, (cut m p c cs).kind = .word w → leavesOpen w = false)
    (hr : CutShort m (cut m p c cs).rest r') (h : ReadsLike m r' ks) :
    Bounded (cut m p c cs).lexeme ∧
      ReadsLike m ((cut m p c cs).lexeme ++ r') ((cut m p c cs).kind.unplaced :: ks) := by
  rcases cutsOff_or_control hgap hcomment hunclosed with ⟨hlexeme, hcut⟩ | ⟨hcontrol, hall⟩
  · rw [hlexeme]
    exact ⟨hcut.bounded hclosed, h.token (hcut.cutShort hm hr)⟩
  · have hforeign : c ∉ m := hm.foreign (.inr (.inl hcontrol))
    have hmark : isBlankChar c = false := (Bool.or_eq_false_iff.1 hgap).1
    rw [hall]
    refine ⟨bounded_of_marks (List.cons_ne_nil c []) (List.forall_mem_singleton.2 hmark), ?_⟩
    exact h.cons hgap fun p => ⟨_, _, cut_control (isCommentAt_foreign hforeign r') hcontrol, rfl⟩

theorem readsLike_trimEnd_unterminated {i j : Nat} (hgap : isGap c = false)
    (hkind : (cut m p c cs).kind = .illegal (.unterminated i j)) :
    ReadsLike m (trimEnd (c :: cs)) [.illegal (.unterminated 0 0), .endOfInput] := by
  have hmark : isBlankChar c = false := (Bool.or_eq_false_iff.1 hgap).1
  have hstays : trimEnd (c :: cs) = c :: trimEnd cs := trimEnd_append (t := []) hmark
  obtain ⟨g, hg, hblank⟩ := trimEnd_front cs
  have hs := startsWord_of_unterminated hkind
  have hu := unclosed_of_unterminated hkind
  rw [hg] at hs hu
  have hstarts : StartsWord m c (trimEnd cs ++ []) :=
    { hs with
      comment := isCommentAt_before (t := c :: trimEnd cs) hs.comment fun d hd => by cases hd
      operator := isOperatorAt_before hs.operator fun _ => by simp }
  rw [List.append_nil] at hstarts
  have hunclosed := unclosed_of_append (t := c :: trimEnd cs) hblank hu
  rw [hstays]
  refine readsLike_nil.cons hgap fun p => ?_
  obtain ⟨i, j, hcut⟩ := cut_unterminated hstarts hunclosed
  exact ⟨_, _, hcut, rfl⟩

/-- A quote that is never closed is copied by cleaning, if it is cleanable. -/
theorem IsCleanable.beforeComment_unterminated {i j : Nat} (hm : IsRepeated m)
    (hkind : (cut m p c cs).kind = .illegal (.unterminated i j))
    (h : IsCleanable m (cut m p c cs).kind (cut m p c cs).lexeme) :
    beforeComment m false (c :: cs) = c :: cs := by
  have hu := unclosed_of_unterminated hkind
  obtain ⟨_, _, hcut⟩ := cut_unterminated (p := p) (startsWord_of_unterminated hkind) hu
  rw [hcut] at h
  by_cases hintricate : IsIntricate (c :: cs)
  · exact (h.copied rfl hintricate).1
  · obtain ⟨hword, hrest⟩ := spanWord_unclosed hu
    have htakes := takes_spanWord (m := m) (.plain false) (c :: cs)
    rw [hword, hrest] at htakes
    obtain ⟨-, -, hcopied, -⟩ := htakes.seen_start hm hintricate
    exact hcopied

theorem IsCleanable.isEvident (hm : IsRepeated m) (hgap : isGap c = false)
    (hw : (cut m p c cs).kind = .word w)
    (h : IsCleanable m (cut m p c cs).kind (cut m p c cs).lexeme) : IsEvident m w := by
  have hcomment : (cut m p c cs).kind.isComment = false := by rw [hw]; rfl
  have hclosed : (cut m p c cs).kind.isUnclosed = false := by rw [hw]; rfl
  rcases cutsOff_or_control hgap hcomment hclosed with ⟨hlexeme, hcut⟩ | ⟨-, hall⟩
  · rw [hw] at hlexeme hcut h
    rw [hlexeme] at h
    by_cases hintricate : IsIntricate w
    · obtain ⟨hcopied, heven⟩ := h.copied rfl hintricate
      exact ⟨hcopied, heven.resolve_left Bool.false_ne_true⟩
    · exact (hcut.isTraceless hm hintricate).1
  · rw [hall] at hw
    cases hw

/-- **A line is cleaned of its comment only.** -/
theorem readsLike_cleaned (hm : IsRepeated m) (hline : '\n' ∉ t) (hwhole : before ++ t <+: whole)
    (h : AllPieces (IsCleanable m) m whole before t) :
    ReadsLike m (trimEnd (beforeComment m false t))
      (essence (tokensFrom m (.behind before) t)) := by
  generalize hp : Position.behind before = p
  fun_induction tokensFrom m p t generalizing before with
  | case1 p => exact readsLike_nil
  | case2 p c cs hgap ih =>
    subst hp
    have hc : c ∉ m ∧ c ≠ '"' := ⟨hm.foreign (.inl hgap), by rintro rfl; cases hgap⟩
    have hpass : Passes m cs false [c] := passes_of_foreign (List.forall_mem_singleton.2 hc)
    have hrest := ih (fun hmem => hline (List.mem_cons_of_mem c hmem)) (by simpa using hwhole)
      ((allPieces_gap hgap).1 h) (next_behind before c).symm
    rw [← List.singleton_append, hpass.beforeComment_append]
    exact readsLike_trimEnd_gap hrest hgap
  | case3 p c cs hgap x after =>
    rename_i ih
    subst hp
    have hgap : isGap c = false := by simpa using hgap
    have hall : x.lexeme ++ x.rest = c :: cs := cut_append ..
    obtain ⟨hpiece, hrest⟩ := (allPieces_cut hgap hwhole).1 h
    rw [essence_cons]
    by_cases hat : isCommentAt m (c :: cs) = true
    · -- the comment takes the rest of the line
      obtain ⟨body, hx⟩ : ∃ body, x = ⟨.comment body, c :: cs, []⟩ := cut_lastComment hat hline
      rw [(cutShort_cleaned hm (c :: cs)).comment hat, hx, tokensFrom_nil]
      exact readsLike_nil
    · have hcomment : x.kind.isComment = false := not_isComment_cut (Bool.eq_false_iff.2 hat)
      rw [hcomment, if_neg Bool.false_ne_true]
      cases hu : x.kind.isUnclosed with
      | true =>
        obtain ⟨i, j, hkind⟩ := isUnclosed_iff.1 hu
        obtain ⟨i', j', hx⟩ : ∃ i j, x = ⟨.illegal (.unterminated i j), c :: cs, []⟩ :=
          cut_unterminated (startsWord_of_unterminated hkind) (unclosed_of_unterminated hkind)
        rw [hpiece.beforeComment_unterminated hm hkind, hx, tokensFrom_nil]
        exact readsLike_trimEnd_unterminated hgap hkind
      | false =>
        have hword : ∀ w, x.kind = .word w → IsEvident m w := fun w hw =>
          hpiece.isEvident hm hgap hw
        have hin : '\n' ∉ x.rest := fun hmem => hline (hall ▸ List.mem_append_right _ hmem)
        have hplace : before ++ x.lexeme ++ x.rest <+: whole := by
          rwa [List.append_assoc, hall]
        have hread := ih hin hplace hrest (advance_behind _ _).symm
        have hpass : Passes m x.rest false x.lexeme := passes_cut hm hgap hcomment hu hword
        obtain ⟨hbounded, hcut⟩ := readsLike_cutShort hm hgap hcomment hu hpiece.closed
          (cutShort_cleaned hm x.rest) hread
        rw [← hall, hpass.beforeComment_append, hbounded.trimEnd_append]
        exact hcut

/-! ## All lines -/

def inner (m t : Text) : List TokenKind := ((tokens m t).map (·.kind.unplaced)).dropLast

theorem map_unplaced_eq (m : Text) (p : Position) (t : Text) :
    (tokensFrom m p t).map (·.kind.unplaced) = inner m t ++ [.endOfInput] := by
  obtain ⟨ts, q, hts, -⟩ := tokensFrom_eq_append (m := m) {} t
  rw [unplaced_tokensFrom {} p, inner, tokens, hts, List.map_append, List.map_singleton,
    List.dropLast_concat]
  rfl

theorem essence_eq (m : Text) (p : Position) (t : Text) :
    essence (tokensFrom m p t) = (inner m t).filter (!·.isComment) ++ [.endOfInput] := by
  have hall : essence (tokensFrom m p t) =
      ((tokensFrom m p t).map (·.kind.unplaced)).filter (!·.isComment) := by
    rw [essence, List.filter_map]
    exact congrArg _ (List.filter_congr fun x _ => by simp)
  rw [hall, map_unplaced_eq, List.filter_append]
  rfl

theorem plainKinds_unplaced (m t : Text) : (plainKinds m t).map (·.unplaced) =
    (inner m t).filter (!·.isComment) ++ [.endOfInput] := by
  rw [plainKinds_eq_map, List.map_map, ← essence_eq m {} t]
  rfl

theorem inner_cleaned (hm : IsRepeated m) (hline : '\n' ∉ t) (hwhole : before ++ t <+: whole)
    (h : AllPieces (IsCleanable m) m whole before t) :
    inner m (trimEnd (beforeComment m false t)) = (inner m t).filter (!·.isComment) := by
  have hread := readsLike_cleaned hm hline hwhole h {}
  rw [map_unplaced_eq, essence_eq] at hread
  exact List.append_cancel_right hread

theorem closesQuotes_iff_inner : ClosesQuotes m t ↔ ∀ k ∈ inner m t, k.isUnclosed = false := by
  have hall : ClosesQuotes m t ↔
      ∀ k ∈ (tokens m t).map (·.kind.unplaced), k.isUnclosed = false := by
    rw [ClosesQuotes, kinds, List.forall_mem_map, List.forall_mem_map]
    exact forall₂_congr fun x _ => by rw [isUnclosed_unplaced]
  rw [hall, tokens, map_unplaced_eq, List.forall_mem_append]
  exact and_iff_left (List.forall_mem_singleton.2 rfl)

/-- White space has no tokens. -/
theorem inner_of_isBlank (h : isBlank t = true) : inner m t = [] := by
  have hgaps : ∀ c ∈ t, isGap c = true := fun c hc => by
    rw [isGap, List.all_eq_true.1 h c hc, Bool.true_or]
  have hread := readsAs_nil.gaps (m := m) hgaps {}
  rw [List.append_nil] at hread
  have hkinds : (tokens m t).map (·.kind.unplaced) =
      ((tokens m t).map (·.kind)).map (·.unplaced) := by
    rw [List.map_map]
    rfl
  rw [inner, hkinds, tokens, hread]
  rfl

/-- The tokens of lines are those of one line after the other, where no quote is left open between
them. -/
theorem inner_unlines (hm : '\n' ∉ m) (hls : ∀ l ∈ ls, '\n' ∉ l)
    (hclosed : ∀ l ∈ ls.dropLast, ClosesQuotes m l) :
    inner m (unlines ls) = ls.flatMap (inner m) := by
  induction ls with
  | nil => exact inner_of_isBlank rfl
  | cons l ls ih =>
    rw [List.flatMap_cons]
    cases ls with
    | nil => rw [List.flatMap_nil, List.append_nil, unlines, join]
    | cons l' ls =>
      rw [List.forall_mem_cons] at hls
      rw [List.dropLast_cons_of_ne_nil (List.cons_ne_nil _ _), List.forall_mem_cons] at hclosed
      have hsplit := tokensFrom_feed (p := {}) (r := unlines (l' :: ls)) hm hls.1
        (closesQuotes_iff.1 hclosed.1)
      have hall := map_unplaced_eq m {} (unlines (l :: l' :: ls))
      rw [unlines_cons_cons, hsplit, List.map_append, List.map_dropLast, map_unplaced_eq,
        map_unplaced_eq, List.dropLast_concat, ← List.append_assoc] at hall
      rw [← ih hls.2 hclosed.2, unlines_cons_cons, ← List.append_cancel_right hall]

/-- Cleaning leaves a part of a line. -/
theorem cleaned_subset (m t : Text) : trimEnd (beforeComment m false t) ⊆ t := by
  obtain ⟨x, hx, -⟩ := beforeComment_front m false t
  obtain ⟨g, hg, -⟩ := trimEnd_front (beforeComment m false t)
  have hfront : trimEnd (beforeComment m false t) ⊆ beforeComment m false t := by
    conv_rhs => rw [hg]
    exact List.subset_append_left _ g
  refine List.Subset.trans hfront ?_
  conv_rhs => rw [hx]
  exact List.subset_append_left _ x

theorem dropLast_filter_subset {α : Type} (q : α → Bool) (xs : List α) :
    (xs.filter q).dropLast ⊆ xs.dropLast := by
  induction xs using List.reverseRecOn with
  | nil => exact List.Subset.refl []
  | append_singleton xs x =>
    rw [List.filter_append, List.dropLast_concat]
    cases hx : q x with
    | true =>
      rw [List.filter_cons_of_pos hx, List.filter_nil, List.dropLast_concat]
      exact List.filter_subset_self xs
    | false =>
      rw [List.filter_cons_of_neg (by simp [hx]), List.filter_nil, List.append_nil]
      exact List.Subset.trans (List.dropLast_subset _) (List.filter_subset_self xs)

theorem flatMap_filter_of_nil {α β : Type} {q : α → Bool} {f : α → List β} {xs : List α}
    (h : ∀ x ∈ xs, q x = false → f x = []) : (xs.filter q).flatMap f = xs.flatMap f := by
  induction xs with
  | nil => rfl
  | cons x xs ih =>
    rw [List.forall_mem_cons] at h
    cases hx : q x with
    | true => rw [List.filter_cons_of_pos hx, List.flatMap_cons, List.flatMap_cons, ih h.2]
    | false =>
      rw [List.filter_cons_of_neg (by simp [hx]), List.flatMap_cons, h.1 hx, ih h.2,
        List.nil_append]

/-- Cleaning takes the comments off lines, each by itself. -/
theorem inner_cleanLines {f : ScriptSettings} {file : Text} (hm : IsRepeated (f.marker file))
    (hls : ∀ l ∈ ls, '\n' ∉ l)
    (h : AllPieces (IsCleanable (f.marker file)) (f.marker file) (unlines ls) [] (unlines ls)) :
    inner (f.marker file) (unlines (f.cleanLines file ls)) =
      (inner (f.marker file) (unlines ls)).filter (!·.isComment) := by
  rw [ScriptSettings.cleanLines]
  generalize f.marker file = m at hm h ⊢
  have hend : IsCleanable m .endOfInput [] :=
    ⟨List.not_mem_nil, fun w hw => (by cases hw), fun _ hmem => (by simp [IsIntricate] at hmem)⟩
  obtain ⟨hpieces, hquotes⟩ := h.lines hm.feed_not_mem hls hend (fun k u hk => hk.line)
    (List.prefix_refl _)
  have hclean : ∀ l ∈ ls, inner m (trimEnd (beforeComment m false l)) =
      (inner m l).filter (!·.isComment) := fun l hl => by
    obtain ⟨front, hwhole, hpiece⟩ := hpieces l hl
    exact inner_cleaned hm (hls l hl) hwhole hpiece
  have hfeeds : ∀ l ∈ (ls.map fun l => trimEnd (beforeComment m false l)).filter (!isBlank ·),
      '\n' ∉ l := by
    intro l hl hmem
    obtain ⟨l', hl', rfl⟩ := List.mem_map.1 (List.mem_filter.1 hl).1
    exact hls l' hl' (cleaned_subset m l' hmem)
  have hclosed : ∀ l ∈ ((ls.map fun l => trimEnd (beforeComment m false l)).filter
      (!isBlank ·)).dropLast, ClosesQuotes m l := by
    intro l hl
    have hmem := dropLast_filter_subset _ _ hl
    rw [← List.map_dropLast] at hmem
    obtain ⟨l', hl', rfl⟩ := List.mem_map.1 hmem
    have hquote := closesQuotes_iff_inner.1 (hquotes l' hl')
    rw [closesQuotes_iff_inner, hclean l' (List.dropLast_subset _ hl')]
    exact fun k hk => hquote k (List.mem_filter.1 hk).1
  rw [inner_unlines hm.feed_not_mem hfeeds hclosed, inner_unlines hm.feed_not_mem hls hquotes,
    flatMap_filter_of_nil, List.flatMap_map, List.filter_flatMap]
  · exact List.flatMap_congr hclean
  · exact fun l _ hblank => inner_of_isBlank (by simpa using hblank)

end

theorem unplaced_eq_self {k : TokenKind} (h : k.isUnclosed = false) : k.unplaced = k := by
  fun_cases TokenKind.unplaced k with
  | case1 i j => cases h
  | case2 k hk => rfl

theorem map_unplaced_eq_self {ks : List TokenKind} (h : ∀ k ∈ ks, k.isUnclosed = false) :
    ks.map (·.unplaced) = ks :=
  (List.map_congr_left fun k hk => unplaced_eq_self (h k hk)).trans (List.map_id ks)

/-- **Cleaning takes off comments only.** Let no token go on over the end of a line, no word leave a
bracket open, and every intricate token be copied by a pass that cuts comments. Then cleaning leaves
the tokens but the comments, up to the place of a quote that is never closed. -/
theorem cleanLines_alike {s : ScriptSettings} {file : Text} {ls : List Text}
    (hm : s.marker file ∈ usualMarkers) (hls : ∀ l ∈ ls, '\n' ∉ l)
    (hlines : ∀ x ∈ tokens (s.marker file) (unlines ls), '\n' ∉ x.span.slice (unlines ls))
    (hclosed : ∀ w, .word w ∈ kinds (s.marker file) (unlines ls) → leavesOpen w = false)
    (hcopied : ∀ x ∈ tokens (s.marker file) (unlines ls), x.kind.isComment = false →
      IsIntricate (x.span.slice (unlines ls)) →
      IsCopied (s.marker file) x.kind (x.span.slice (unlines ls))) :
    (plainKinds (s.marker file) (unlines (s.cleanLines file ls))).map (·.unplaced) =
        (plainKinds (s.marker file) (unlines ls)).map (·.unplaced) ∧
      (∀ k ∈ kinds (s.marker file) (unlines (s.cleanLines file ls)), k.isComment = false) ∧
      ((∀ k ∈ kinds (s.marker file) (unlines ls), k.isUnclosed = false) →
        plainKinds (s.marker file) (unlines (s.cleanLines file ls)) =
          plainKinds (s.marker file) (unlines ls)) := by
  have hpieces : AllPieces (IsCleanable (s.marker file)) (s.marker file) (unlines ls) []
      (unlines ls) := fun x hx =>
    ⟨hlines x hx, fun w hw => hclosed w (hw ▸ List.mem_map_of_mem hx), hcopied x hx⟩
  have hinner := inner_cleanLines (isRepeated_of_usual hm) hls hpieces
  generalize s.marker file = m at *
  generalize unlines (s.cleanLines file ls) = cleaned at *
  have hplain : (plainKinds m cleaned).map (·.unplaced) =
      (plainKinds m (unlines ls)).map (·.unplaced) := by
    rw [plainKinds_unplaced, plainKinds_unplaced, hinner, List.filter_filter]
    simp only [Bool.and_self]
  refine ⟨hplain, fun k hk => ?_, fun hquotes => ?_⟩
  · obtain ⟨x, hx, rfl⟩ := List.mem_map.1 hk
    have hmem := List.mem_map_of_mem (f := fun y : Token => y.kind.unplaced) hx
    rw [tokens, map_unplaced_eq, hinner, List.mem_append, List.mem_filter] at hmem
    rw [← isComment_unplaced]
    rcases hmem with ⟨-, hno⟩ | hend
    · simpa using hno
    · rw [List.mem_singleton.1 hend]
      rfl
  · have hself : (plainKinds m (unlines ls)).map (·.unplaced) = plainKinds m (unlines ls) :=
      map_unplaced_eq_self fun k hk => hquotes k (List.mem_filter.1 hk).1
    rw [← hself, ← hplain, map_unplaced_eq_self]
    intro k hk
    have hmem := List.mem_map_of_mem (f := fun k : TokenKind => k.unplaced) hk
    rw [hplain, hself] at hmem
    rw [← isUnclosed_unplaced]
    exact hquotes _ (List.mem_filter.1 hmem).1

def notedLines : List Text :=
  ["# note", "a = \"x#y\"# b", "  c[d e] = \"p\\\"q\\\"\"  ", "", "\t\x7d"]

theorem cleanLines_alike_notedLines :
    let s : ScriptSettings := {}
    s.marker "a.txt" ∈ usualMarkers ∧ (∀ l ∈ notedLines, '\n' ∉ l) ∧
      s.cleanLines "a.txt" notedLines =
        ["a = \"x#y\"", "  c[d e] = \"p\\\"q\\\"\"", "\t\x7d"] ∧
      plainKinds (s.marker "a.txt") (unlines (s.cleanLines "a.txt" notedLines)) =
        plainKinds (s.marker "a.txt") (unlines notedLines) := by
  intro s
  have hm : s.marker "a.txt" ∈ usualMarkers := by decide +kernel
  have hls : ∀ l ∈ notedLines, '\n' ∉ l := by decide +kernel
  have hkinds : kinds (s.marker "a.txt") (unlines notedLines) = [.comment " note", .word "a",
      .operator "=", .word "\"x#y\"", .comment " b", .word "c[d e]", .operator "=",
      .word "\"p\\\"q\\\"\"", .closeBrace, .endOfInput] := by decide +kernel
  refine ⟨hm, hls, by decide +kernel, (cleanLines_alike hm hls ?_ ?_ ?_).2.2 ?_⟩
  · decide +kernel
  · intro w hw
    simp only [hkinds, List.mem_cons, List.not_mem_nil, or_false, reduceCtorEq, false_or,
      TokenKind.word.injEq] at hw
    rcases hw with rfl | rfl | rfl | rfl <;> decide +kernel
  · decide +kernel
  · rw [hkinds]
    decide

def escapedLines : List Text := ["a = \"x\\\"#b\""]

def bracketedLines : List Text := ["a = [b # c]"]

/-- Cleaning cuts a line at a mark of comments behind an escaped quote, and at one between square
brackets. -/
theorem cleanLines_cuts : ({} : ScriptSettings).marker "a.txt" = ['#'] ∧
    ((∀ x ∈ tokens ['#'] (unlines escapedLines), '\n' ∉ x.span.slice (unlines escapedLines)) ∧
      (∀ w ∈ (kinds ['#'] (unlines escapedLines)).filterMap (·.word?), leavesOpen w = false) ∧
      plainKinds ['#'] (unlines (({} : ScriptSettings).cleanLines "a.txt" escapedLines)) ≠
        plainKinds ['#'] (unlines escapedLines)) ∧
    ((∀ x ∈ tokens ['#'] (unlines bracketedLines), '\n' ∉ x.span.slice (unlines bracketedLines)) ∧
      (∀ w ∈ (kinds ['#'] (unlines bracketedLines)).filterMap (·.word?), leavesOpen w = false) ∧
      plainKinds ['#'] (unlines (({} : ScriptSettings).cleanLines "a.txt" bracketedLines)) ≠
        plainKinds ['#'] (unlines bracketedLines)) := by
  decide +kernel

end GameScript
