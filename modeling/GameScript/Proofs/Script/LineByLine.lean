import GameScript.Proofs.Script.Rewrapping

/-!
# Tokens line by line

A line feed changes nothing of the tokens in front of it, as long as their quotes are closed
(`cut_feed`): so a text is read line by line (`tokensFrom_feed`). A quote that is not closed on its
line makes a token that goes on over the line feed (`AllPieces.closesQuotes`).
-/

namespace GameScript

open Text Lexer

/-- Whether a token is a word with a quote that is never closed. -/
def TokenKind.isUnclosed : TokenKind → Bool
  | illegal (.unterminated _ _) => true
  | _ => false

def ClosesQuotes (m t : Text) : Prop := ∀ k ∈ kinds m t, k.isUnclosed = false

/-- The tokens of `t`, which stands behind `before` in a source, with what they cover. -/
def AllPieces (P : TokenKind → Text → Prop) (m whole before t : Text) : Prop :=
  ∀ x ∈ tokensFrom m (.behind before) t, P x.kind (x.span.slice whole)

section

variable {m r t w before whole : Text} {c : Char} {cs : Text} {k : TokenKind} {p q : Position}
  {s : WordState} {ls : List Text} {P : TokenKind → Text → Prop}

/-! ## In front of a line feed -/

theorem isCommentAt_feed (hm : '\n' ∉ m) :
    isCommentAt m (t ++ '\n' :: r) = isCommentAt m t :=
  isCommentAt_append (by simpa using hm)

theorem isOperatorAt_feed : isOperatorAt c (cs ++ '\n' :: r) = isOperatorAt c cs := by
  cases cs with
  | nil => simp [isOperatorAt]
  | cons d cs => rfl

theorem stopsWord_feed (hm : '\n' ∉ m) :
    stopsWord m s c (cs ++ '\n' :: r) = stopsWord m s c cs := by
  have hcomment : isCommentAt m (c :: (cs ++ '\n' :: r)) = isCommentAt m (c :: cs) :=
    isCommentAt_feed (t := c :: cs) hm
  cases s with
  | plain b => simp only [stopsWord, endsWord, isOperatorAt_feed, hcomment]
  | quoted b n | escaped b n => rfl

theorem spanOperator_feed :
    spanOperator (t ++ '\n' :: r) = ((spanOperator t).1, (spanOperator t).2 ++ '\n' :: r) := by
  induction t with
  | nil => rfl
  | cons c t ih =>
    rw [List.cons_append, spanOperator, spanOperator, isOperatorAt_feed, ih]
    split <;> rfl

theorem spanWord_feed (hm : '\n' ∉ m) (h : (spanWord m s t).unclosed = none) :
    spanWord m s (t ++ '\n' :: r) =
      ⟨(spanWord m s t).word, (spanWord m s t).rest ++ '\n' :: r, none⟩ := by
  induction t generalizing s with
  | nil =>
    cases s with
    | plain b => rfl
    | quoted b n | escaped b n => cases h
  | cons c t ih =>
    rw [spanWord_cons] at h
    rw [List.cons_append, spanWord_cons, spanWord_cons, stopsWord_feed hm]
    split
    · rfl
    · next hgoes =>
      rw [if_neg hgoes] at h
      rw [ih h]
      rfl

/-- A quote that is not closed takes the line feed in. -/
theorem feed_mem_spanWord (hm : '\n' ∉ m) (h : (spanWord m s t).unclosed ≠ none) :
    '\n' ∈ (spanWord m s (t ++ '\n' :: r)).word := by
  induction t generalizing s with
  | nil =>
    cases s with
    | plain b => exact absurd rfl h
    | quoted b n | escaped b n =>
      rw [List.nil_append, spanWord_cons]
      exact List.mem_cons_self
  | cons c t ih =>
    rw [spanWord_cons] at h
    rw [List.cons_append, spanWord_cons, stopsWord_feed hm]
    split at h
    · exact absurd rfl h
    · next hgoes =>
      rw [if_neg hgoes]
      exact List.mem_cons_of_mem _ (ih h)

theorem isUnclosed_iff : k.isUnclosed = true ↔ ∃ i j, k = .illegal (.unterminated i j) := by
  fun_cases TokenKind.isUnclosed k with
  | case1 i j => simp
  | case2 k hk => simpa using fun i j => hk i j

theorem not_isComment_cut (h : isCommentAt m (c :: cs) = false) :
    (cut m p c cs).kind.isComment = false :=
  cut_cases (P := fun f => (f p).kind.isComment = false)
    (fun hat => absurd h (Bool.eq_false_iff.1 · hat)) (fun _ _ => rfl) (fun _ _ => rfl)
    (fun _ _ => rfl) (fun _ => rfl) (fun _ _ => rfl) (fun _ _ => rfl)

/-- What is cut off has its characters for a lexeme, unless it is a comment, a quote that is never
closed or a control character. -/
theorem cutsOff_or_control (hgap : isGap c = false)
    (hcomment : (cut m p c cs).kind.isComment = false)
    (hclosed : (cut m p c cs).kind.isUnclosed = false) :
    ((cut m p c cs).lexeme = (cut m p c cs).kind.lexeme ∧
      CutsOff m (cut m p c cs).kind (cut m p c cs).rest) ∨
    (isControl c = true ∧ cut m p c cs = ⟨.illegal (.control c), [c], cs⟩) := by
  have hspells := spells_cut (m := m) p c cs
  have hne : (cut m p c cs).lexeme ≠ [] := cut_lexeme_ne_nil hgap
  cases hkind : (cut m p c cs).kind with
  | comment body =>
    rw [hkind] at hcomment
    cases hcomment
  | endOfInput => exact absurd hkind kind_cut_ne
  | openBrace | closeBrace | word w | operator w =>
    have hlexeme : (cut m p c cs).kind.lexeme ≠ [] := by
      rw [hkind] at hspells ⊢
      exact hspells ▸ hne
    rw [← hkind]
    exact .inl ⟨cut_lexeme hlexeme, cutsOff_cut hgap hlexeme⟩
  | illegal cause =>
    cases cause with
    | unterminated i j =>
      rw [hkind] at hclosed
      cases hclosed
    | control d => exact .inr (of_cut_control hkind)

theorem exists_cut_comment (hat : isCommentAt m (c :: cs) = true) (hline : '\n' ∉ c :: cs) :
    ∃ body, ∀ r, EndsLine r → cut m p c (cs ++ r) = ⟨.comment body, c :: cs, r⟩ := by
  obtain ⟨hne, body, hbody⟩ := isCommentAt_iff.1 hat
  have hfeed : '\n' ∉ body := fun hmem => hline (hbody ▸ List.mem_append_right m hmem)
  refine ⟨trimEnd body, fun r hr => ?_⟩
  have hcover : c :: (cs ++ r) = m ++ (body ++ r) := by
    rw [← List.append_assoc, hbody]
    rfl
  have hat : isCommentAt m (c :: (cs ++ r)) = true := isCommentAt_iff.2 ⟨hne, _, hcover.symm⟩
  have htake : (body ++ r).takeWhile (· ≠ '\n') = body ∧
      (body ++ r).dropWhile (· ≠ '\n') = r := by
    cases r with
    | nil =>
      have hall : ∀ d ∈ body, decide (d ≠ '\n') = true :=
        fun d hd => decide_eq_true fun heq => hfeed (heq ▸ hd)
      rw [List.append_nil]
      exact ⟨List.takeWhile_eq_self_iff.2 hall, List.dropWhile_eq_nil_iff.2 hall⟩
    | cons d r =>
      obtain rfl := hr d rfl
      exact ⟨takeWhile_append hfeed, dropWhile_append hfeed⟩
  rw [cut, if_pos hat]
  simp only [hcover, List.drop_left, htake, hbody]

theorem cut_lastComment (hat : isCommentAt m (c :: cs) = true) (hline : '\n' ∉ c :: cs) :
    ∃ body, cut m p c cs = ⟨.comment body, c :: cs, []⟩ := by
  obtain ⟨body, hall⟩ := exists_cut_comment (p := p) hat hline
  have hend := hall [] (by rintro d ⟨⟩)
  rw [List.append_nil] at hend
  exact ⟨body, hend⟩

/-- **A token whose quotes are closed is cut off in front of a line feed** as at the end. -/
theorem cut_feed (hm : '\n' ∉ m) (hline : '\n' ∉ c :: cs)
    (hclosed : (cut m p c cs).kind.isUnclosed = false) : cut m p c (cs ++ '\n' :: r) =
      ⟨(cut m p c cs).kind, (cut m p c cs).lexeme, (cut m p c cs).rest ++ '\n' :: r⟩ := by
  have hcomment : isCommentAt m (c :: (cs ++ '\n' :: r)) = isCommentAt m (c :: cs) :=
    isCommentAt_feed (t := c :: cs) hm
  by_cases hat : isCommentAt m (c :: cs) = true
  · obtain ⟨body, hall⟩ := exists_cut_comment (p := p) hat hline
    have hend := hall [] (by rintro d ⟨⟩)
    rw [List.append_nil] at hend
    rw [hend, hall ('\n' :: r) (by rintro d ⟨⟩; rfl)]
    rfl
  have hat := Bool.eq_false_iff.2 hat
  revert hclosed
  apply cut_cases (P := fun f => (f p).kind.isUnclosed = false → cut m p c (cs ++ '\n' :: r) =
    ⟨(f p).kind, (f p).lexeme, (f p).rest ++ '\n' :: r⟩)
  case comment => exact fun h => absurd h (by simp [hat])
  case opening =>
    rintro - rfl -
    rw [cut, hcomment, hat]
    rfl
  case closing =>
    rintro - rfl -
    rw [cut, hcomment, hat]
    rfl
  case operator =>
    intro _ hop _
    have hspan : spanOperator (c :: (cs ++ '\n' :: r)) = _ := spanOperator_feed (t := c :: cs)
    have ho := hop
    rw [← isOperatorAt_feed (r := r)] at ho
    obtain ⟨o, ho⟩ : ∃ o, (spanOperator (c :: cs)).1 = c :: o := by
      rw [spanOperator, if_pos hop]
      exact ⟨_, rfl⟩
    rw [ho] at hspan ⊢
    exact cut_operator (hcomment.trans hat) hspan
  case control => exact fun hcontrol _ => cut_control (hcomment.trans hat) hcontrol
  case word =>
    intro hs hu _
    have hs : StartsWord m c (cs ++ '\n' :: r) := StartsWord.before_feed (r := []) hm (by simpa)
    exact cut_word hs (spanWord_feed (t := c :: cs) hm hu)
  case unclosed => exact fun _ _ h => by cases h

theorem feed_mem_cut (hm : '\n' ∉ m) (h : (cut m p c cs).kind.isUnclosed = true) :
    '\n' ∈ (cut m p c (cs ++ '\n' :: r)).lexeme := by
  obtain ⟨i, j, hkind⟩ := isUnclosed_iff.1 h
  have hs := startsWord_of_unterminated hkind
  have hs : StartsWord m c (cs ++ '\n' :: r) := StartsWord.before_feed (r := []) hm (by simpa)
  have hmem := feed_mem_spanWord (t := c :: cs) (r := r) hm (unclosed_of_unterminated hkind)
  rw [List.cons_append] at hmem
  simp only [cut, hs.comment, hs.opening, hs.closing, hs.operator, hs.control, if_false,
    Bool.false_eq_true]
  split <;> exact hmem

/-! ## Lines one after the other -/

@[simp] theorem unlines_splitOn (t : Text) : unlines (splitOn '\n' t) = t := join_splitOn '\n' t

theorem unlines_cons_cons {l l' : Text} :
    unlines (l :: l' :: ls) = l ++ '\n' :: unlines (l' :: ls) := by
  rw [unlines, join_cons (List.cons_ne_nil _ _), List.append_assoc]
  rfl

/-- **A line whose quotes are closed is read by itself.** -/
theorem tokensFrom_feed (hm : '\n' ∉ m) (hline : '\n' ∉ t)
    (hclosed : ∀ x ∈ tokensFrom m p t, x.kind.isUnclosed = false) :
    tokensFrom m p (t ++ '\n' :: r) =
      (tokensFrom m p t).dropLast ++ tokensFrom m (p.advance (t ++ ['\n'])) r := by
  fun_induction tokensFrom m p t with
  | case1 p => exact tokensFrom_gap rfl
  | case2 p c cs hgap ih =>
    rw [List.cons_append, tokensFrom_gap hgap, ih (fun hmem => hline (List.mem_cons_of_mem c hmem))
      hclosed]
    rfl
  | case3 p c cs hgap x after ih =>
    have hgap : isGap c = false := by simpa using hgap
    rw [List.forall_mem_cons] at hclosed
    have hall : x.lexeme ++ x.rest = c :: cs := cut_append ..
    have hrest : '\n' ∉ x.rest := fun hmem => hline (hall ▸ List.mem_append_right _ hmem)
    obtain ⟨ts, q, hts, -⟩ := tokensFrom_eq_append (m := m) after x.rest
    have hne : tokensFrom m after x.rest ≠ [] := by simp [hts]
    have hplace : p.advance (c :: cs ++ ['\n']) = after.advance (x.rest ++ ['\n']) := by
      rw [← hall, List.append_assoc]
      exact List.foldl_append
    rw [List.cons_append, tokensFrom_cut hgap, cut_feed hm hline hclosed.1, ih hrest hclosed.2,
      hplace, List.dropLast_cons_of_ne_nil hne]
    rfl

/-! ## Tokens anywhere -/

theorem isUnclosed_unplaced : k.unplaced.isUnclosed = k.isUnclosed := by
  fun_cases TokenKind.unplaced k <;> rfl

theorem unplaced_cut (p q : Position) (c : Char) (cs : Text) :
    (cut m q c cs).kind.unplaced = (cut m p c cs).kind.unplaced ∧
    (cut m q c cs).lexeme = (cut m p c cs).lexeme ∧ (cut m q c cs).rest = (cut m p c cs).rest :=
  cut_cases (P := fun f => (f q).kind.unplaced = (f p).kind.unplaced ∧
      (f q).lexeme = (f p).lexeme ∧ (f q).rest = (f p).rest)
    (fun _ => ⟨rfl, rfl, rfl⟩) (fun _ _ => ⟨rfl, rfl, rfl⟩) (fun _ _ => ⟨rfl, rfl, rfl⟩)
    (fun _ _ => ⟨rfl, rfl, rfl⟩) (fun _ => ⟨rfl, rfl, rfl⟩) (fun _ _ => ⟨rfl, rfl, rfl⟩)
    (fun _ _ => ⟨rfl, rfl, rfl⟩)

/-- Tokens are the same anywhere but for the place of a quote that is never closed. -/
theorem unplaced_tokensFrom (p q : Position) :
    (tokensFrom m q t).map (·.kind.unplaced) = (tokensFrom m p t).map (·.kind.unplaced) := by
  fun_induction tokensFrom m p t generalizing q with
  | case1 p => rw [tokensFrom_nil]; rfl
  | case2 p c cs hgap ih => rw [tokensFrom_gap hgap, ih]
  | case3 p c cs hgap x after ih =>
    obtain ⟨hkind, -, hrest⟩ := unplaced_cut (m := m) p q c cs
    rw [tokensFrom_cut (by simpa using hgap), List.map_cons, List.map_cons, hkind, hrest, ih]

/-- What is true of all tokens of a text, whatever the places of its quotes, is true of them
anywhere. -/
theorem forall_kind_tokensFrom {Q : TokenKind → Prop} (hQ : ∀ k, Q k.unplaced ↔ Q k)
    (p q : Position) (h : ∀ x ∈ tokensFrom m p t, Q x.kind) : ∀ x ∈ tokensFrom m q t, Q x.kind := by
  intro x hx
  have hmem := List.mem_map_of_mem (f := fun y : Token => y.kind.unplaced) hx
  rw [unplaced_tokensFrom p] at hmem
  obtain ⟨y, hy, heq⟩ := List.mem_map.1 hmem
  rw [← hQ, ← heq, hQ]
  exact h y hy

theorem closesQuotes_iff :
    ClosesQuotes m t ↔ ∀ x ∈ tokensFrom m p t, x.kind.isUnclosed = false := by
  have hanywhere := forall_kind_tokensFrom (m := m) (t := t) (Q := fun k => k.isUnclosed = false)
    fun k => by rw [isUnclosed_unplaced]
  rw [ClosesQuotes, kinds, List.forall_mem_map, tokens]
  exact ⟨hanywhere {} p, hanywhere p {}⟩

/-! ## What tokens cover -/

theorem allPieces_gap (hgap : isGap c = true) :
    AllPieces P m whole before (c :: cs) ↔ AllPieces P m whole (before ++ [c]) cs := by
  rw [AllPieces, AllPieces, tokensFrom_gap hgap, next_behind]

theorem slice_lexeme (h : before ++ t <+: whole) :
    Span.slice ⟨.behind before, (Position.behind (before ++ t)).offset⟩ whole = t := by
  obtain ⟨rest, rfl⟩ := h
  rw [List.append_assoc]
  exact slice_behind before t rest

theorem allPieces_cut (hgap : isGap c = false) (hwhole : before ++ c :: cs <+: whole) :
    AllPieces P m whole before (c :: cs) ↔
      P (cut m (.behind before) c cs).kind (cut m (.behind before) c cs).lexeme ∧
      AllPieces P m whole (before ++ (cut m (.behind before) c cs).lexeme)
        (cut m (.behind before) c cs).rest := by
  have hall := cut_append (m := m) (.behind before) c cs
  have hlexeme : before ++ (cut m (.behind before) c cs).lexeme <+: whole := by
    refine List.IsPrefix.trans ⟨(cut m (.behind before) c cs).rest, ?_⟩ hwhole
    rw [List.append_assoc, hall]
  rw [AllPieces, tokensFrom_cut hgap, List.forall_mem_cons, advance_behind, slice_lexeme hlexeme]
  rfl

theorem AllPieces.closesQuotes (hm : '\n' ∉ m) (hline : '\n' ∉ t) (hP : ∀ k u, P k u → '\n' ∉ u)
    (hwhole : before ++ (t ++ '\n' :: r) <+: whole)
    (h : AllPieces P m whole before (t ++ '\n' :: r)) : ClosesQuotes m t := by
  refine (closesQuotes_iff (p := .behind before)).2 ?_
  generalize hp : Position.behind before = p
  fun_induction Lexer.tokensFrom m p t generalizing before with
  | case1 p => exact List.forall_mem_singleton.2 rfl
  | case2 p c cs hgap ih =>
    subst hp
    exact ih (fun hmem => hline (List.mem_cons_of_mem c hmem)) (by simpa using hwhole)
      ((allPieces_gap hgap).1 h) (next_behind before c).symm
  | case3 p c cs hgap x after =>
    rename_i ih
    subst hp
    have hgap : isGap c = false := by simpa using hgap
    rw [List.cons_append] at h hwhole
    obtain ⟨hpiece, hrest⟩ := (allPieces_cut hgap hwhole).1 h
    have hclosed : x.kind.isUnclosed = false :=
      Bool.eq_false_iff.2 fun hu => hP _ _ hpiece (feed_mem_cut hm hu)
    have hall : x.lexeme ++ x.rest = c :: cs := cut_append ..
    rw [cut_feed hm hline hclosed] at hrest
    refine List.forall_mem_cons.2 ⟨hclosed, ih (fun hmem => ?_) ?_ hrest (advance_behind _ _).symm⟩
    · exact hline (hall ▸ List.mem_append_right _ hmem)
    · rwa [List.append_assoc, ← List.append_assoc x.lexeme, hall, List.cons_append]

/-- **A text whose pieces are on one line each is read line by line**: each line by itself, and all
but the last close their quotes. -/
theorem AllPieces.lines (hm : '\n' ∉ m) (hls : ∀ l ∈ ls, '\n' ∉ l) (hend : P .endOfInput [])
    (hP : ∀ k u, P k u → '\n' ∉ u) (hwhole : before ++ unlines ls <+: whole)
    (h : AllPieces P m whole before (unlines ls)) :
    (∀ l ∈ ls, ∃ front, front ++ l <+: whole ∧ AllPieces P m whole front l) ∧
      ∀ l ∈ ls.dropLast, ClosesQuotes m l := by
  induction ls generalizing before with
  | nil => exact ⟨List.forall_mem_nil _, List.forall_mem_nil _⟩
  | cons l ls ih =>
    cases ls with
    | nil =>
      exact ⟨List.forall_mem_singleton.2 ⟨before, hwhole, h⟩, List.forall_mem_nil _⟩
    | cons l' ls =>
      rw [List.forall_mem_cons] at hls
      rw [unlines_cons_cons] at h hwhole
      have hclosed := h.closesQuotes hm hls.1 hP hwhole
      have hplace : (Position.behind before).advance (l ++ ['\n']) =
          .behind (before ++ (l ++ ['\n'])) := advance_behind _ _
      have hsplit := tokensFrom_feed (r := unlines (l' :: ls)) hm hls.1
        (closesQuotes_iff (p := .behind before).1 hclosed)
      rw [hplace] at hsplit
      rw [AllPieces, hsplit, List.forall_mem_append] at h
      obtain ⟨hlines, hquotes⟩ := ih hls.2 (by simpa using hwhole) h.2
      refine ⟨List.forall_mem_cons.2 ⟨⟨before, ?_, ?_⟩, hlines⟩, ?_⟩
      · exact (List.prefix_append _ _).trans (by simpa using hwhole)
      · intro x hx
        obtain ⟨ts, q, hts, -⟩ := tokensFrom_eq_append (m := m) (.behind before) l
        rw [hts, List.dropLast_concat] at h
        rw [hts] at hx
        rcases List.mem_append.1 hx with hx | hx
        · exact h.1 x hx
        · obtain rfl := List.mem_singleton.1 hx
          have hslice : Span.slice ⟨q, q.offset⟩ whole = [] := by
            rw [Span.slice, Nat.sub_self, splitAtOffset]
          rw [hslice]
          exact hend
      · rw [List.dropLast_cons_of_ne_nil (List.cons_ne_nil _ _)]
        exact List.forall_mem_cons.2 ⟨hclosed, hquotes⟩

end

end GameScript
