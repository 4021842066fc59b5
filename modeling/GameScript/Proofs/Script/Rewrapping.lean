import GameScript.Proofs.Script.Acceptance
import GameScript.Proofs.Script.Brackets
import GameScript.Proofs.Script.Places
import GameScript.Proofs.Script.Tiling
import GameScript.Proofs.Text.Pieces

/-!
# One token a line

`oneALine` writes what each token of a source covers on a line of its own and leaves out comments.
What was cut off as a token is cut off as the same token in front of a line feed (`readsLike_cut`),
so the lines are read as the same tokens (`readsLike_onLines`), but for the place of a quote that is
never closed. No element depends on that place or on comments (`readFrom_alike`). So layout and
comments change nothing of what is read (`oneALine_alike`).
-/

namespace GameScript

open Text Lexer

/-! ## What a token covers -/

/-- The part of a source that a span covers. -/
def Span.slice (span : Span) (source : Text) : Text :=
  (splitAtOffset (span.stop - span.start.offset) (splitAtOffset span.start.offset source).2).1

/-- What tokens of a source cover, comments left out, one to a line. -/
def onLines (source : Text) (ts : List Token) : Text :=
  unlines ((ts.filter (!·.kind.isComment)).map (·.span.slice source))

/-- What each token of a source covers, comments left out, one to a line. -/
def oneALine (marker source : Text) : Text := onLines source (tokens marker source)

theorem splitAtOffset_append (t u : Text) : splitAtOffset (byteSize t) (t ++ u) = (t, u) := by
  induction t with
  | nil => cases u <;> rfl
  | cons c t ih =>
    have hc : 0 < c.utf8Size := c.utf8Size_pos
    obtain ⟨n, hn⟩ : ∃ n, byteSize (c :: t) = n + 1 :=
      ⟨byteSize (c :: t) - 1, by rw [byteSize]; omega⟩
    have hrest : n + 1 - c.utf8Size = byteSize t := by rw [← hn, byteSize]; omega
    rw [hn, List.cons_append, splitAtOffset, hrest, ih]

theorem slice_behind (before t rest : Text) :
    Span.slice ⟨.behind before, (Position.behind (before ++ t)).offset⟩ (before ++ (t ++ rest)) =
      t := by
  have hsize : byteSize (before ++ t) - byteSize before = byteSize t := by
    rw [byteSize_append]; omega
  show (splitAtOffset (byteSize (before ++ t) - byteSize before)
    (splitAtOffset (byteSize before) (before ++ (t ++ rest))).2).1 = t
  rw [splitAtOffset_append, hsize, splitAtOffset_append]

/-! ## Tokens up to the place of a quote -/

/-- A kind of token without the place where a quote was opened. -/
def TokenKind.unplaced : TokenKind → TokenKind
  | illegal (.unterminated _ _) => illegal (.unterminated 0 0)
  | k => k

@[simp] theorem isComment_unplaced (k : TokenKind) : k.unplaced.isComment = k.isComment := by
  fun_cases TokenKind.unplaced k <;> rfl

/-- The tokens of a text are of these kinds up to places of quotes, wherever it stands. -/
def ReadsLike (m t : Text) (ks : List TokenKind) : Prop :=
  ∀ p, (tokensFrom m p t).map (·.kind.unplaced) = ks

section

variable {m r t w : Text} {c d : Char} {cs : Text} {k : TokenKind} {ks : List TokenKind}
  {p q : Position} {s : WordState}

theorem readsLike_nil : ReadsLike m [] [.endOfInput] := fun p => by
  rw [tokensFrom_nil]; rfl

theorem ReadsLike.cons (h : ReadsLike m r ks) (hgap : isGap c = false)
    (hcut : ∀ p, ∃ k' l, cut m p c cs = ⟨k', l, r⟩ ∧ k'.unplaced = k) :
    ReadsLike m (c :: cs) (k :: ks) := fun p => by
  obtain ⟨k', l, hp, hk⟩ := hcut p
  rw [tokensFrom_cut hgap, hp, List.map_cons, hk, h]

theorem ReadsLike.feed (h : ReadsLike m r ks) : ReadsLike m ('\n' :: r) ks := fun p => by
  rw [tokensFrom_gap rfl, h]

theorem ReadsLike.token (h : ReadsLike m r ks) (hk : CutsOff m k r) :
    ReadsLike m (k.lexeme ++ r) (k.unplaced :: ks) := by
  obtain ⟨c, cs, hlexeme, hgap, hcut⟩ := hk
  have hc : ReadsLike m (c :: (cs ++ r)) (k.unplaced :: ks) :=
    h.cons hgap fun p => ⟨_, _, hcut p, rfl⟩
  rwa [hlexeme]

/-! ## In front of a line feed -/

theorem cut_control (hc : isCommentAt m (c :: cs) = false) (hcontrol : isControl c = true) :
    cut m p c cs = ⟨.illegal (.control c), [c], cs⟩ := by
  have hopen : c ≠ '{' := by rintro rfl; cases hcontrol
  have hclose : c ≠ '}' := by rintro rfl; cases hcontrol
  have hop : isOperatorAt c cs = false := by
    refine Bool.eq_false_iff.2 fun hop => ?_
    simp only [isOperatorAt, isOperatorChar, Bool.or_eq_true, Bool.and_eq_true, beq_iff_eq] at hop
    rcases hop with (((rfl | rfl) | rfl) | rfl) | ⟨rfl, -⟩ <;> cases hcontrol
  simp only [cut, hc, hopen, hclose, hop, hcontrol, if_true, if_false, Bool.false_eq_true]

theorem spanWord_unclosed (h : (spanWord m s t).unclosed ≠ none) :
    (spanWord m s t).word = t ∧ (spanWord m s t).rest = [] := by
  fun_induction spanWord m s t <;> simp_all [WordSpan.cons]

theorem StartsWord.before_feed (hm : '\n' ∉ m) (h : StartsWord m c (cs ++ r)) :
    StartsWord m c (cs ++ '\n' :: t) :=
  { h with
    comment := isCommentAt_before (t := c :: cs) h.comment (by simpa using hm)
    operator := isOperatorAt_before h.operator (by simp) }

/-- One more line feed closes no quote. -/
theorem spanWord_unclosed_feed (hm : '\n' ∉ m) (h : (spanWord m s t).unclosed ≠ none) :
    (spanWord m s (t ++ ['\n'])).unclosed ≠ none := by
  induction t generalizing s with
  | nil =>
    cases s with
    | plain b => exact absurd rfl h
    | quoted b n | escaped b n => exact Option.some_ne_none _
  | cons c cs ih =>
    rw [spanWord_cons] at h
    split at h
    · exact absurd rfl h
    · next hstop =>
      have hfeed : ∀ d ∈ (['\n'] : Text).head?, d ∉ m := by simpa using hm
      have hgoes := stopsWord_before (r := []) (w := cs) (looser_refl s) hfeed (by simp)
        (by simpa using hstop)
      rw [List.cons_append, spanWord_cons, if_neg (by simp [hgoes])]
      exact ih h

theorem CutsOff.before_feed (hm : '\n' ∉ m) (h : CutsOff m k r) : CutsOff m k ('\n' :: t) := by
  cases k with
  | word w => exact h.word_endsLine hm (by simp [EndsLine])
  | operator o =>
    obtain ⟨c, cs, rfl, hgap, hcomment, hspan⟩ := cutsOff_operator_iff.1 h
    exact h.operator_before (isCommentAt_before hcomment (by simpa using hm))
      fun d ds hd => by cases hd; rfl
  | openBrace =>
    exact cutsOff_openBrace_iff.2 (isCommentAt_before (t := ['{']) (cutsOff_openBrace_iff.1 h)
      (by simpa using hm))
  | closeBrace =>
    exact cutsOff_closeBrace_iff.2 (isCommentAt_before (t := ['}']) (cutsOff_closeBrace_iff.1 h)
      (by simpa using hm))
  | comment body | endOfInput | illegal cause =>
    obtain ⟨c, cs, hnil, -⟩ := h
    cases hnil

theorem of_cut_control :
    (cut m p c cs).kind = .illegal (.control d) →
      isControl c = true ∧ cut m p c cs = ⟨.illegal (.control c), [c], cs⟩ := by
  apply cut_cases (P := fun f => (f p).kind = .illegal (.control d) →
    isControl c = true ∧ f p = ⟨.illegal (.control c), [c], cs⟩)
  case control => exact fun hcontrol _ => ⟨hcontrol, rfl⟩
  all_goals intros; rename_i h; cases h

theorem startsWord_of_unterminated {i j : Nat} :
    (cut m p c cs).kind = .illegal (.unterminated i j) → StartsWord m c cs := by
  apply cut_cases (P := fun f => (f p).kind = .illegal (.unterminated i j) → StartsWord m c cs)
  case unclosed => exact fun _ hs _ => hs
  all_goals intros; rename_i h; cases h

theorem unclosed_of_unterminated {i j : Nat}
    (h : (cut m p c cs).kind = .illegal (.unterminated i j)) :
    (spanWord m (.plain false) (c :: cs)).unclosed ≠ none := by
  intro hu
  generalize hspan : spanWord m (.plain false) (c :: cs) = x at hu
  obtain ⟨w, r, _⟩ := x
  cases hu
  rw [cut_word (startsWord_of_unterminated h) hspan] at h
  cases h

theorem cut_unterminated (hs : StartsWord m c cs)
    (hu : (spanWord m (.plain false) (c :: cs)).unclosed ≠ none) :
    ∃ i j, cut m p c cs = ⟨.illegal (.unterminated i j), c :: cs, []⟩ := by
  obtain ⟨hword, hrest⟩ := spanWord_unclosed hu
  obtain ⟨n, hn⟩ := Option.ne_none_iff_exists'.1 hu
  simp only [cut, hs.comment, hs.opening, hs.closing, hs.operator, hs.control, hn, hword, hrest,
    if_false, Bool.false_eq_true]
  exact ⟨_, _, rfl⟩

theorem ReadsLike.control (h : ReadsLike m r ks) (hm : '\n' ∉ m) (hgap : isGap c = false)
    (hcomment : isCommentAt m (c :: cs) = false) (hcontrol : isControl c = true) :
    ReadsLike m (c :: '\n' :: r) (.illegal (.control c) :: ks) := by
  have hfeed : isCommentAt m (c :: '\n' :: r) = false :=
    isCommentAt_before (t := [c]) hcomment (by simpa using hm)
  exact h.feed.cons hgap fun p => ⟨_, _, cut_control hfeed hcontrol, rfl⟩

theorem readsLike_unterminated (hm : '\n' ∉ m) (hgap : isGap c = false) (hs : StartsWord m c cs)
    (hu : (spanWord m (.plain false) (c :: cs)).unclosed ≠ none) :
    ReadsLike m (c :: (cs ++ ['\n'])) [.illegal (.unterminated 0 0), .endOfInput] := by
  have hs' : StartsWord m c (cs ++ ['\n']) := StartsWord.before_feed (r := []) hm (by simpa)
  refine readsLike_nil.cons hgap fun p => ?_
  obtain ⟨i, j, hcut⟩ := cut_unterminated hs' (spanWord_unclosed_feed hm hu)
  exact ⟨_, _, hcut, rfl⟩

/-- **What is cut off is cut off in front of a line feed**, when it is no comment. Only a word whose
quote is never closed goes on; it is the last token of its source. -/
theorem readsLike_cut (hm : '\n' ∉ m) (hgap : isGap c = false)
    (hk : (cut m p c cs).kind.isComment = false) (h : ReadsLike m t ks)
    (hend : (cut m p c cs).rest = [] → t = [] ∧ ks = [.endOfInput]) :
    ReadsLike m ((cut m p c cs).lexeme ++ '\n' :: t) ((cut m p c cs).kind.unplaced :: ks) := by
  cases hkind : (cut m p c cs).kind with
  | comment body => rw [hkind] at hk; cases hk
  | endOfInput => exact absurd hkind kind_cut_ne
  | openBrace | closeBrace | word w | operator w =>
    have hspells := spells_cut (m := m) p c cs
    have hlexeme : (cut m p c cs).kind.lexeme ≠ [] := by
      rw [hkind] at hspells ⊢
      exact hspells ▸ cut_lexeme_ne_nil hgap
    rw [cut_lexeme hlexeme, ← hkind]
    exact h.feed.token ((cutsOff_cut hgap hlexeme).before_feed hm)
  | illegal cause =>
    cases cause with
    | control d =>
      have hcomment : isCommentAt m (c :: cs) = false := Bool.eq_false_iff.2 fun hc => by
        rw [isComment_cut hc] at hk
        cases hk
      obtain ⟨hcontrol, hcut⟩ := of_cut_control hkind
      rw [hcut] at hkind ⊢
      rw [← hkind]
      exact h.control hm hgap hcomment hcontrol
    | unterminated i j =>
      have hs := startsWord_of_unterminated hkind
      have hu := unclosed_of_unterminated hkind
      obtain ⟨i', j', hcut⟩ := cut_unterminated (p := p) hs hu
      rw [hcut] at hend ⊢
      obtain ⟨rfl, rfl⟩ := hend rfl
      exact readsLike_unterminated hm hgap hs hu

/-! ## All tokens -/

theorem onLines_end (m before : Text) :
    onLines before (tokensFrom m (.behind before) []) = [] := by
  have hslice := slice_behind before [] []
  simp only [List.append_nil] at hslice
  simp [onLines, TokenKind.isComment, unlines, join, hslice]

/-- **What tokens cover is read as these tokens** from lines of its own. -/
theorem readsLike_onLines (hm : '\n' ∉ m) (before t : Text) :
    ReadsLike m (onLines (before ++ t) (tokensFrom m (.behind before) t))
      (((tokensFrom m (.behind before) t).filter (!·.kind.isComment)).map (·.kind.unplaced)) := by
  generalize hp : Position.behind before = p
  fun_induction tokensFrom m p t generalizing before with
  | case1 p =>
    subst hp
    rw [← tokensFrom_nil (m := m), List.append_nil, onLines_end, tokensFrom_nil]
    exact readsLike_nil
  | case2 p c cs hgap ih =>
    subst hp
    simpa using ih (before ++ [c]) (next_behind before c).symm
  | case3 p c cs hgap x after ih =>
    subst hp
    have hafter : Position.behind (before ++ x.lexeme) = after := (advance_behind _ _).symm
    have hall : x.lexeme ++ x.rest = c :: cs := cut_append ..
    have hslice := slice_behind before x.lexeme x.rest
    have ih := ih _ hafter
    rw [List.append_assoc, hall] at ih
    rw [hafter, hall] at hslice
    cases hk : x.kind.isComment with
    | true =>
      rw [onLines, List.filter_cons_of_neg (by simp [hk])]
      exact ih
    | false =>
      have hne : (tokensFrom m after x.rest).filter (!·.kind.isComment) ≠ [] := by
        obtain ⟨ts, q, hts, -⟩ := tokensFrom_eq_append (m := m) after x.rest
        simp [hts, TokenKind.isComment]
      rw [onLines, List.filter_cons_of_pos (by simp [hk]), List.map_cons, List.map_cons, hslice,
        unlines, join_cons (by simpa using hne), List.append_assoc]
      refine readsLike_cut hm (by simpa using hgap) hk ih fun hrest => ?_
      -- nothing is left behind a quote that is never closed
      have hrest : x.rest = [] := hrest
      rw [hrest, List.append_nil] at hall
      rw [hrest, ← hafter, ← hall]
      exact ⟨onLines_end m _, by rw [tokensFrom_nil]; rfl⟩

end

/-! ## What is read -/

namespace Tree

variable {r : Rigour} {s : State} {t : Token}

def unquoted (t : Token) : Token := { t with kind := t.kind.unplaced }

/-- No state depends on the place of a quote. -/
theorem step_unquoted : (step r s (unquoted t)).toOption = (step r s t).toOption := by
  obtain ⟨k, span⟩ := t
  cases k with
  | illegal cause =>
    cases cause with
    | control c => rfl
    | unterminated i j =>
      rw [step.eq_def, step.eq_def]
      cases s.pending <;> cases r <;> rfl
  | openBrace | closeBrace | operator op | word w | comment body | endOfInput => rfl

end Tree

variable {r : Rigour} {ts us : List Token} {m : Text}

open GameScript.Tree in
theorem readFrom_unquoted :
    (readFrom r {} (ts.map unquoted)).toOption = (readFrom r {} ts).toOption := by
  refine readFrom_map (f := id) (fun s t => ?_) rfl fun _ => rfl
  rw [id, step_unquoted, Option.map_id]
  rfl

open GameScript.Tree in
/-- **Tokens that are alike but for comments and places make the same elements.** -/
theorem readFrom_alike (h : (ts.filter (!·.kind.isComment)).map (·.kind.unplaced) =
    (us.filter (!·.kind.isComment)).map (·.kind.unplaced)) :
    (readFrom r {} ts).toOption = (readFrom r {} us).toOption := by
  have hplain (vs : List Token) : (readFrom r {} vs).toOption =
      (readFrom r {} ((vs.filter (!·.kind.isComment)).map unquoted)).toOption := by
    rw [readFrom_unquoted, readFrom, readFrom, run_filter]
  rw [hplain ts, hplain us]
  apply readFrom_congr
  rw [List.map_map, List.map_map]
  exact h

/-- From lines of its own, what tokens cover is read without comments. -/
theorem filter_oneALine (hm : '\n' ∉ m) (source : Text) :
    ((tokens m (oneALine m source)).filter (!·.kind.isComment)).map (·.kind.unplaced) =
      ((tokens m source).filter (!·.kind.isComment)).map (·.kind.unplaced) := by
  have hread : (tokens m (oneALine m source)).map (·.kind.unplaced) =
      ((tokens m source).filter (!·.kind.isComment)).map (·.kind.unplaced) :=
    readsLike_onLines hm [] source {}
  have hplain : ∀ x ∈ tokens m (oneALine m source), (!x.kind.isComment) = true := by
    intro x hx
    have hmem := List.mem_map_of_mem (f := fun y : Token => y.kind.unplaced) hx
    rw [hread, List.mem_map] at hmem
    obtain ⟨y, hy, heq⟩ := hmem
    rw [← isComment_unplaced, ← heq, isComment_unplaced]
    exact (List.mem_filter.1 hy).2
  rw [List.filter_eq_self.2 hplain, hread]

/-- **Layout and comments change nothing.** What each token of a source covers, comments left out
and each on a line of its own, is read as the same kinds of tokens but for the place of a quote that
is never closed. So it makes the same elements, or none when there are none. -/
theorem oneALine_alike (hm : '\n' ∉ m) (source : Text) :
    (plainKinds m (oneALine m source)).map (·.unplaced) =
        (plainKinds m source).map (·.unplaced) ∧
      ∀ r, (parse r m (oneALine m source)).toOption = (parse r m source).toOption := by
  have hplain := filter_oneALine hm source
  refine ⟨?_, fun r => ?_⟩
  · rw [plainKinds_eq_map, plainKinds_eq_map, List.map_map, List.map_map]
    exact hplain
  · rw [toOption_parse, toOption_parse]
    exact readFrom_alike hplain

def crampedScript : Text :=
  "a?=b#note\n\x7bc?[x = y]>\"p\nq\"d=\x7d ## end\n\"open\n"

theorem oneALine_alike_crampedScript :
    '\n' ∉ (['#'] : Text) ∧
      oneALine ['#'] crampedScript =
        "a\n?=\nb\n\x7b\nc?[x = y]\n>\n\"p\nq\"d\n=\n\x7d\n\"open\n\n" ∧
      (parse .tolerant ['#'] (oneALine ['#'] crampedScript)).toOption =
        (parse .tolerant ['#'] crampedScript).toOption := by
  have hm : '\n' ∉ (['#'] : Text) := by decide
  exact ⟨hm, by decide +kernel, (oneALine_alike hm crampedScript).2 .tolerant⟩

end GameScript
