import GameScript.Script.Lexer

/-!
# Reading tokens, wherever they stand

`kinds` is the tokens of a source without their places. `CutsOff m k r` says that the lexeme of
`k` is cut off as that token in front of `r`, and `ReadsAs m t ks` that a text reads as given
kinds at every position, so that readings are put together token by token. A word or an operator
that is cut off in front of one text is cut off in front of every other one that ends it:
`CutsOff.word_before` and `CutsOff.operator_before`. Where another text goes on with the word, the
word takes in that part of it: `CutsOff.word_extend`.
-/

namespace GameScript

open Text

def kinds (marker source : Text) : List TokenKind := (tokens marker source).map (·.kind)

/-- The characters of a token that its kind determines. -/
def TokenKind.lexeme : TokenKind → Text
  | openBrace => ['{']
  | closeBrace => ['}']
  | operator t => t
  | word t => t
  | comment _ | endOfInput | illegal _ => []

namespace Lexer

variable {m : Text}

theorem isCommentAt_iff {t : Text} : isCommentAt m t = true ↔ m ≠ [] ∧ m <+: t := by
  simp only [isCommentAt, Bool.and_eq_true, bne_iff_ne, List.isPrefixOf_iff_prefix]

/-! ## What a cut takes -/

theorem spanOperator_append (t : Text) : (spanOperator t).1 ++ (spanOperator t).2 = t := by
  induction t with
  | nil => simp [spanOperator]
  | cons c cs ih =>
    unfold spanOperator
    split
    · simp [ih]
    · rfl

theorem of_spanOperator_cons {c : Char} {cs o r : Text}
    (h : spanOperator (c :: cs) = (c :: o, r)) :
    isOperatorAt c cs = true ∧ spanOperator cs = (o, r) := by
  unfold spanOperator at h
  split at h
  · rename_i hc
    refine ⟨hc, ?_⟩
    generalize spanOperator cs = x at h
    obtain ⟨xo, xr⟩ := x
    simp only [Prod.mk.injEq, List.cons.injEq, true_and] at h
    obtain ⟨rfl, rfl⟩ := h
    rfl
  · cases h

theorem spanWord_append (s : WordState) (t : Text) :
    (spanWord m s t).word ++ (spanWord m s t).rest = t := by
  fun_induction spanWord m s t <;> simp_all [WordSpan.cons]

/-- The state after a character that belongs to the word. -/
def WordState.next : WordState → Char → WordState
  | escaped b n, _ => quoted b (n + 1)
  | quoted b n, c =>
    if c = '"' then plain b else if c = '\\' then escaped b (n + 1) else quoted b (n + 1)
  | plain b, c =>
    if c = '"' then quoted b 1 else if c = '[' then plain true
    else if c = ']' then plain false else plain b

def WordState.after (s : WordState) (w : Text) : WordState := w.foldl next s

/-- Where the bracket switch stands. -/
def WordState.bracketed : WordState → Bool
  | .plain b => b
  | .quoted b _ => b
  | .escaped b _ => b

/-- Whether a word ends before `c`, which `cs` follows. -/
def stopsWord (m : Text) : WordState → Char → Text → Bool
  | .plain b, c, cs =>
    c != '"' && (c == '{' || c == '}' || c == '\n' || c == '\r'
      || (c != '[' && c != ']' && endsWord m b c cs))
  | _, _, _ => false

theorem spanWord_cons (s : WordState) (c : Char) (cs : Text) :
    spanWord m s (c :: cs) =
      if stopsWord m s c cs then ⟨[], c :: cs, none⟩ else (spanWord m (s.next c) cs).cons c := by
  cases s with
  | escaped b n => rfl
  | quoted b n =>
    simp only [spanWord, stopsWord, WordState.next, Bool.false_eq_true, if_false]
    split
    · rfl
    · split <;> rfl
  | plain b =>
    simp only [spanWord, stopsWord, WordState.next]
    by_cases h1 : c = '"'
    · simp [h1]
    by_cases h2 : c = '{' ∨ c = '}' ∨ c = '\n' ∨ c = '\r'
    · rcases h2 with rfl | rfl | rfl | rfl <;> simp
    by_cases h3 : c = '['
    · simp [h3]
    by_cases h4 : c = ']'
    · simp [h4]
    simp only [not_or] at h2
    simp [h1, h2, h3, h4]

theorem of_spanWord_cons {s : WordState} {c : Char} {cs w r : Text}
    (h : spanWord m s (c :: cs) = ⟨c :: w, r, none⟩) :
    stopsWord m s c cs = false ∧ spanWord m (s.next c) cs = ⟨w, r, none⟩ := by
  rw [spanWord_cons] at h
  split at h
  · cases (WordSpan.mk.inj h).1
  · rename_i hs
    refine ⟨Bool.eq_false_iff.2 hs, ?_⟩
    generalize spanWord m (s.next c) cs = x at h
    obtain ⟨xw, xr, xu⟩ := x
    simp only [WordSpan.cons, WordSpan.mk.injEq, List.cons.injEq, true_and] at h
    obtain ⟨rfl, rfl, rfl⟩ := h
    rfl

/-- A word ends outside quotes. -/
theorem plain_of_spanWord {s : WordState} {r : Text} (h : spanWord m s r = ⟨[], r, none⟩) :
    ∃ b, s = .plain b := by
  cases s with
  | plain b => exact ⟨b, rfl⟩
  | quoted b n =>
    cases r with
    | nil => cases (WordSpan.mk.inj h).2.2
    | cons c cs =>
      rw [spanWord_cons] at h
      cases (WordSpan.mk.inj h).1
  | escaped b n =>
    cases r with
    | nil => cases (WordSpan.mk.inj h).2.2
    | cons c cs =>
      rw [spanWord_cons] at h
      cases (WordSpan.mk.inj h).1

/-- Nothing but a word starts with this character. -/
structure StartsWord (m : Text) (c : Char) (cs : Text) : Prop where
  comment : isCommentAt m (c :: cs) = false
  opening : c ≠ '{'
  closing : c ≠ '}'
  operator : isOperatorAt c cs = false
  control : isControl c = false

/-- What a cut can be, at every position at once. -/
theorem cut_cases {c : Char} {cs : Text} {P : (Position → Cut) → Prop}
    (comment : isCommentAt m (c :: cs) = true →
      P fun _ => ⟨.comment (trimEnd (((c :: cs).drop m.length).takeWhile (· ≠ '\n'))),
        m ++ ((c :: cs).drop m.length).takeWhile (· ≠ '\n'),
        ((c :: cs).drop m.length).dropWhile (· ≠ '\n')⟩)
    (opening : isCommentAt m (c :: cs) = false → c = '{' → P fun _ => ⟨.openBrace, ['{'], cs⟩)
    (closing : isCommentAt m (c :: cs) = false → c = '}' → P fun _ => ⟨.closeBrace, ['}'], cs⟩)
    (operator : isCommentAt m (c :: cs) = false → isOperatorAt c cs = true →
      P fun _ => ⟨.operator (spanOperator (c :: cs)).1, (spanOperator (c :: cs)).1,
        (spanOperator (c :: cs)).2⟩)
    (control : isControl c = true → P fun _ => ⟨.illegal (.control c), [c], cs⟩)
    (word : StartsWord m c cs → (spanWord m (.plain false) (c :: cs)).unclosed = none →
      P fun _ => ⟨.word (spanWord m (.plain false) (c :: cs)).word,
        (spanWord m (.plain false) (c :: cs)).word, (spanWord m (.plain false) (c :: cs)).rest⟩)
    (unclosed : ∀ quote : Position → Position, StartsWord m c cs →
      P fun p => ⟨.illegal (.unterminated (quote p).line (quote p).column),
        (spanWord m (.plain false) (c :: cs)).word, (spanWord m (.plain false) (c :: cs)).rest⟩) :
    P fun p => cut m p c cs := by
  unfold cut
  by_cases hc : isCommentAt m (c :: cs) = true
  · simpa only [hc, if_true] using comment hc
  have hc := Bool.eq_false_iff.2 hc
  by_cases ho : c = '{'
  · subst ho
    simpa only [hc, if_true, if_false, Bool.false_eq_true] using opening hc rfl
  by_cases hcl : c = '}'
  · subst hcl
    simpa only [hc, ho, if_true, if_false, Bool.false_eq_true] using closing hc rfl
  by_cases hop : isOperatorAt c cs = true
  · simpa only [hc, ho, hcl, hop, if_true, if_false, Bool.false_eq_true] using operator hc hop
  by_cases hctl : isControl c = true
  · simpa only [hc, ho, hcl, hop, hctl, if_true, if_false, Bool.false_eq_true] using control hctl
  have hs : StartsWord m c cs :=
    ⟨hc, ho, hcl, Bool.eq_false_iff.2 hop, Bool.eq_false_iff.2 hctl⟩
  cases hu : (spanWord m (.plain false) (c :: cs)).unclosed with
  | none =>
    simpa only [hc, ho, hcl, hop, hctl, hu, if_true, if_false, Bool.false_eq_true]
      using word hs hu
  | some n =>
    simpa only [hc, ho, hcl, hop, hctl, hu, if_true, if_false, Bool.false_eq_true]
      using unclosed (fun p => p.advance ((spanWord m (.plain false) (c :: cs)).word.take
        ((spanWord m (.plain false) (c :: cs)).word.length - n))) hs

theorem isComment_cut {p : Position} {c : Char} {cs : Text}
    (h : isCommentAt m (c :: cs) = true) : (cut m p c cs).kind.isComment = true := by
  simp only [cut, h, if_true]
  rfl

/-- A cut takes its lexeme off the front. -/
theorem cut_append (p : Position) (c : Char) (cs : Text) :
    (cut m p c cs).lexeme ++ (cut m p c cs).rest = c :: cs := by
  refine cut_cases (P := fun f => (f p).lexeme ++ (f p).rest = c :: cs) ?_ ?_ ?_ ?_ ?_ ?_ ?_
  · intro hc
    obtain ⟨r, hr⟩ := (isCommentAt_iff.1 hc).2
    simp only [← hr, List.drop_left, List.append_assoc, List.takeWhile_append_dropWhile]
  · rintro - rfl; rfl
  · rintro - rfl; rfl
  · intros; exact spanOperator_append (c :: cs)
  · intros; rfl
  · intros; exact spanWord_append _ _
  · intros; exact spanWord_append _ _

/-- The lexeme of a cut is what its kind says. -/
theorem cut_lexeme {p : Position} {c : Char} {cs : Text} :
    (cut m p c cs).kind.lexeme ≠ [] → (cut m p c cs).lexeme = (cut m p c cs).kind.lexeme :=
  cut_cases (P := fun f => (f p).kind.lexeme ≠ [] → (f p).lexeme = (f p).kind.lexeme)
    (fun _ h => absurd rfl h) (fun _ _ _ => rfl) (fun _ _ _ => rfl) (fun _ _ _ => rfl)
    (fun _ h => absurd rfl h) (fun _ _ _ => rfl) (fun _ _ h => absurd rfl h)

/-- Only an unclosed quote knows where it stands. -/
theorem cut_start {p : Position} {c : Char} {cs : Text} (q : Position) :
    (cut m p c cs).kind.lexeme ≠ [] → cut m q c cs = cut m p c cs :=
  cut_cases (P := fun f => (f p).kind.lexeme ≠ [] → f q = f p)
    (fun _ _ => rfl) (fun _ _ _ => rfl) (fun _ _ _ => rfl) (fun _ _ _ => rfl)
    (fun _ _ => rfl) (fun _ _ _ => rfl) (fun _ _ h => absurd rfl h)

theorem cut_word {p : Position} {c : Char} {cs w r : Text} (h : StartsWord m c cs)
    (hw : spanWord m (.plain false) (c :: cs) = ⟨w, r, none⟩) :
    cut m p c cs = ⟨.word w, w, r⟩ := by
  unfold cut
  simp only [h.comment, h.opening, h.closing, h.operator, h.control, hw, if_false,
    Bool.false_eq_true]

theorem of_cut_word {p : Position} {c : Char} {cs w l r : Text} :
    cut m p c cs = ⟨.word w, l, r⟩ →
      StartsWord m c cs ∧ spanWord m (.plain false) (c :: cs) = ⟨w, r, none⟩ := by
  apply cut_cases (P := fun f => f p = ⟨.word w, l, r⟩ →
    StartsWord m c cs ∧ spanWord m (.plain false) (c :: cs) = ⟨w, r, none⟩)
  case word =>
    intro hs hu h
    obtain ⟨h1, h2, h3⟩ := Cut.mk.inj h
    refine ⟨hs, ?_⟩
    rw [← TokenKind.word.inj h1, ← h3, ← hu]
  all_goals intros; rename_i h; cases (Cut.mk.inj h).1

theorem cut_operator {p : Position} {c : Char} {cs o r : Text}
    (hc : isCommentAt m (c :: cs) = false) (h : spanOperator (c :: cs) = (c :: o, r)) :
    cut m p c cs = ⟨.operator (c :: o), c :: o, r⟩ := by
  have ho := (of_spanOperator_cons h).1
  have h1 : c ≠ '{' := by rintro rfl; revert ho; simp [isOperatorAt, isOperatorChar]
  have h2 : c ≠ '}' := by rintro rfl; revert ho; simp [isOperatorAt, isOperatorChar]
  unfold cut
  simp only [hc, h1, h2, ho, h, if_true, if_false, Bool.false_eq_true]

theorem of_cut_operator {p : Position} {c : Char} {cs o l r : Text} :
    cut m p c cs = ⟨.operator o, l, r⟩ →
      isCommentAt m (c :: cs) = false ∧ spanOperator (c :: cs) = (o, r) := by
  apply cut_cases (P := fun f => f p = ⟨.operator o, l, r⟩ →
    isCommentAt m (c :: cs) = false ∧ spanOperator (c :: cs) = (o, r))
  case operator =>
    intro hc ho h
    obtain ⟨h1, h2, h3⟩ := Cut.mk.inj h
    refine ⟨hc, ?_⟩
    rw [← TokenKind.operator.inj h1, ← h3]
  all_goals intros; rename_i h; cases (Cut.mk.inj h).1

theorem Cut.eq_mk {x : Cut} {k : TokenKind} {l r : Text} (hk : x.kind = k) (hl : x.lexeme = l)
    (hr : x.rest = r) : x = ⟨k, l, r⟩ := by
  subst hk hl hr
  rfl

/-! ## Tokens one by one -/

@[simp]
theorem tokensFrom_nil (p : Position) : tokensFrom m p [] = [⟨.endOfInput, ⟨p, p.offset⟩⟩] := by
  rw [tokensFrom]

theorem tokensFrom_gap {p : Position} {c : Char} {cs : Text} (h : isGap c = true) :
    tokensFrom m p (c :: cs) = tokensFrom m (p.next c) cs := by
  rw [tokensFrom, dif_pos h]

theorem tokensFrom_cut {p : Position} {c : Char} {cs : Text} (h : isGap c = false) :
    tokensFrom m p (c :: cs) =
      ⟨(cut m p c cs).kind, ⟨p, (p.advance (cut m p c cs).lexeme).offset⟩⟩ ::
        tokensFrom m (p.advance (cut m p c cs).lexeme) (cut m p c cs).rest := by
  rw [tokensFrom, dif_neg (by simp [h])]

/-- The first token is the end of input, or is cut off at the first character that is no gap. -/
theorem exists_first (p : Position) (t : Text) :
    (∃ q, tokensFrom m p t = [⟨.endOfInput, ⟨q, q.offset⟩⟩]) ∨
      ∃ q c cs, isGap c = false ∧ tokensFrom m p t = tokensFrom m q (c :: cs) := by
  induction t generalizing p with
  | nil => exact .inl ⟨p, tokensFrom_nil p⟩
  | cons c cs ih =>
    cases h : isGap c with
    | false => exact .inr ⟨p, c, cs, h, rfl⟩
    | true => rw [tokensFrom_gap h]; exact ih _

theorem kind_cut_ne {p : Position} {c : Char} {cs : Text} : (cut m p c cs).kind ≠ .endOfInput :=
  cut_cases (P := fun f => (f p).kind ≠ .endOfInput)
    (by simp) (by simp) (by simp) (by simp) (by simp) (by simp) (by simp)

/-- The tokens of a text end with the end of input, which is not among the others. -/
theorem tokensFrom_eq_append (p : Position) (t : Text) :
    ∃ ts q, tokensFrom m p t = ts ++ [⟨.endOfInput, ⟨q, q.offset⟩⟩] ∧
      ∀ u ∈ ts, u.kind ≠ .endOfInput := by
  fun_induction tokensFrom m p t with
  | case1 p => exact ⟨[], p, rfl, by simp⟩
  | case2 p c cs hgap ih => exact ih
  | case3 p c cs hgap x after ih =>
    obtain ⟨ts, q, hts, hend⟩ := ih
    exact ⟨_ :: ts, q, by rw [hts, List.cons_append], List.forall_mem_cons.2 ⟨kind_cut_ne, hend⟩⟩

end Lexer

open Lexer

/-! ## Readings -/

/-- In front of `r`, the lexeme of `k` is cut off as that token. -/
def CutsOff (m : Text) (k : TokenKind) (r : Text) : Prop :=
  ∃ c cs, k.lexeme = c :: cs ∧ isGap c = false ∧ ∀ p, cut m p c (cs ++ r) = ⟨k, k.lexeme, r⟩

/-- The tokens of a text are of these kinds, wherever it stands. -/
def ReadsAs (m t : Text) (ks : List TokenKind) : Prop :=
  ∀ p, (tokensFrom m p t).map (·.kind) = ks

section

variable {m r t : Text} {k : TokenKind} {ks : List TokenKind}

theorem ReadsAs.kinds (h : ReadsAs m t ks) : kinds m t = ks := h {}

theorem readsAs_nil : ReadsAs m [] [.endOfInput] := fun p => by
  rw [tokensFrom_nil]; rfl

theorem ReadsAs.gap {c : Char} (h : ReadsAs m t ks) (hc : isGap c = true) :
    ReadsAs m (c :: t) ks := fun p => by
  rw [tokensFrom_gap hc]; exact h _

theorem ReadsAs.gaps {g : Text} (h : ReadsAs m t ks) (hg : ∀ c ∈ g, isGap c = true) :
    ReadsAs m (g ++ t) ks := by
  induction g with
  | nil => exact h
  | cons c g ih =>
    exact (ih fun c hc => hg c (List.mem_cons_of_mem _ hc)).gap (hg c List.mem_cons_self)

theorem CutsOff.tokensFrom (hk : CutsOff m k r) (p : Position) :
    ∃ q, (tokensFrom m p (k.lexeme ++ r)).map (·.kind) = k :: (tokensFrom m q r).map (·.kind) := by
  obtain ⟨c, cs, hl, hg, hcut⟩ := hk
  rw [hl, List.cons_append, tokensFrom_cut hg, hcut, List.map_cons]
  exact ⟨_, rfl⟩

theorem ReadsAs.cons (h : ReadsAs m r ks) (hk : CutsOff m k r) :
    ReadsAs m (k.lexeme ++ r) (k :: ks) := fun p => by
  obtain ⟨q, hq⟩ := hk.tokensFrom p
  rw [hq, h]

/-- What it takes for a word to be cut off. -/
theorem cutsOff_word_iff {w : Text} : CutsOff m (.word w) r ↔
    ∃ c cs, w = c :: cs ∧ isGap c = false ∧ StartsWord m c (cs ++ r) ∧
      spanWord m (.plain false) (w ++ r) = ⟨w, r, none⟩ := by
  constructor
  · rintro ⟨c, cs, hw, hg, hcut⟩
    obtain ⟨hs, hspan⟩ := of_cut_word (hcut {})
    obtain rfl : w = c :: cs := hw
    exact ⟨c, cs, rfl, hg, hs, hspan⟩
  · rintro ⟨c, cs, rfl, hg, hs, hspan⟩
    exact ⟨c, cs, rfl, hg, fun _ => cut_word hs hspan⟩

theorem cutsOff_operator_iff {o : Text} : CutsOff m (.operator o) r ↔
    ∃ c cs, o = c :: cs ∧ isGap c = false ∧ isCommentAt m (o ++ r) = false ∧
      spanOperator (o ++ r) = (o, r) := by
  constructor
  · rintro ⟨c, cs, ho, hg, hcut⟩
    obtain ⟨hc, hspan⟩ := of_cut_operator (hcut {})
    obtain rfl : o = c :: cs := ho
    exact ⟨c, cs, rfl, hg, hc, hspan⟩
  · rintro ⟨c, cs, rfl, hg, hc, hspan⟩
    exact ⟨c, cs, rfl, hg, fun _ => cut_operator hc hspan⟩

theorem kind_of_tokensFrom {p : Position} {c : Char} {cs : Text} (hc : isGap c = false)
    (h : (tokensFrom m p (c :: cs)).map (·.kind) = k :: ks) : (cut m p c cs).kind = k := by
  rw [tokensFrom_cut hc, List.map_cons] at h
  exact (List.cons.inj h).1

/-- What is cut off and has a lexeme is cut off so at every position. -/
theorem cutsOff_cut {p : Position} {c : Char} {cs : Text} (hc : isGap c = false)
    (hk : (cut m p c cs).kind.lexeme ≠ []) :
    CutsOff m (cut m p c cs).kind (cut m p c cs).rest := by
  have hall := cut_append (m := m) p c cs
  have hlexeme := cut_lexeme hk
  obtain ⟨d, ds, hd⟩ := List.exists_cons_of_ne_nil hk
  rw [hlexeme, hd, List.cons_append] at hall
  obtain ⟨rfl, hrest⟩ := List.cons.inj hall
  refine ⟨d, ds, hd, hc, fun q => ?_⟩
  rw [hrest, cut_start q hk]
  exact Cut.eq_mk rfl hlexeme rfl

theorem cutsOff_of_tokensFrom {p : Position} (hk : k.lexeme ≠ [])
    (h : (tokensFrom m p (k.lexeme ++ r)).map (·.kind) = k :: ks) : CutsOff m k r := by
  obtain ⟨c, cs, hl⟩ := List.exists_cons_of_ne_nil hk
  rw [hl, List.cons_append] at h
  have hgap : isGap c = false := by
    rcases exists_first (m := m) p (c :: (cs ++ r)) with ⟨q, hq⟩ | ⟨q, d, ds, hd, hq⟩
    · rw [hq] at h
      exact absurd (congrArg TokenKind.lexeme (List.cons.inj h).1).symm hk
    · rw [hq] at h
      have hkind := kind_of_tokensFrom hd h
      have happ := cut_append (m := m) q d ds
      rw [cut_lexeme (by rw [hkind]; exact hk), hkind, hl] at happ
      rw [(List.cons.inj happ).1]
      exact hd
  have hkind := kind_of_tokensFrom hgap h
  have hne : (cut m p c (cs ++ r)).kind.lexeme ≠ [] := by rw [hkind]; exact hk
  have hrest : (cut m p c (cs ++ r)).rest = r := by
    have happ := cut_append (m := m) p c (cs ++ r)
    rw [cut_lexeme hne, hkind, hl, ← List.cons_append] at happ
    exact List.append_cancel_left happ
  have hcut := cutsOff_cut hgap hne
  rwa [hkind, hrest] at hcut

theorem cutsOff_of_mem_tokensFrom {p : Position} {u : Token} (hu : u ∈ tokensFrom m p t)
    (hk : u.kind.lexeme ≠ []) : ∃ r, CutsOff m u.kind r := by
  fun_induction tokensFrom m p t with
  | case1 p =>
    obtain rfl := List.mem_singleton.1 hu
    exact absurd rfl hk
  | case2 p c cs hgap ih => exact ih hu
  | case3 p c cs hgap x after ih =>
    rcases List.mem_cons.1 hu with rfl | hu
    · exact ⟨_, cutsOff_cut (by simpa using hgap) hk⟩
    · exact ih hu

/-- A word or an operator that was read has characters. -/
theorem ne_nil_of_mem_tokensFrom {p : Position} {u : Token} {w : Text}
    (hu : u ∈ tokensFrom m p t) (hk : u.kind = .word w ∨ u.kind = .operator w) : w ≠ [] := by
  fun_induction tokensFrom m p t with
  | case1 p =>
    obtain rfl := List.mem_singleton.1 hu
    rcases hk with hk | hk <;> cases hk
  | case2 p c cs hgap ih => exact ih hu
  | case3 p c cs hgap x after ih =>
    rcases List.mem_cons.1 hu with rfl | hu
    · have hall : w ++ x.rest = c :: cs := by
        rcases hk with hk | hk
        · obtain ⟨-, hspan⟩ := of_cut_word (Cut.eq_mk hk rfl rfl)
          simpa [hspan] using spanWord_append (m := m) (.plain false) (c :: cs)
        · obtain ⟨-, hspan⟩ := of_cut_operator (Cut.eq_mk hk rfl rfl)
          simpa [hspan] using spanOperator_append (c :: cs)
      rintro rfl
      have hshorter := length_cut m p c cs (by simpa using hgap)
      exact absurd (congrArg List.length hall) (Nat.ne_of_lt hshorter)
    · exact ih hu

theorem cutsOff_of_mem_kinds (h : k ∈ kinds m t) (hk : k.lexeme ≠ []) : ∃ r, CutsOff m k r := by
  obtain ⟨u, hu, rfl⟩ := List.mem_map.1 h
  exact cutsOff_of_mem_tokensFrom hu hk

theorem ne_nil_of_mem_kinds {w : Text}
    (h : .word w ∈ kinds m t ∨ .operator w ∈ kinds m t) : w ≠ [] := by
  rcases h with h | h
  · obtain ⟨u, hu, hk⟩ := List.mem_map.1 h
    exact ne_nil_of_mem_tokensFrom hu (.inl hk)
  · obtain ⟨u, hu, hk⟩ := List.mem_map.1 h
    exact ne_nil_of_mem_tokensFrom hu (.inr hk)

theorem cutsOff_word_of_mem_kinds {w : Text} (h : .word w ∈ kinds m t) :
    ∃ r, CutsOff m (.word w) r :=
  cutsOff_of_mem_kinds h (ne_nil_of_mem_kinds (.inl h))

end

/-! ## What may follow a token -/

section

variable {m r r' : Text}

theorem isCommentAt_foreign {c : Char} (h : c ∉ m) (t : Text) : isCommentAt m (c :: t) = false := by
  refine Bool.eq_false_iff.2 fun hc => ?_
  obtain ⟨hm, u, hu⟩ := isCommentAt_iff.1 hc
  obtain ⟨d, m', rfl⟩ := List.exists_cons_of_ne_nil hm
  rw [List.cons_append] at hu
  exact h ((List.cons.inj hu).1 ▸ List.mem_cons_self)

/-- No comment reaches over into a text that starts with a character foreign to the marker. -/
theorem isCommentAt_before {t : Text} (h : isCommentAt m (t ++ r) = false)
    (hr : ∀ c ∈ r'.head?, c ∉ m) : isCommentAt m (t ++ r') = false := by
  refine Bool.eq_false_iff.2 fun hc => Bool.eq_false_iff.1 h ?_
  obtain ⟨hm, u, hu⟩ := isCommentAt_iff.1 hc
  refine isCommentAt_iff.2 ⟨hm, ?_⟩
  rcases List.append_eq_append_iff.1 hu with ⟨v, rfl, -⟩ | ⟨v, rfl, rfl⟩
  · exact (List.prefix_append _ _).trans (List.prefix_append _ _)
  · cases v with
    | nil => simp only [List.append_nil, List.prefix_append]
    | cons c v => exact absurd (List.mem_append_right _ List.mem_cons_self) (hr c rfl)

theorem isCommentAt_append {t : Text} (hr : ∀ c ∈ r.head?, c ∉ m) :
    isCommentAt m (t ++ r) = isCommentAt m t := by
  cases h : isCommentAt m t with
  | true =>
    obtain ⟨hne, hprefix⟩ := isCommentAt_iff.1 h
    exact isCommentAt_iff.2 ⟨hne, hprefix.trans (List.prefix_append _ _)⟩
  | false => exact isCommentAt_before (r := []) (by rwa [List.append_nil]) hr

/-- A question mark at the end of a word looks one character ahead. -/
theorem isOperatorAt_before {c : Char} {cs : Text} (h : isOperatorAt c (cs ++ r) = false)
    (hq : (c :: cs).getLast? = some '?' → r'.head? ≠ some '=') :
    isOperatorAt c (cs ++ r') = false := by
  cases cs with
  | cons d cs => exact h
  | nil =>
    simp only [isOperatorAt, Bool.or_eq_false_iff, Bool.and_eq_false_iff] at h ⊢
    refine ⟨h.1, ?_⟩
    by_cases hc : c = '?'
    · subst hc
      exact .inr (by simpa using hq rfl)
    · exact .inl (by simpa using hc)

/-- The same place in a word, inside brackets if the other is. -/
inductive Looser : WordState → WordState → Prop
  | plain {b b' : Bool} : (b = true → b' = true) → Looser (.plain b) (.plain b')
  | quoted {b b' : Bool} {n : Nat} : (b = true → b' = true) → Looser (.quoted b n) (.quoted b' n)
  | escaped {b b' : Bool} {n : Nat} : (b = true → b' = true) → Looser (.escaped b n) (.escaped b' n)

theorem looser_refl (s : WordState) : Looser s s := by
  cases s with
  | plain b => exact .plain id
  | quoted b n => exact .quoted id
  | escaped b n => exact .escaped id

theorem Looser.next {s s' : WordState} (h : Looser s s') (c : Char) :
    Looser (s.next c) (s'.next c) := by
  cases h with
  | escaped hb => exact .quoted hb
  | quoted hb =>
    rw [WordState.next, WordState.next]
    split
    · exact .plain hb
    · split
      · exact .escaped hb
      · exact .quoted hb
  | plain hb =>
    rw [WordState.next, WordState.next]
    split
    · exact .quoted hb
    · split
      · exact .plain id
      · split
        · exact .plain id
        · exact .plain hb

theorem Looser.after {s s' : WordState} (h : Looser s s') (w : Text) :
    Looser (s.after w) (s'.after w) := by
  induction w generalizing s s' with
  | nil => exact h
  | cons c w ih => exact ih (h.next c)

/-- What does not end a word does not end it further inside, nor in front of another text. -/
theorem stopsWord_before {s s' : WordState} {c : Char} {w : Text} (hs : Looser s s')
    (hr : ∀ c ∈ r'.head?, c ∉ m) (hq : (c :: w).getLast? = some '?' → r'.head? ≠ some '=')
    (h : stopsWord m s c (w ++ r) = false) : stopsWord m s' c (w ++ r') = false := by
  cases hs with
  | quoted hb => rfl
  | escaped hb => rfl
  | plain hb =>
    have hop : isOperatorAt c (w ++ r) = false → isOperatorAt c (w ++ r') = false :=
      fun h => isOperatorAt_before h hq
    have hcom : isCommentAt m (c :: (w ++ r)) = false → isCommentAt m (c :: (w ++ r')) = false :=
      fun h => isCommentAt_before (t := c :: w) h hr
    simp only [stopsWord, endsWord, Bool.and_eq_false_iff, Bool.or_eq_false_iff] at h ⊢
    grind

theorem spanWord_after_append {s : WordState} {w u : Text}
    (h : spanWord m s (w ++ (u ++ r)) = ⟨w ++ u, r, none⟩) :
    spanWord m (s.after w) (u ++ r) = ⟨u, r, none⟩ := by
  induction w generalizing s with
  | nil => exact h
  | cons c w ih => exact ih (of_spanWord_cons h).2

/-- Behind a word, the text that follows it ends it. -/
theorem spanWord_after {s : WordState} {w : Text} (h : spanWord m s (w ++ r) = ⟨w, r, none⟩) :
    spanWord m (s.after w) r = ⟨[], r, none⟩ :=
  spanWord_after_append (u := []) (by rwa [List.append_nil])

/-- In front of a text that goes on with `u`, a word goes on with `u`, and still further inside
brackets. -/
theorem spanWord_extend {s s' : WordState} {w u t : Text} (hs : Looser s s')
    (ht : ∀ c ∈ t.head?, c ∉ m) (hq : w.getLast? = some '?' → t.head? ≠ some '=')
    (h : spanWord m s (w ++ r) = ⟨w, r, none⟩)
    (hu : spanWord m (s'.after w) t = ⟨u, r', none⟩) :
    spanWord m s' (w ++ t) = ⟨w ++ u, r', none⟩ := by
  induction w generalizing s s' with
  | nil => exact hu
  | cons c w ih =>
    obtain ⟨hstop, hw⟩ := of_spanWord_cons h
    have hq' : w.getLast? = some '?' → t.head? ≠ some '=' := by
      intro hl
      cases w with
      | nil => cases hl
      | cons d w => exact hq (by rw [List.getLast?_cons_cons]; exact hl)
    rw [List.cons_append, spanWord_cons, if_neg (by simp [stopsWord_before hs ht hq hstop]),
      ih (hs.next c) hq' hw hu]
    rfl

theorem CutsOff.word_extend {w u : Text} (h : CutsOff m (.word w) r)
    (ht : ∀ c ∈ (u ++ r').head?, c ∉ m)
    (hq : w.getLast? = some '?' → (u ++ r').head? ≠ some '=')
    (hu : spanWord m ((WordState.plain false).after w) (u ++ r') = ⟨u, r', none⟩) :
    CutsOff m (.word (w ++ u)) r' := by
  obtain ⟨c, cs, rfl, hg, hs, hw⟩ := cutsOff_word_iff.1 h
  have hspan := spanWord_extend (looser_refl _) ht hq hw hu
  have hs' : StartsWord m c (cs ++ (u ++ r')) :=
    { hs with
      comment := isCommentAt_before (t := c :: cs) hs.comment ht
      operator := isOperatorAt_before hs.operator hq }
  rw [← List.append_assoc] at hspan hs'
  exact cutsOff_word_iff.2 ⟨c, cs ++ u, rfl, hg, hs', hspan⟩

/-- `r'` ends a word wherever `r` does, and a marker has no part in it. -/
structure EndsLike (m r r' : Text) : Prop where
  ends : ∀ b, spanWord m (.plain b) r = ⟨[], r, none⟩ → spanWord m (.plain b) r' = ⟨[], r', none⟩
  foreign : ∀ c ∈ r'.head?, c ∉ m

/-- A word that is cut off in front of one text is cut off in front of every other that ends it. -/
theorem CutsOff.word_before {w : Text} (h : CutsOff m (.word w) r) (he : EndsLike m r r')
    (hq : w.getLast? = some '?' → r'.head? ≠ some '=') : CutsOff m (.word w) r' := by
  obtain ⟨_, _, _, _, _, hw⟩ := cutsOff_word_iff.1 h
  have hafter := spanWord_after hw
  obtain ⟨b, hb⟩ := plain_of_spanWord hafter
  rw [hb] at hafter
  have hends := he.ends b hafter
  rw [← hb] at hends
  simpa using h.word_extend (u := []) he.foreign hq hends

/-- An operator is read the same in front of every text that does not go on with it. -/
theorem spanOperator_before {o : Text} (hr : ∀ c cs, r' = c :: cs → isOperatorAt c cs = false)
    (h : spanOperator (o ++ r) = (o, r)) : spanOperator (o ++ r') = (o, r') := by
  induction o with
  | nil =>
    cases r' with
    | nil => rfl
    | cons c cs =>
      simp only [List.nil_append, spanOperator, hr c cs rfl, Bool.false_eq_true, if_false]
  | cons c o ih =>
    obtain ⟨hc, ho⟩ := of_spanOperator_cons h
    have hc' : isOperatorAt c (o ++ r') = true := by
      cases o with
      | cons d o => exact hc
      | nil =>
        simp only [isOperatorAt, List.nil_append, Bool.or_eq_true, Bool.and_eq_true,
          beq_iff_eq] at hc ⊢
        refine hc.imp_right fun hq => ?_
        -- an equals sign after the question mark would belong to the operator
        obtain ⟨cs, rfl⟩ := List.head?_eq_some_iff.1 hq.2
        cases (Prod.mk.inj ho).1
    rw [List.cons_append, spanOperator, if_pos hc', ih ho]

/-- An operator that is cut off in front of one text is cut off in front of every other that does
not go on with it. -/
theorem CutsOff.operator_before {o : Text} (h : CutsOff m (.operator o) r)
    (hc : isCommentAt m (o ++ r') = false) (hr : ∀ c cs, r' = c :: cs → isOperatorAt c cs = false) :
    CutsOff m (.operator o) r' := by
  obtain ⟨c, cs, rfl, hg, -, ho⟩ := cutsOff_operator_iff.1 h
  exact cutsOff_operator_iff.2 ⟨c, cs, rfl, hg, hc, spanOperator_before hr ho⟩

/-- No comment starts where another token is cut off. -/
theorem CutsOff.not_comment {k : TokenKind} (h : CutsOff m k r) :
    isCommentAt m (k.lexeme ++ r) = false := by
  obtain ⟨c, cs, hk, -, hcut⟩ := h
  refine Bool.eq_false_iff.2 fun hcomment => ?_
  rw [hk, List.cons_append] at hcomment
  have hkind := isComment_cut (p := {}) hcomment
  rw [hcut] at hkind
  cases k with
  | comment body => cases hk
  | endOfInput | illegal cause | openBrace | closeBrace | operator op | word w =>
    exact Bool.false_ne_true hkind

theorem cutsOff_openBrace_iff : CutsOff m .openBrace r ↔ isCommentAt m ('{' :: r) = false := by
  refine ⟨CutsOff.not_comment, fun h => ⟨'{', [], rfl, rfl, fun p => ?_⟩⟩
  show cut m p '{' r = ⟨.openBrace, ['{'], r⟩
  unfold cut
  rw [h, if_neg Bool.false_ne_true, if_pos rfl]

theorem cutsOff_closeBrace_iff : CutsOff m .closeBrace r ↔ isCommentAt m ('}' :: r) = false := by
  refine ⟨CutsOff.not_comment, fun h => ⟨'}', [], rfl, rfl, fun p => ?_⟩⟩
  show cut m p '}' r = ⟨.closeBrace, ['}'], r⟩
  unfold cut
  rw [h, if_neg Bool.false_ne_true, if_neg (by decide), if_pos rfl]

theorem cutsOff_openBrace (h : '{' ∉ m) : CutsOff m .openBrace r :=
  cutsOff_openBrace_iff.2 (isCommentAt_foreign h r)

theorem cutsOff_closeBrace (h : '}' ∉ m) : CutsOff m .closeBrace r :=
  cutsOff_closeBrace_iff.2 (isCommentAt_foreign h r)

theorem CutsOff.operator_start {o : Text} (h : CutsOff m (.operator o) r) :
    ∃ c cs, o = c :: cs ∧ isOperatorAt c (cs ++ r) = true := by
  obtain ⟨c, cs, rfl, -, -, ho⟩ := cutsOff_operator_iff.1 h
  exact ⟨c, cs, rfl, (of_spanOperator_cons ho).1⟩

/-- A blank ends a word outside brackets, and so does everything that stops it there. -/
theorem endsLike_blank {x : Text} (hstop : ∀ c cs, r' = c :: cs → stopsWord m (.plain false) c cs)
    (hm : ∀ c ∈ r'.head?, c ∉ m) : EndsLike m (' ' :: x) r' where
  foreign := hm
  ends b h := by
    cases b with
    | true =>
      rw [spanWord_cons, if_neg (by simp [stopsWord, endsWord]; decide)] at h
      cases (WordSpan.mk.inj h).1
    | false =>
      cases r' with
      | nil => rfl
      | cons c cs => rw [spanWord_cons, if_pos (hstop c cs rfl)]

end

end GameScript
