import GameScript.Proofs.Script.Gaps
import GameScript.Proofs.Script.Places
import GameScript.Proofs.Script.Soundness
import GameScript.Proofs.Script.Steady
import Mathlib.Data.List.Chain

/-!
# Steady sources are told apart by their hash

In a steady source the words are hashed as they are, and no question mark goes over to the operator
behind it. What is hashed of such a source is read as its tokens (`kinds_fingerprint`), so that it
determines what the source is read as (`eq_of_fingerprint_eq`). Each thing that is asked of a steady
source is needed (`merges_unsteady`).
-/

namespace GameScript

open Text Lexer

/-! ## Steady sources -/

/-- Whether a token is hashed as it is. -/
def TokenKind.IsSteady : TokenKind → Prop
  | word w => GameScript.IsSteady w
  | comment _ => False
  | openBrace | closeBrace | operator _ | endOfInput | illegal _ => True

instance : (k : TokenKind) → Decidable k.IsSteady
  | .word w => inferInstanceAs (Decidable (IsSteady w))
  | .comment _ => .isFalse id
  | .openBrace | .closeBrace | .operator _ | .endOfInput | .illegal _ => .isTrue trivial

/-- Whether a word keeps a question mark at its end, in front of an operator. -/
def keepsMark : TokenKind → TokenKind → Bool
  | .word w, .operator o => w.getLast? != some '?' || o.head? != some '='
  | _, _ => true

/-- Whether tokens are hashed as they are, each by itself and beside the next. -/
def Steady (ks : List TokenKind) : Prop :=
  (∀ k ∈ ks, k.IsSteady) ∧ ks.IsChain (keepsMark · ·)

instance (ks : List TokenKind) : Decidable (Steady ks) := inferInstanceAs (Decidable (_ ∧ _))

/-! ## Side by side -/

/-- Tokens that stay apart, with a blank between words. -/
def Meets (k k' : TokenKind) : Prop :=
  keepsMark k k' = true ∧ ¬ ∃ o o', k = .operator o ∧ k' = .operator o'

section

variable {m g r t : Text} {k k' : TokenKind} {ks : List TokenKind} {w w' : Text}

theorem Meets.mayMeet (h : Meets k k') (hwords : ¬ ∃ w w', k = .word w ∧ k' = .word w') :
    MayMeet k k' := by
  obtain ⟨hmark, hops⟩ := h
  cases k with
  | word w =>
    cases k' with
    | word w' => exact hwords ⟨w, w', rfl, rfl⟩
    | operator o => simpa [keepsMark, MayMeet, imp_iff_not_or] using hmark
    | openBrace | closeBrace | comment _ | endOfInput | illegal _ => exact trivial
  | operator o =>
    cases k' with
    | operator o' => exact hops ⟨o, o', rfl, rfl⟩
    | word _ | openBrace | closeBrace | comment _ | endOfInput | illegal _ => exact trivial
  | openBrace | closeBrace | comment _ | endOfInput | illegal _ => exact trivial

/-- Where a word that closes its brackets ends, no word begins. -/
theorem CutsOff.not_word (h : CutsOff m (.word w) (w' ++ r)) (hclosed : leavesOpen w = false) :
    ¬ CutsOff m (.word w') r := by
  intro h'
  obtain ⟨_, _, _, _, _, hw⟩ := cutsOff_word_iff.1 h
  obtain ⟨c, cs, rfl, _, _, hw'⟩ := cutsOff_word_iff.1 h'
  have hend := spanWord_after hw
  rw [h.after_word, hclosed, hw'] at hend
  cases (WordSpan.mk.inj hend).1

theorem CutsOff.startsBlank (hbom : '\uFEFF' ∉ m) (h : CutsOff m (.word w) (g ++ r))
    (hclosed : leavesOpen w = false) (hg : IsGaps g) : StartsBlank g := by
  cases g with
  | nil => rintro c ⟨⟩
  | cons c g =>
    rintro _ ⟨⟩
    obtain ⟨_, _, _, _, _, hw⟩ := cutsOff_word_iff.1 h
    have hend := spanWord_after hw
    rw [h.after_word, hclosed, List.cons_append, spanWord_cons] at hend
    have hgap := (isGaps_cons.1 hg).1
    simp only [isGap, Bool.or_eq_true, beq_iff_eq] at hgap
    refine hgap.resolve_right ?_
    rintro rfl
    -- a byte order mark belongs to the word
    have hstop : stopsWord m (.plain false) '\uFEFF' (g ++ r) = false := by
      simp only [stopsWord, endsWord, isCommentAt_foreign hbom]
      rfl
    rw [hstop] at hend
    cases (WordSpan.mk.inj hend).1

/-! ## Steady tokens -/

theorem TokenKind.IsSteady.isPiece (hk : k.IsSteady) (h : CutsOff m k r) :
    IsPiece k.lexeme ∧ '\t' ∉ k.lexeme := by
  cases k with
  | word w => exact ⟨(GameScript.IsSteady.isPiece hk h).1, hk.1⟩
  | openBrace | closeBrace | operator _ | comment _ | endOfInput | illegal _ =>
    exact h.isPiece_mark (by rintro w ⟨⟩)

theorem TokenKind.IsSteady.stands (hm : PlainMarker m) (hk : k.IsSteady) (h : CutsOff m k r) :
    Stands m k := by
  cases k with
  | word w => exact h.stands_word hm hk.2.2.2
  | operator o =>
    refine ⟨[], h.operator_before (isCommentAt_operator hm h _) ?_⟩
    rintro c cs ⟨⟩
    rfl
  | openBrace => exact ⟨[], cutsOff_openBrace hm.openBrace⟩
  | closeBrace => exact ⟨[], cutsOff_closeBrace hm.closeBrace⟩
  | comment _ | endOfInput | illegal _ => obtain ⟨c, cs, h, -⟩ := h; cases h

end

/-! ## What is hashed of steady tokens -/

section

variable {m g t : Text} {k k' : TokenKind} {ks : List TokenKind} (hm : PlainMarker m)
  (hbom : '\uFEFF' ∉ m)

include hm hbom

/-- A token is still cut off in front of what is hashed of the gap behind it. -/
theorem CutsOff.before_hashed_gap (hcut : CutsOff m k g) (hk : k.IsSteady) (hg : IsGaps g) :
    CutsOff m k (hashedRest (endsTight k.lexeme) g) := by
  obtain ⟨hgaps, hblank⟩ := hashedRest_gap hg (endsTight k.lexeme)
  refine (hk.stands hm hcut).before_gap hm (fun c hc => hgaps c (List.mem_of_mem_head? hc)) ?_
  rintro w rfl
  have hg' : StartsBlank g := by
    rw [← List.append_nil g] at hcut
    exact hcut.startsBlank hbom hk.2.2.2 hg
  exact hblank (GameScript.IsSteady.isPiece hk hcut).2.2 hg'

/-- So is a token in front of what is hashed of the gap and the token behind it. -/
theorem CutsOff.before_hashed_token (hcut : CutsOff m k (g ++ (k'.lexeme ++ t)))
    (hk : k.IsSteady) (hg : IsGaps g) (hmeet : Meets k k') (hcut' : CutsOff m k' t)
    (hk' : k'.IsSteady) (hnext : CutsOff m k' (hashedRest (endsTight k'.lexeme) t)) :
    CutsOff m k (hashedRest (endsTight k.lexeme) (g ++ (k'.lexeme ++ t))) := by
  obtain ⟨hpiece, htab⟩ := hk'.isPiece hcut'
  obtain ⟨g', hg', heq, hblank⟩ := hashedRest_token hg hpiece htab (endsTight k.lexeme) t
  have hstands := hk.stands hm hcut
  have hword : ∀ w, k = .word w → StartsBlank g' ∧
      (g' = [] → g = [] ∨ startsTight k'.lexeme = true) := by
    rintro w rfl
    exact hblank (GameScript.IsSteady.isPiece hk hcut).2.2 (hcut.startsBlank hbom hk.2.2.2 hg)
  rw [heq]
  cases g' with
  | cons c g' =>
    refine hstands.before_gap hm ?_ fun w hw d hd => (hword w hw).1 d hd
    rintro d ⟨⟩
    exact (isGaps_cons.1 hg').1
  | nil =>
    refine hstands.before_token hm (hmeet.mayMeet ?_) hnext
    -- between two words there was a blank, and one is left
    rintro ⟨w, w', rfl, rfl⟩
    rcases (hword w rfl).2 rfl with rfl | htight
    · have hcut : CutsOff m (.word w) (w' ++ t) := hcut
      exact hcut.not_word hk.2.2.2 hcut'
    · have hloose := (GameScript.IsSteady.isPiece hk' hcut').2.1
      rw [TokenKind.lexeme, hloose] at htight
      cases htight

/-- Tokens stay apart in what is hashed of them, and so does one before them. -/
theorem Spread.hashedRest (h : Spread m ks t) (hsteady : ∀ k ∈ ks, k.IsSteady)
    (hmeets : ks.IsChain Meets) : (∀ tight, Spread m ks (hashedRest tight t)) ∧
      ∀ k, k.IsSteady → CutsOff m k t → (∀ k' ∈ ks.head?, Meets k k') →
        CutsOff m k (hashedRest (endsTight k.lexeme) t) := by
  induction h with
  | nil hg =>
    exact ⟨fun tight => .nil (hashedRest_gap hg tight).1,
      fun k hk hcut _ => hcut.before_hashed_gap hm hbom hk hg⟩
  | @cons g t k' ks hg hcut' h ih =>
    rw [List.forall_mem_cons] at hsteady
    obtain ⟨hk', hsteady⟩ := hsteady
    obtain ⟨hspread, hcut⟩ := ih hsteady hmeets.tail
    have hnext := hcut k' hk' hcut' hmeets.rel_head?
    refine ⟨fun tight => ?_, fun k hk hcut hmeet => ?_⟩
    · obtain ⟨hpiece, htab⟩ := hk'.isPiece hcut'
      obtain ⟨g', hg', heq, -⟩ := hashedRest_token hg hpiece htab tight t
      rw [heq]
      exact .cons hg' hnext (hspread _)
    · exact hcut.before_hashed_token hm hbom hk hg (hmeet k' rfl) hcut' hk' hnext

theorem Spread.fingerprint (h : Spread m ks t) (hsteady : ∀ k ∈ ks, k.IsSteady)
    (hmeets : ks.IsChain Meets) :
    Spread m ks (Definition.fingerprint (Definition.tidyCode t)) := by
  cases h with
  | nil hg => exact .nil (fingerprint_gap hg)
  | @cons g t k ks hg hk h =>
    rw [List.forall_mem_cons] at hsteady
    obtain ⟨hspread, hcut⟩ := h.hashedRest hm hbom hsteady.2 hmeets.tail
    obtain ⟨hpiece, htab⟩ := hsteady.1.isPiece hk
    obtain ⟨g', hg', heq⟩ := fingerprint_token hg hpiece htab t
    rw [heq]
    exact .cons hg' (hcut k hsteady.1 hk hmeets.rel_head?) (hspread _)

end

/-! ## Whole sources -/

section

variable {m source : Text}

theorem plainKinds_of_steady (hs : Steady (kinds m source)) :
    plainKinds m source = kinds m source := by
  refine List.filter_eq_self.2 fun k hk => ?_
  have hk := hs.1 k hk
  cases k with
  | comment body => exact hk.elim
  | word _ | operator _ | openBrace | closeBrace | endOfInput | illegal _ => rfl

theorem meets_of_grammatical {ks : List TokenKind} (hg : Grammatical ks)
    (hmarks : ks.IsChain (keepsMark · ·)) : ks.IsChain Meets := by
  rw [List.isChain_iff_forall_rel_of_append_cons_cons] at hmarks ⊢
  intro k k' l r hks
  refine ⟨hmarks hks, ?_⟩
  rintro ⟨o, o', rfl, rfl⟩
  obtain ⟨-, k, r', hr, hvalue⟩ := hg.placed l o (.operator o' :: r) hks
  obtain ⟨rfl, rfl⟩ := List.cons.inj hr
  simp [IsValueStart] at hvalue

/-- **What is hashed of a steady source is read as its tokens.** -/
theorem kinds_fingerprint (hm : PlainMarker m) (hbom : '\uFEFF' ∉ m)
    (hg : Grammatical (plainKinds m source)) (hs : Steady (kinds m source)) :
    kinds m (Definition.fingerprint (Definition.tidyCode source)) = kinds m source := by
  rw [plainKinds_of_steady hs] at hg
  obtain ⟨ts, q, hts, hend⟩ := tokensFrom_eq_append (m := m) {} source
  have hkinds : kinds m source = ts.map (·.kind) ++ [.endOfInput] := by
    rw [kinds, tokens, hts, List.map_append]
    rfl
  have hmeets := meets_of_grammatical hg hs.2
  have hsteady := hs.1
  have hlexeme : ∀ k ∈ ts.map (·.kind), k.lexeme ≠ [] := by
    intro k hk
    have hmem : k ∈ kinds m source := hkinds ▸ List.mem_append_left _ hk
    cases k with
    | openBrace | closeBrace => exact List.cons_ne_nil _ _
    | word w => exact ne_nil_of_mem_kinds (.inl hmem)
    | operator o => exact ne_nil_of_mem_kinds (.inr hmem)
    | comment body => exact (hsteady _ hmem).elim
    | illegal cause => exact absurd hmem (hg.legal cause)
    | endOfInput =>
      obtain ⟨u, hu, hkind⟩ := List.mem_map.1 hk
      exact absurd hkind (hend u hu)
  rw [hkinds] at hmeets hsteady
  have hspread := (spread_of_kinds hkinds hlexeme).fingerprint hm hbom
    (fun k hk => hsteady k (List.mem_append_left _ hk)) hmeets.left_of_append
  rw [hspread.readsAs.kinds, hkinds]

theorem grammatical_of_parse {es : List Element} (h : parse .strict m source = .ok es) :
    Grammatical (plainKinds m source) :=
  (parse_strict_iff_grammatical m source).1.1 ⟨es, h⟩

/-- So what is hashed of a source that is read is read as the same elements. -/
theorem parse_fingerprint {es : List Element} (hm : PlainMarker m) (hbom : '\uFEFF' ∉ m)
    (h : parse .strict m source = .ok es) (hs : Steady (kinds m source)) :
    parse .strict m (Definition.fingerprint (Definition.tidyCode source)) = .ok es := by
  refine eq_ok_of_toOption ?_
  rw [parse_congr (kinds_fingerprint hm hbom (grammatical_of_parse h) hs), h]
  rfl

/-- **Steady sources are told apart by their hash**: if the same is hashed of two of them, they are
made of the same tokens and read as the same elements. -/
theorem eq_of_fingerprint_eq {a b : Text} {es fs : List Element} (hm : PlainMarker m)
    (hbom : '\uFEFF' ∉ m) (ha : parse .strict m a = .ok es) (hb : parse .strict m b = .ok fs)
    (hsa : Steady (kinds m a)) (hsb : Steady (kinds m b))
    (h : Definition.fingerprint (Definition.tidyCode a) =
      Definition.fingerprint (Definition.tidyCode b)) :
    kinds m a = kinds m b ∧ es = fs := by
  have hkinds := kinds_fingerprint hm hbom (grammatical_of_parse ha) hsa
  have hread := parse_fingerprint hm hbom ha hsa
  rw [h] at hkinds hread
  rw [kinds_fingerprint hm hbom (grammatical_of_parse hb) hsb] at hkinds
  rw [parse_fingerprint hm hbom hb hsb] at hread
  exact ⟨hkinds.symm, (Except.ok.inj hread).symm⟩

end

/-- A block with a quoted word, and the same on one line. -/
def quotedSource : Text := "x = \x7b\n\ty >= \"p  q\"\n\x7d"

def quotedLine : Text := "x=\x7b y >= \"p  q\" \x7d"

theorem eq_of_fingerprint_eq_quoted :
    Definition.fingerprint (Definition.tidyCode quotedSource) =
        Definition.fingerprint (Definition.tidyCode quotedLine) ∧
      kinds ['#'] quotedSource = kinds ['#'] quotedLine := by
  have ha : parse .strict ['#'] quotedSource =
      .ok [.block "x" "=" [.leaf "y" ">=" "\"p  q\""]] := eq_ok_of_toOption (by decide +kernel)
  have hb : parse .strict ['#'] quotedLine =
      .ok [.block "x" "=" [.leaf "y" ">=" "\"p  q\""]] := eq_ok_of_toOption (by decide +kernel)
  have hsa : Steady (kinds ['#'] quotedSource) := by decide +kernel
  have hsb : Steady (kinds ['#'] quotedLine) := by decide +kernel
  have h : Definition.fingerprint (Definition.tidyCode quotedSource) =
      Definition.fingerprint (Definition.tidyCode quotedLine) := by decide +kernel
  exact ⟨h, (eq_of_fingerprint_eq plainMarker_hash (by decide) ha hb hsa hsb h).1⟩

/-! ## Sources that are not told apart -/

/-- Two sources without comments that are read strictly, not as the same elements, while the same
is hashed of them. -/
def Merges (a b : Text) : Prop :=
  (∀ source ∈ [a, b], (parse .strict ['#'] source).toOption.isSome = true ∧
    ∀ k ∈ kinds ['#'] source, k.isComment = false) ∧
  (parse .strict ['#'] a).toOption ≠ (parse .strict ['#'] b).toOption ∧
  Definition.fingerprint (Definition.tidyCode a) = Definition.fingerprint (Definition.tidyCode b)

instance (a b : Text) : Decidable (Merges a b) := inferInstanceAs (Decidable (_ ∧ _))

/-- A tab or a line feed inside of quotes is lost, and so are blanks inside of brackets, brackets
that a line leaves open, and a blank behind a question mark. -/
theorem merges_unsteady :
    Merges "name = \"a\tb\"" "name = \"a    b\"" ∧ Merges "name = \"a\nb\"" "name = \"a b\"" ∧
      Merges "x[a  b]" "x[a b]" ∧ Merges "x[a\nb" "x[a b" ∧ Merges "a ? = b" "a ?= b" := by
  decide +kernel

end GameScript
