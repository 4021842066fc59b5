import GameScript.Proofs.Script.Condensing

/-!
# A hash sees tokens, not their layout

However the tokens of code are spread over lines, what is hashed is one text, the tokens squeezed
together (`fingerprint_of_isHashed`). The tokens are here those that condensing knows: an equals
sign, braces, plain words and quoted texts on one line. They need not be read as tokens, a plain
word may well have an operator or the marker of comments in it.
-/

namespace GameScript

open Text

/-- What may stand between quotes on one line: a backslash takes the character behind it along. -/
inductive IsQuotable : Text → Prop where
  | nil : IsQuotable []
  | plain {c : Char} {t : Text} : c ∉ ['"', '\\', '\n', '\r', '\t'] → IsQuotable t →
      IsQuotable (c :: t)
  | escape {c : Char} {t : Text} : c ∉ ['\n', '\r', '\t'] → IsQuotable t →
      IsQuotable ('\\' :: c :: t)

/-- A plain word: no blanks, no quotes and nothing tight. Control characters do no harm in it. -/
def IsPlain (w : Text) : Prop :=
  w ≠ [] ∧ ∀ c ∈ w, isBlankChar c = false ∧ c ≠ '"' ∧ isTight c = false

instance (w : Text) : Decidable (IsPlain w) :=
  decidable_of_iff (w ≠ [] ∧ w.all fun c => !isBlankChar c && c != '"' && !isTight c)
    (by simp [IsPlain, and_assoc])

/-- The tokens that condensing knows. -/
inductive IsHashed : TokenKind → Prop where
  | equals : IsHashed (.operator ['='])
  | openBrace : IsHashed .openBrace
  | closeBrace : IsHashed .closeBrace
  | plain {w : Text} : IsPlain w → IsHashed (.word w)
  | quoted {w : Text} : IsQuotable w → IsHashed (.word ('"' :: (w ++ ['"'])))

/-- Tokens that need nothing between them: one of them is no word. -/
def MayAdjoin (k k' : TokenKind) : Prop := (∀ w, k ≠ .word w) ∨ ∀ w, k' ≠ .word w

section

variable {w r : Text} {k k' : TokenKind}

/-! ## Quoted texts -/

theorem IsQuotable.not_mem (h : IsQuotable w) {c : Char} (hc : c ∈ ['\n', '\r', '\t']) :
    c ∉ w := by
  induction h with
  | nil => exact List.not_mem_nil
  | @plain d t hd _ ih =>
    have hne : c ≠ d := fun heq => hd (heq ▸ List.mem_cons_of_mem _ (List.mem_cons_of_mem _ hc))
    simpa using ⟨hne, ih⟩
  | @escape d t hd _ ih =>
    have hslash : c ≠ '\\' := by rintro rfl; revert hc; decide
    have hne : c ≠ d := fun heq => hd (heq ▸ hc)
    simpa using ⟨hslash, hne, ih⟩

/-- Inside quotes everything is copied, up to the quote that closes them. -/
theorem IsQuotable.condenseFrom (h : IsQuotable w) (r : Text) :
    condenseFrom .quoted (w ++ '"' :: r) =
      w ++ '"' :: Text.condenseFrom (.outside false false) r := by
  induction h with
  | nil => rfl
  | @plain c t hc _ ih =>
    have hslash : c ≠ '\\' := by rintro rfl; exact hc (by decide)
    have hquote : c ≠ '"' := by rintro rfl; exact hc (by decide)
    rw [List.cons_append, Text.condenseFrom, if_neg hslash, if_neg hquote, ih, List.cons_append]
  | @escape c t hc _ ih =>
    have hstep : Text.condenseFrom .quoted ('\\' :: c :: (t ++ '"' :: r)) =
        '\\' :: c :: Text.condenseFrom .quoted (t ++ '"' :: r) := rfl
    exact hstep.trans (congrArg ('\\' :: c :: ·) ih)

theorem IsQuotable.isPiece (h : IsQuotable w) : IsPiece ('"' :: (w ++ ['"'])) where
  bounded := ⟨⟨'"', _, rfl, by decide⟩, '"' :: w, '"', rfl, by decide⟩
  line := by simpa using h.not_mem (by decide)
  copied := by
    intro tight pending r
    have hends : endsTight ('"' :: (w ++ ['"'])) = false := by
      rw [endsTight, ← List.cons_append, List.getLast?_concat]
      rfl
    have hquote : ¬ ('"' = ' ' ∨ '"' = '\t') := by decide
    rw [List.cons_append, List.append_assoc, List.singleton_append, condenseFrom_mark hquote,
      if_pos rfl, h.condenseFrom r, hends, List.cons_append, List.append_assoc,
      List.singleton_append]
    rfl

/-! ## Tokens -/

theorem IsPlain.ends (h : IsPlain w) : startsTight w = false ∧ endsTight w = false := by
  obtain ⟨-, hw⟩ := h
  constructor
  · rw [startsTight, Option.any_eq_false]
    exact fun c hc => by simp [(hw c (List.mem_of_head? hc)).2.2]
  · rw [endsTight, Option.any_eq_false]
    exact fun c hc => by simp [(hw c (List.mem_of_getLast? hc)).2.2]

namespace IsHashed

theorem isPiece (h : IsHashed k) : IsPiece k.lexeme ∧ '\t' ∉ k.lexeme := by
  have hmark {c : Char} (hc : isBlankChar c = false ∧ c ≠ '"') (htab : '\t' ∉ [c]) :
      IsPiece [c] ∧ '\t' ∉ [c] :=
    ⟨isPiece_of_marks (List.cons_ne_nil _ _) (List.forall_mem_singleton.2 hc), htab⟩
  cases h with
  | equals => exact hmark (by decide) (by decide)
  | openBrace => exact hmark (by decide) (by decide)
  | closeBrace => exact hmark (by decide) (by decide)
  | plain hw =>
    exact ⟨isPiece_of_marks hw.1 fun c hc => ⟨(hw.2 c hc).1, (hw.2 c hc).2.1⟩,
      fun htab => absurd (hw.2 _ htab).1 (by decide)⟩
  | quoted hw =>
    have htab := hw.not_mem (c := '\t') (by decide)
    exact ⟨hw.isPiece, by simpa [TokenKind.lexeme] using htab⟩

/-- All but words are tight. -/
theorem tight (h : IsHashed k) (hk : ∀ w, k ≠ .word w) :
    startsTight k.lexeme = true ∧ endsTight k.lexeme = true := by
  cases h with
  | equals | openBrace | closeBrace => exact ⟨rfl, rfl⟩
  | plain _ => exact absurd rfl (hk _)
  | quoted _ => exact absurd rfl (hk _)

theorem tight_of_mayAdjoin (h : IsHashed k) (h' : IsHashed k') (hkk' : MayAdjoin k k') :
    Tight k k' :=
  hkk'.imp (fun hk => (h.tight hk).2) fun hk' => (h'.tight hk').1

end IsHashed

end

/-! ## Layouts -/

section

variable {ks : List TokenKind} {t u : Text} {T T' : TokenKind → TokenKind → Prop}

theorem LaysOut.mono (h : LaysOut T ks t) (hT : ∀ k ∈ ks, ∀ k' ∈ ks, T k k' → T' k k') :
    LaysOut T' ks t := by
  induction h with
  | nil hg => exact .nil hg
  | @cons g t k ks hg hap _ ih =>
    refine .cons hg (hap.imp_right fun hk k' hk' => ?_) (ih fun k hk k' hk' => ?_)
    · have hmem : k' ∈ k :: ks := List.mem_cons_of_mem _ (List.mem_of_mem_head? hk')
      exact hT k List.mem_cons_self k' hmem (hk k' hk')
    · exact hT k (List.mem_cons_of_mem _ hk) k' (List.mem_cons_of_mem _ hk')

/-- **What is hashed of tokens** is the same in every layout. -/
theorem fingerprint_of_isHashed (hks : ∀ k ∈ ks, IsHashed k) (h : LaysOut MayAdjoin ks t) :
    Definition.fingerprint (Definition.tidyCode t) = squeeze true ks := by
  have htight : LaysOut Tight ks t :=
    h.mono fun k hk k' hk' => (hks k hk).tight_of_mayAdjoin (hks k' hk')
  exact fingerprint_of_laysOut htight (fun k hk => (hks k hk).isPiece.1)
    fun k hk => (hks k hk).isPiece.2

/-- **A hash sees tokens, not their layout**: two texts that spread the same tokens with spaces,
tabs and line feeds, at least one of them between two words, give a definition the same hash. -/
theorem hash_of_layouts (d : Definition) (hks : ∀ k ∈ ks, IsHashed k)
    (ht : LaysOut MayAdjoin ks t) (hu : LaysOut MayAdjoin ks u) :
    (d.setCode t).hash = (d.setCode u).hash := by
  refine Definition.hash_setCode_congr ?_
  rw [fingerprint_of_isHashed hks ht, fingerprint_of_isHashed hks hu]

def quotedLeaf : List TokenKind :=
  [.word "a>b", .operator ['='], .word "\"\x7b  \\\"\"", .word "c"]

/-- On one line, and spread over several. -/
theorem hash_of_layouts_quotedLeaf :
    (∀ k ∈ quotedLeaf, IsHashed k) ∧ LaysOut MayAdjoin quotedLeaf "a>b=\"\x7b  \\\"\" c" ∧
      LaysOut MayAdjoin quotedLeaf "\ta>b\n\n =\t\"\x7b  \\\"\"\nc \n" ∧
      (Definition.setCode {} "a>b=\"\x7b  \\\"\" c").hash =
        (Definition.setCode {} "\ta>b\n\n =\t\"\x7b  \\\"\"\nc \n").hash := by
  have hquoted : IsQuotable "\x7b  \\\"" :=
    .plain (by decide) (.plain (by decide) (.plain (by decide) (.escape (by decide) .nil)))
  have hks : ∀ k ∈ quotedLeaf, IsHashed k := by
    intro k hk
    simp only [quotedLeaf, List.mem_cons, List.not_mem_nil, or_false] at hk
    rcases hk with rfl | rfl | rfl | rfl
    · exact .plain (by decide)
    · exact .equals
    · exact .quoted hquoted
    · exact .plain (by decide)
  have hword {w : Text} {ks : List TokenKind} {x : Text} :
      Apart MayAdjoin (.word w) (.operator ['='] :: ks) x :=
    .inr fun k hk => by cases hk; exact .inr (by rintro w ⟨⟩)
  have hequals {ks : List TokenKind} {x : Text} : Apart MayAdjoin (.operator ['=']) ks x :=
    .inr fun k hk => .inl (by rintro w ⟨⟩)
  have hspaced {k : TokenKind} {ks : List TokenKind} {c : Char} {x : Text}
      (hc : isSpacing c = true) : Apart MayAdjoin k ks (c :: x) :=
    .inl fun d hd => by cases hd; exact hc
  have hgap {g : Text} (hg : g.all isSpacing = true) : ∀ c ∈ g, isSpacing c = true :=
    List.all_eq_true.1 hg
  have hline : LaysOut MayAdjoin quotedLeaf "a>b=\"\x7b  \\\"\" c" := by
    have htext : ("a>b=\"\x7b  \\\"\" c" : Text) =
        [] ++ ("a>b".toList ++ ([] ++ (['='] ++ ([] ++ ("\"\x7b  \\\"\"".toList ++
          ([' '] ++ (['c'] ++ []))))))) := by
      decide +kernel
    rw [htext]
    exact .cons (hgap rfl) hword (.cons (hgap rfl) hequals (.cons (hgap rfl) (hspaced rfl)
      (.cons (hgap rfl) (.inr (by rintro k ⟨⟩)) (.nil (hgap rfl)))))
  have hlines : LaysOut MayAdjoin quotedLeaf "\ta>b\n\n =\t\"\x7b  \\\"\"\nc \n" := by
    have htext : ("\ta>b\n\n =\t\"\x7b  \\\"\"\nc \n" : Text) =
        ['\t'] ++ ("a>b".toList ++ (['\n', '\n', ' '] ++ (['='] ++ (['\t'] ++
          ("\"\x7b  \\\"\"".toList ++ (['\n'] ++ (['c'] ++ [' ', '\n']))))))) := by
      decide +kernel
    rw [htext]
    exact .cons (hgap rfl) hword (.cons (hgap rfl) hequals (.cons (hgap rfl) (hspaced rfl)
      (.cons (hgap rfl) (hspaced rfl) (.nil (hgap rfl)))))
  exact ⟨hks, hline, hlines, hash_of_layouts {} hks hline hlines⟩

end

end GameScript
