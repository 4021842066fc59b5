import GameScript.Definition.Basic
import GameScript.Proofs.Script.Acceptance
import GameScript.Proofs.Script.LineByLine
import GameScript.Proofs.Script.Respacing

/-!
# Tidying keeps what is accepted

What the grammar asks for does not depend on the words of a script, only on the shapes of its
tokens (`accepts_iff_of_shapes`). Tidying does no more than change runs of blanks, within words
too, so that the shapes stay (`shapes_tidyCode`), and with them what is accepted
(`accepts_tidyCode`).
-/

namespace GameScript

open Text Lexer

/-! ## The grammar of shapes -/

section

variable {before ks : List TokenKind} {k : TokenKind}

theorem isComment_shape (k : TokenKind) : k.shape.isComment = k.isComment := by
  cases k <;> rfl

theorem shape_eq_openBrace : k.shape = .openBrace ↔ k = .openBrace := by
  cases k <;> simp [TokenKind.shape]

theorem shape_eq_closeBrace : k.shape = .closeBrace ↔ k = .closeBrace := by
  cases k <;> simp [TokenKind.shape]

theorem shape_eq_operator {op : Text} : k.shape = .operator op ↔ k = .operator op := by
  cases k <;> simp [TokenKind.shape]

theorem exists_shape_eq_word : (∃ w, k.shape = .word w) ↔ ∃ w, k = .word w := by
  cases k <;> simp [TokenKind.shape]

theorem exists_shape_eq_illegal :
    (∃ cause, k.shape = .illegal cause) ↔ ∃ cause, k = .illegal cause := by
  cases k <;> simp [TokenKind.shape]

theorem count_map_shape {k' : TokenKind} (h : ∀ k : TokenKind, k.shape = k' ↔ k = k') :
    (before.map TokenKind.shape).count k' = before.count k' := by
  rw [List.count_eq_countP, List.count_eq_countP, List.countP_map]
  refine List.countP_congr fun k _ => ?_
  simp [h k]

theorem endsInOperator_map_shape : EndsInOperator (before.map TokenKind.shape) ↔
    EndsInOperator before := by
  cases before using List.reverseRecOn with
  | nil => rfl
  | append_singleton before k =>
    rw [List.map_append, List.map_singleton, endsInOperator_concat, endsInOperator_concat]
    simp only [shape_eq_operator]

theorem endsInKey_map_shape : EndsInKey (before.map TokenKind.shape) ↔ EndsInKey before := by
  cases before using List.reverseRecOn with
  | nil => rfl
  | append_singleton before k =>
    rw [List.map_append, List.map_singleton, endsInKey_concat, endsInKey_concat,
      exists_shape_eq_word, endsInOperator_map_shape]

theorem fits_iff : Fits before k ↔ (¬ ∃ cause, k = .illegal cause) ∧
    (k = .closeBrace → before.count .closeBrace < before.count .openBrace) ∧
    (k = .openBrace → before.count .openBrace < before.count .closeBrace + 256) ∧
    (∀ op, k = .operator op → EndsInKey before) ∧ (EndsInOperator before → IsValueStart k) := by
  constructor
  · intro h
    exact ⟨not_exists.2 h.legal, h.closes, h.shallow, h.operator, h.value⟩
  · rintro ⟨hlegal, hcloses, hshallow, hoperator, hvalue⟩
    exact ⟨not_exists.1 hlegal, hcloses, hshallow, hoperator, hvalue⟩

/-- Whether a token fits is a matter of shapes. -/
theorem fits_map_shape : Fits (before.map TokenKind.shape) k.shape ↔ Fits before k := by
  simp only [fits_iff, exists_shape_eq_illegal, shape_eq_openBrace, shape_eq_closeBrace,
    shape_eq_operator, count_map_shape fun _ => shape_eq_openBrace,
    count_map_shape fun _ => shape_eq_closeBrace, endsInKey_map_shape, endsInOperator_map_shape,
    IsValueStart, exists_shape_eq_word]

theorem allFit_map_shape : AllFit (before.map TokenKind.shape) (ks.map TokenKind.shape) ↔
    AllFit before ks := by
  induction ks generalizing before with
  | nil => exact ⟨fun _ => allFit_nil, fun _ => allFit_nil⟩
  | cons k ks ih =>
    rw [List.map_cons, allFit_cons, allFit_cons, fits_map_shape, ← ih, List.map_append]
    rfl

end

variable {m g t t' : Text}

def shapes (m t : Text) : List TokenKind := (kinds m t).map (·.shape)

theorem map_shape_plainKinds (m t : Text) :
    (plainKinds m t).map TokenKind.shape = (shapes m t).filter (!·.isComment) := by
  rw [plainKinds, shapes, List.filter_map]
  congr 2
  funext k
  exact congrArg _ (isComment_shape k).symm

/-- Sources with tokens of the same shapes are both accepted or both refused. -/
theorem accepts_iff_of_shapes (h : shapes m t = shapes m t') :
    (∃ es, parse .strict m t = .ok es) ↔ ∃ es, parse .strict m t' = .ok es := by
  rw [(parse_strict_iff_grammatical m t).1, (parse_strict_iff_grammatical m t').1,
    grammatical_iff not_endsInOperator_plainKinds, grammatical_iff not_endsInOperator_plainKinds]
  have hplain : (plainKinds m t).map TokenKind.shape = (plainKinds m t').map TokenKind.shape := by
    rw [map_shape_plainKinds, map_shape_plainKinds, h]
  have hfit (ks : List TokenKind) : AllFit [] (ks.map TokenKind.shape) ↔ AllFit [] ks :=
    @allFit_map_shape [] ks
  rw [← hfit, ← hfit (plainKinds m t'), hplain, ← count_map_shape fun _ => shape_eq_openBrace,
    ← count_map_shape fun _ => shape_eq_closeBrace, hplain,
    count_map_shape fun _ => shape_eq_openBrace, count_map_shape fun _ => shape_eq_closeBrace]

/-! ## Tidying -/

theorem Respaced.append_left (h : Respaced t t') (w : Text) : Respaced (w ++ t) (w ++ t') := by
  induction w with
  | nil => exact h
  | cons c w ih => exact .same ih

theorem Respaced.before_feed (h : Respaced ('\n' :: t) t') (hg : ∀ c ∈ g, isBlankChar c = true) :
    Respaced (g ++ '\n' :: t) t' := by
  have hfeed : isBlankChar '\n' = true := by decide
  have hsep : IsSeparator true ['\n'] := ⟨by simp, by simp [hfeed], by simp, by simp⟩
  generalize hx : '\n' :: t = x at h
  cases h with
  | tail ht ht' =>
    subst hx
    exact .tail (List.forall_mem_append.2 ⟨hg, ht⟩) ht'
  | same h =>
    cases hx
    have hleft : IsSeparator true (g ++ ['\n']) :=
      ⟨by simp, List.forall_mem_append.2 ⟨hg, hsep.blank⟩, by simp, by simp⟩
    simpa using Respaced.gap hleft hsep h
  | @gap feeds d d' t t' hd hd' h =>
    obtain ⟨e, ds, rfl, -⟩ := hd.exists_cons
    cases hx
    cases feeds with
    | false => cases hd.flat rfl '\n' List.mem_cons_self
    | true =>
      have hleft : IsSeparator true (g ++ '\n' :: ds) :=
        ⟨by simp, List.forall_mem_append.2 ⟨hg, hd.blank⟩, by simp, by simp⟩
      simpa using Respaced.gap hleft hd' h

/-- Spaces stand for tabs. -/
theorem respaced_untabbed (t : Text) : Respaced t (replaceChar '\t' (List.replicate 4 ' ') t) := by
  induction t with
  | nil => exact .refl []
  | cons c t ih =>
    rw [replaceChar, List.flatMap_cons]
    split
    · next htab =>
      subst htab
      have htabs : IsSeparator false ['\t'] :=
        isSeparator_replicate (n := 1) (by decide) (by decide) (by decide)
      have hspaces : IsSeparator false (List.replicate 4 ' ') :=
        isSeparator_replicate (by decide) (by decide) (by decide)
      exact .gap htabs hspaces ih
    · exact .same ih

theorem dropReturn_cases (l : Text) : dropReturn l = l ∨ l = dropReturn l ++ ['\r'] := by
  rw [dropReturn]
  split
  · next h =>
    obtain ⟨w, rfl⟩ := List.getLast?_eq_some_iff.1 h
    exact .inr (by simp)
  · exact .inl rfl

theorem respaced_lines (ps : List Text) : Respaced (ps.flatMap ('\n' :: ·))
    (((closeLines ps).filter (!isBlank ·)).flatMap ('\n' :: ·)) := by
  have hblank {g : Text} : isBlank g = true ↔ ∀ c ∈ g, isBlankChar c = true := List.all_eq_true
  have hfeed : isBlankChar '\n' = true := by decide
  fun_induction closeLines ps with
  | case1 => exact .refl []
  | case2 => exact .tail (by simpa using hfeed) (by simp)
  | case3 last hne =>
    rw [List.filter_cons]
    split
    · exact .refl _
    · next h =>
      rw [Bool.not_eq_true, Bool.not_eq_false', hblank] at h
      exact .tail (by simpa [hfeed] using h) (by simp)
  | case4 line rest hne ih =>
    obtain ⟨next, rest, rfl⟩ : ∃ l ls, rest = l :: ls :=
      List.exists_cons_of_ne_nil fun h => hne (h ▸ rfl)
    rw [List.flatMap_cons, List.cons_append] at ih
    rw [List.flatMap_cons, List.flatMap_cons, List.cons_append, List.filter_cons]
    split
    · rw [List.flatMap_cons]
      rcases dropReturn_cases line with hline | hline
      · rw [hline]
        exact .same (ih.append_left line)
      · have hreturn : isBlankChar '\r' = true := by decide
        have hrest := (ih.before_feed (g := ['\r']) (by simpa using hreturn)).append_left
          (dropReturn line)
        rw [← List.append_assoc, ← hline] at hrest
        exact .same hrest
    · next h =>
      rw [Bool.not_eq_true, Bool.not_eq_false', hblank] at h
      have hline : ∀ c ∈ line, isBlankChar c = true := by
        rcases dropReturn_cases line with hline | hline
        · exact hline ▸ h
        · rw [hline]
          exact List.forall_mem_append.2 ⟨h, List.forall_mem_singleton.2 (by decide)⟩
      exact ih.before_feed (List.forall_mem_cons.2 ⟨hfeed, hline⟩)

theorem shapes_loosened (hm : PlainMarker m) (h : Loosened t t') : shapes m t = shapes m t' := by
  rw [shapes, shapes, kinds, kinds, List.map_map, List.map_map]
  exact shapes_eq hm {} {} h

theorem flatMap_feed {ls : List Text} (h : ls ≠ []) :
    ls.flatMap ('\n' :: ·) = '\n' :: unlines ls := by
  induction ls with
  | nil => exact absurd rfl h
  | cons l ls ih =>
    cases ls with
    | nil => simp [unlines, join]
    | cons l' ls => rw [List.flatMap_cons, ih (List.cons_ne_nil _ _), unlines_cons_cons]; rfl

/-- Tidying leaves the shapes of the tokens. -/
theorem shapes_tidyCode (hm : PlainMarker m) (t : Text) :
    shapes m (Definition.tidyCode t) = shapes m t := by
  have hfeed {t t' : Text} (h : Respaced ('\n' :: t) t') : shapes m t = shapes m t' := by
    rw [← shapes_loosened hm h.loosened]
    exact shapes_loosened hm ⟨[], ['\n'], t, t, rfl, rfl, by simp [isGap]; decide, .refl t⟩
  have huntab := shapes_loosened hm (respaced_untabbed t).loosened
  rw [huntab, Definition.tidyCode, lines]
  generalize replaceChar '\t' (List.replicate 4 ' ') t = u
  have hlines := respaced_lines (splitOn '\n' u)
  have hne : splitOn '\n' u ≠ [] := splitOn_ne_nil
  rw [flatMap_feed hne, unlines_splitOn] at hlines
  rw [hfeed hlines]
  by_cases hkept : (closeLines (splitOn '\n' u)).filter (!isBlank ·) = []
  · rw [hkept]
    rfl
  · rw [flatMap_feed hkept]
    exact hfeed (.refl _)

/-- **Tidying keeps what is accepted**, and what is refused. -/
theorem accepts_tidyCode (hm : PlainMarker m) (t : Text) :
    (∃ es, parse .strict m (Definition.tidyCode t) = .ok es) ↔
      ∃ es, parse .strict m t = .ok es :=
  accepts_iff_of_shapes (shapes_tidyCode hm t)

end GameScript
