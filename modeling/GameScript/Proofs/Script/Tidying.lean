import GameScript.Proofs.Path
import GameScript.Proofs.Script.Condensing
import GameScript.Proofs.Script.Printing

/-!
# Tidying leaves canonical text as it is

Code is tidied before it is kept: tabs become spaces, and line ends and blank lines go. In the text
of an element every line ends with a mark, so that nothing of it goes as long as its words have
neither tabs nor line feeds (`tidyCode_format`). The same holds with a block around the element
(`tidyCode_wrapped`).
-/

namespace GameScript

open Lexer

namespace Text

/-! ## Tidy texts -/

/-- A line that tidying leaves as it is: without tabs, and with a mark at its end. -/
structure IsTidyLine (l : Text) : Prop where
  tab : '\t' ∉ l
  feed : '\n' ∉ l
  last : ∃ cs c, l = cs ++ [c] ∧ isBlankChar c = false

/-- One or more lines that tidying leaves as they are. -/
def IsTidy (t : Text) : Prop := ∃ ls, ls ≠ [] ∧ t = unlines ls ∧ ∀ l ∈ ls, IsTidyLine l

variable {g l t u : Text} {ls : List Text}

theorem IsTidyLine.ne_nil (h : IsTidyLine l) : l ≠ [] := by
  obtain ⟨cs, c, rfl, -⟩ := h.last
  simp

theorem IsTidyLine.not_blank (h : IsTidyLine l) : isBlank l = false := by
  obtain ⟨cs, c, rfl, hc⟩ := h.last
  simp [isBlank, hc]

theorem IsTidyLine.dropReturn_eq (h : IsTidyLine l) : dropReturn l = l := by
  obtain ⟨cs, c, rfl, hc⟩ := h.last
  rw [dropReturn, List.getLast?_concat, if_neg]
  rintro ⟨⟩
  exact absurd hc (by decide)

theorem IsTidyLine.behind (h : IsTidyLine l) (htab : '\t' ∉ g) (hfeed : '\n' ∉ g) :
    IsTidyLine (g ++ l) where
  tab := by simp [htab, h.tab]
  feed := by simp [hfeed, h.feed]
  last := by
    obtain ⟨cs, c, rfl, hc⟩ := h.last
    exact ⟨g ++ cs, c, by rw [List.append_assoc], hc⟩

theorem IsTidyLine.isTidy (h : IsTidyLine l) : IsTidy l :=
  ⟨[l], List.cons_ne_nil _ _, rfl, by simpa using h⟩

theorem IsTidy.behind (h : IsTidy t) (htab : '\t' ∉ g) (hfeed : '\n' ∉ g) : IsTidy (g ++ t) := by
  obtain ⟨ls, hne, rfl, hls⟩ := h
  obtain ⟨l, ls, rfl⟩ := List.exists_cons_of_ne_nil hne
  rw [List.forall_mem_cons] at hls
  refine ⟨(g ++ l) :: ls, List.cons_ne_nil _ _, join_append.symm, ?_⟩
  exact List.forall_mem_cons.2 ⟨hls.1.behind htab hfeed, hls.2⟩

theorem IsTidyLine.cons (h : IsTidyLine l) (ht : IsTidy t) : IsTidy (l ++ '\n' :: t) := by
  obtain ⟨ls, hne, rfl, hls⟩ := ht
  refine ⟨l :: ls, List.cons_ne_nil _ _, ?_, List.forall_mem_cons.2 ⟨h, hls⟩⟩
  obtain ⟨l', ls, rfl⟩ := List.exists_cons_of_ne_nil hne
  simp [unlines, join]

theorem IsTidy.append (ht : IsTidy t) (hu : IsTidy u) : IsTidy (t ++ '\n' :: u) := by
  obtain ⟨ls, hne, rfl, hls⟩ := ht
  induction ls with
  | nil => exact absurd rfl hne
  | cons l ls ih =>
    rw [List.forall_mem_cons] at hls
    cases ls with
    | nil => exact hls.1.cons hu
    | cons l' ls =>
      have hrest := hls.1.cons (ih (List.cons_ne_nil _ _) hls.2)
      simpa [unlines, join] using hrest

theorem closeLines_eq (h : ∀ l ∈ ls, IsTidyLine l) : closeLines ls = ls := by
  fun_induction closeLines ls with
  | case1 => rfl
  | case2 => exact absurd rfl (h [] List.mem_cons_self).ne_nil
  | case3 => rfl
  | case4 l ls hne ih =>
    rw [List.forall_mem_cons] at h
    rw [h.1.dropReturn_eq, ih h.2]

theorem tab_notMem_unlines (h : ∀ l ∈ ls, IsTidyLine l) : '\t' ∉ unlines ls := by
  induction ls with
  | nil => exact List.not_mem_nil
  | cons l ls ih =>
    rw [List.forall_mem_cons] at h
    cases ls with
    | nil => exact h.1.tab
    | cons l' ls => simpa [unlines, join, h.1.tab] using ih h.2

theorem lines_unlines (h : ∀ l ∈ ls, IsTidyLine l) : lines (unlines ls) = ls := by
  by_cases hne : ls = []
  · rw [hne]
    rfl
  · rw [lines, unlines, splitOn_join hne fun l hl => (h l hl).feed, closeLines_eq h]

theorem IsTidy.tidyCode_eq (h : IsTidy t) : Definition.tidyCode t = t := by
  obtain ⟨ls, hne, rfl, hls⟩ := h
  rw [Definition.tidyCode, replaceChar_of_not_mem (tab_notMem_unlines hls), lines_unlines hls,
    List.filter_eq_self.2]
  intro l hl
  rw [(hls l hl).not_blank]
  rfl

end Text

open Text Element Layout

/-! ## Words on their line -/

/-- A text on one line, without tabs. -/
def IsFlat (w : Text) : Prop := '\t' ∉ w ∧ '\n' ∉ w

instance (w : Text) : Decidable (IsFlat w) := inferInstanceAs (Decidable (_ ∧ _))

variable {k o w x : Text}

/-- What leads out of brackets and quotes is a mark. -/
theorem isBlankChar_of_next {m cs : Text} {s : WordState} {c : Char}
    (hstop : stopsWord m s c cs = false) (h : s.next c = .plain false) :
    isBlankChar c = false := by
  cases s with
  | escaped b n => cases h
  | quoted b n =>
    have hquote : c = '"' := by
      rw [WordState.next] at h
      split at h
      · assumption
      · split at h <;> cases h
    subst hquote
    decide
  | plain b =>
    by_cases hopen : c = '['
    · subst hopen; decide
    by_cases hclose : c = ']'
    · subst hclose; decide
    by_cases hquote : c = '"'
    · subst hquote; decide
    rw [WordState.next, if_neg hquote, if_neg hopen, if_neg hclose] at h
    cases h
    exact (of_stopsWord hstop hopen hclose).1

theorem isBlankChar_of_getLast? {m : Text} {s : WordState} {c : Char}
    (h : spanWord m s (w ++ ' ' :: x) = ⟨w, ' ' :: x, none⟩) (hc : w.getLast? = some c) :
    isBlankChar c = false := by
  induction w generalizing s with
  | nil => cases hc
  | cons d w ih =>
    obtain ⟨hstop, hrest⟩ := of_spanWord_cons h
    cases w with
    | cons e w => exact ih hrest (by rwa [List.getLast?_cons_cons] at hc)
    | nil =>
      obtain rfl : d = c := Option.some.inj hc
      obtain ⟨b, hb⟩ := plain_of_spanWord hrest
      cases b with
      | false => exact isBlankChar_of_next hstop hb
      | true =>
        -- inside brackets the blank would belong to the word
        have hspan : spanWord m (.plain true) (' ' :: x) = ⟨[], ' ' :: x, none⟩ := hb ▸ hrest
        rw [spanWord_cons, if_neg (by simp [stopsWord, endsWord]; decide)] at hspan
        cases (WordSpan.mk.inj hspan).1

theorem IsWord.isTidyLine (h : IsWord w) (hflat : IsFlat w) : IsTidyLine w := by
  obtain ⟨c, cs, rfl, -, -, hspan⟩ := cutsOff_word_iff.1 (isWord_iff.1 h)
  refine ⟨hflat.1, hflat.2, _, _, (List.dropLast_concat_getLast (List.cons_ne_nil c cs)).symm, ?_⟩
  exact isBlankChar_of_getLast? hspan (List.getLast?_eq_some_getLast _)

theorem IsOperator.isFlat (h : IsOperator o) : IsFlat o := by
  obtain ⟨-, hmarks⟩ := (isOperator_iff.1 h).operator_marks
  exact ⟨fun hc => absurd (hmarks _ hc).1 (by decide), fun hc => absurd (hmarks _ hc).1 (by decide)⟩

/-! ## Elements -/

theorem isFlat_append {g t : Text} : IsFlat (g ++ t) ↔ IsFlat g ∧ IsFlat t := by
  simp only [IsFlat, List.mem_append, not_or]
  tauto

theorem isFlat_headText {o : Option Text} (hk : IsFlat k) (ho : ∀ op ∈ o, IsOperator op) :
    IsFlat (headText k o) := by
  cases o with
  | none => exact hk
  | some op =>
    exact isFlat_append.2 ⟨hk, isFlat_append.2 ⟨(by decide : IsFlat [' ']), (ho op rfl).isFlat⟩⟩

theorem isFlat_headText_block {o : Option Text} {es : List Element} (hc : Canonical (.block k o es))
    (hw : ∀ w ∈ words (.block k o es), IsFlat w) : IsFlat (headText k o) := by
  rcases hc.1 with ⟨hk, ho⟩ | ⟨rfl, rfl⟩
  · exact isFlat_headText (hw k (by simp [words, hk.ne_nil])) ho
  · exact (by decide : IsFlat [])

theorem isFlat_pad (width level : Nat) : IsFlat (pad width level) := by
  simp [IsFlat, pad, List.mem_replicate]

theorem Text.IsTidy.behindFlat {g t : Text} (h : IsTidy t) (hg : IsFlat g) : IsTidy (g ++ t) :=
  h.behind hg.1 hg.2

theorem isTidyLine_brace : IsTidyLine ['{'] ∧ IsTidyLine ['}'] :=
  ⟨⟨by decide, by decide, [], '{', rfl, by decide⟩, ⟨by decide, by decide, [], '}', rfl, by decide⟩⟩

/-- The lines of a block: its head, its children, and its closing brace. -/
theorem isTidy_block (width level : Nat) {ls : Text} (hk : IsFlat k)
    (hls : ∀ {t}, IsTidy t → IsTidy (ls ++ t)) :
    IsTidy (k ++ '{' :: '\n' :: (ls ++ (pad width level ++ ['}']))) := by
  have hclose := isTidyLine_brace.2.isTidy.behindFlat (isFlat_pad width level)
  exact (isTidyLine_brace.1.cons (hls hclose)).behindFlat hk

mutual

theorem isTidy_body (width level : Nat) : (e : Element) → Canonical e → (∀ w ∈ words e, IsFlat w) →
    IsTidy (Layout.body false width level e)
  | .leaf k none none, hc, hw => by
    have hk : IsWord k := hc
    exact (hk.isTidyLine (hw k (by simp [words]))).isTidy
  | .leaf k (some o) (some v), hc, hw => by
    have hhead := isFlat_headText (o := some o) (hw k (by simp [words])) fun _ h =>
      Option.some.inj h ▸ hc.2.1
    have hv := (hc.2.2.isTidyLine (hw v (by simp [words]))).isTidy
    have hline := (hv.behindFlat (g := [' ']) (by decide)).behindFlat hhead
    simpa [Layout.body, leafText_some hc.2.1 hc.2.2, headText] using hline
  | .leaf _ none (some _), hc, _ => hc.elim
  | .leaf _ (some _) none, hc, _ => hc.elim
  | .block k o es, hc, hw => by
    have hhead := isFlat_headText_block hc hw
    have hes : ∀ w ∈ wordsAll es, IsFlat w := fun w h => hw w (by simp [words, h])
    have hlines {t : Text} :
        IsTidy t → IsTidy (Layout.childLines false width (level + 1) es ++ t) :=
      isTidy_childLines width (level + 1) es hc.2 hes
    rcases spell_block_cases hc.shaped with ⟨op, kw, cs, hk, rfl, rfl, hkw, -⟩ | ⟨hk, hin, -⟩ |
      ⟨rfl, rfl, -⟩
    · have hin : isInline false (some op) [.block kw none cs] = true := hkw
      have hchild := isTidy_body width level (.block kw none cs) hc.2.1 fun w h =>
        hes w (by simpa [wordsAll] using h)
      have hline := (hchild.behindFlat (g := [' ']) (by decide)).behindFlat hhead
      simpa [Layout.body, hin, onlyChild, keeps] using hline
    · have hline : IsFlat (headText k o ++ [' ']) := isFlat_append.2 ⟨hhead, by decide⟩
      have hblock := isTidy_block width level hline hlines
      simpa [Layout.body, hin, hk] using hblock
    · have hblock := isTidy_block width level (by decide : IsFlat []) hlines
      simpa [Layout.body, headText] using hblock

theorem isTidy_childLines (width level : Nat) : (es : List Element) → AllCanonical es →
    (∀ w ∈ wordsAll es, IsFlat w) →
      ∀ {t : Text}, IsTidy t → IsTidy (Layout.childLines false width level es ++ t)
  | [], _, _, _, h => h
  | e :: es, hc, hw, t, h => by
    have hrest :=
      isTidy_childLines width level es hc.2.2 (fun w h => hw w (by simp [wordsAll, h])) h
    have hline := isTidy_body width level e hc.1 fun w h => hw w (by simp [wordsAll, h])
    have := (hline.append hrest).behindFlat (isFlat_pad width level)
    simpa [Layout.childLines, keeps] using this

end

variable {e : Element} (hc : Canonical e) (hw : ∀ w ∈ words e, IsFlat w)

include hc hw

/-- **Tidying leaves the text of an element**, when its words are on one line and without tabs. -/
theorem tidyCode_format : Definition.tidyCode e.format = e.format := by
  rw [format_eq_body]
  exact (isTidy_body 4 0 e hc hw).tidyCode_eq

theorem tidyCode_wrapped {p : Text} (hp : IsFlat p) :
    Definition.tidyCode (Layout.format { parentKey := some p } e) =
      Layout.format { parentKey := some p } e := by
  have hline : IsFlat (p ++ [' ', '=', ' ']) := isFlat_append.2 ⟨hp, by decide⟩
  have hchild : IsTidy (pad 4 1 ++ Layout.body false 4 1 e) :=
    (isTidy_body 4 1 e hc hw).behindFlat (isFlat_pad 4 1)
  have hlines {t : Text} (ht : IsTidy t) :
      IsTidy (pad 4 1 ++ Layout.body false 4 1 e ++ ['\n'] ++ t) := by
    simpa using hchild.append ht
  have hblock := isTidy_block 4 0 hline hlines
  refine IsTidy.tidyCode_eq ?_
  simpa [Layout.format, pad] using hblock

end GameScript
