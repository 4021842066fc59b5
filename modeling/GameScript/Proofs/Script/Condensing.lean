import GameScript.Proofs.Script.Spacing
import GameScript.Proofs.Text.Condensed
import GameScript.Proofs.Text.SingleLine

/-!
# What is hashed of tokens with spacing between them

The text that is hashed for a layout of tokens depends on the tokens only: `squeeze` puts them one
after the other with a space between two of them unless one is tight there. This holds of tokens
that are pieces: on one line, bounded by marks, and copied whole by the condenser.
-/

namespace GameScript

open Text Lexer

/-- What tidying, joining the lines and condensing leave as it is. -/
structure IsPiece (w : Text) : Prop where
  bounded : Bounded w
  line : '\n' ∉ w
  copied : Copied w

/-! ## Tokens that are pieces -/

section

variable {m w r r' : Text} {s : WordState}

/-- The condenser in step with the reading of a word. -/
def Lexer.WordState.condenser : WordState → Condenser
  | .plain _ => .outside false false
  | .quoted .. => .quoted
  | .escaped .. => .escaped

theorem of_stopsWord {c : Char} {cs : Text} (h : stopsWord m (.plain false) c cs = false)
    (hopen : c ≠ '[') (hclose : c ≠ ']') :
    isBlankChar c = false ∧ isTight c = false := by
  by_cases hq : c = '"'
  · subst hq
    exact ⟨by decide, by decide⟩
  · simp only [stopsWord, endsWord, isOperatorAt, isOperatorChar] at h
    simp_all [isTight]

theorem isBlankChar_ne {c : Char} (h : isBlankChar c = false) : ¬ (c = ' ' ∨ c = '\t') := by
  rintro (rfl | rfl) <;> revert h <;> decide

/-- The condenser keeps step over a character of a word. -/
theorem condenseFrom_next {c : Char} {cs : Text} (hs : s.bracketed = false)
    (h : stopsWord m s c cs = false) (hopen : c ≠ '[') (hclose : c ≠ ']') :
    condenseFrom s.condenser (c :: r) = c :: condenseFrom (s.next c).condenser r := by
  cases s with
  | escaped b n => rfl
  | quoted b n =>
    rw [WordState.condenser, condenseFrom, WordState.next]
    by_cases hq : c = '"'
    · subst hq; rfl
    by_cases hb : c = '\\'
    · subst hb; rfl
    rw [if_neg hb, if_neg hq, if_neg hq, if_neg hb]
    rfl
  | plain b =>
    cases hs
    obtain ⟨hblank, htight⟩ := of_stopsWord h hopen hclose
    rw [WordState.condenser, condenseFrom_mark (isBlankChar_ne hblank), htight, WordState.next]
    by_cases hq : c = '"'
    · subst hq; rfl
    · rw [if_neg hq, if_neg hq, if_neg hopen, if_neg hclose]
      rfl

theorem Lexer.WordState.next_bracketed {c : Char} (hs : s.bracketed = false) (hc : c ≠ '[') :
    (s.next c).bracketed = false := by
  cases s with
  | escaped b n => exact hs
  | quoted b n =>
    rw [next]
    split
    · exact hs
    · split <;> exact hs
  | plain b =>
    rw [next, if_neg hc]
    split
    · exact hs
    · split
      · rfl
      · exact hs

section

variable (hs : s.bracketed = false) (hopen : '[' ∉ w) (hclose : ']' ∉ w)
include hs hopen hclose

/-- The condenser copies a word without brackets. -/
theorem condenseFrom_word (h : spanWord m s (w ++ r') = ⟨w, r', none⟩) :
    condenseFrom s.condenser (w ++ r) = w ++ condenseFrom (.outside false false) r := by
  induction w generalizing s with
  | nil =>
    obtain ⟨b, rfl⟩ := plain_of_spanWord h
    rfl
  | cons c w ih =>
    rw [List.mem_cons, not_or] at hopen hclose
    obtain ⟨hstop, hrest⟩ := of_spanWord_cons h
    rw [List.cons_append, condenseFrom_next hs hstop (Ne.symm hopen.1) (Ne.symm hclose.1),
      ih (WordState.next_bracketed hs (Ne.symm hopen.1)) hopen.2 hclose.2 hrest]
    rfl

theorem last_of_spanWord (h : spanWord m s (w ++ r') = ⟨w, r', none⟩) {c : Char}
    (hc : w.getLast? = some c) : isBlankChar c = false ∧ isTight c = false := by
  induction w generalizing s with
  | nil => cases hc
  | cons d w ih =>
    rw [List.mem_cons, not_or] at hopen hclose
    obtain ⟨hstop, hrest⟩ := of_spanWord_cons h
    cases w with
    | cons e w =>
      rw [List.getLast?_cons_cons] at hc
      exact ih (WordState.next_bracketed hs (Ne.symm hopen.1)) hopen.2 hclose.2 hrest hc
    | nil =>
      cases hc
      obtain ⟨b, hb⟩ := plain_of_spanWord hrest
      cases s with
      | plain b =>
        cases hs
        exact of_stopsWord hstop (Ne.symm hopen.1) (Ne.symm hclose.1)
      | escaped b n => cases hb
      | quoted b n =>
        -- only the closing quote leads out of quotes
        have hq : d = '"' := by
          rw [WordState.next] at hb
          split at hb
          · assumption
          · split at hb <;> cases hb
        subst hq
        exact ⟨by decide, by decide⟩

end

theorem isOperatorAt_of_mem (h : spanOperator (w ++ r') = (w, r')) :
    ∀ c ∈ w, ∃ cs, isOperatorAt c cs = true := by
  induction w with
  | nil => rintro c ⟨⟩
  | cons d w ih =>
    obtain ⟨hd, hrest⟩ := of_spanOperator_cons h
    intro c hc
    rcases List.mem_cons.1 hc with rfl | hc
    · exact ⟨_, hd⟩
    · exact ih hrest c hc

/-- A word without brackets is a piece, and not tight at its ends. -/
theorem CutsOff.isPiece_word (h : CutsOff m (.word w) r') (hopen : '[' ∉ w) (hclose : ']' ∉ w)
    (hline : '\n' ∉ w) : IsPiece w ∧ startsTight w = false ∧ endsTight w = false := by
  obtain ⟨c, cs, rfl, -, -, hw⟩ := cutsOff_word_iff.1 h
  obtain ⟨hblank, htight⟩ := of_stopsWord (of_spanWord_cons hw).1
    (fun hc => hopen (hc ▸ List.mem_cons_self)) (fun hc => hclose (hc ▸ List.mem_cons_self))
  obtain ⟨ds, d, hlast⟩ : ∃ ds d, c :: cs = ds ++ [d] :=
    ⟨_, _, (List.dropLast_concat_getLast (List.cons_ne_nil c cs)).symm⟩
  obtain ⟨hdblank, hdtight⟩ := last_of_spanWord rfl hopen hclose hw (c := d) (by simp [hlast])
  have hends : endsTight (c :: cs) = false := by simp [endsTight, hlast, hdtight]
  have hstarts : startsTight (c :: cs) = false := by simp [startsTight, htight]
  refine ⟨⟨⟨⟨c, cs, rfl, hblank⟩, ds, d, hlast, hdblank⟩, hline, ?_⟩, hstarts, hends⟩
  intro tight pending r
  have hcopy := condenseFrom_word rfl hopen hclose hw (r := r)
  rw [WordState.condenser, List.cons_append, condenseFrom_mark (isBlankChar_ne hblank)] at hcopy
  rw [List.cons_append, condenseFrom_mark (isBlankChar_ne hblank), hends]
  exact congrArg (spaceBefore tight pending [c] ++ ·) hcopy

theorem isPiece_of_marks (hne : w ≠ []) (hw : ∀ c ∈ w, isBlankChar c = false ∧ c ≠ '"') :
    IsPiece w where
  bounded := by
    obtain ⟨c, cs, rfl⟩ := List.exists_cons_of_ne_nil hne
    refine ⟨⟨c, cs, rfl, (hw c List.mem_cons_self).1⟩, ?_⟩
    exact ⟨_, _, (List.dropLast_concat_getLast hne).symm, (hw _ (List.getLast_mem hne)).1⟩
  line := fun hc => absurd (hw _ hc).1 (by decide)
  copied := copied_of_marks hne fun c hc => ⟨isBlankChar_ne (hw c hc).1, (hw c hc).2⟩

theorem CutsOff.operator_marks (h : CutsOff m (.operator w) r') :
    w ≠ [] ∧ ∀ c ∈ w, isBlankChar c = false ∧ c ≠ '"' := by
  obtain ⟨c, cs, rfl, -, -, hspan⟩ := cutsOff_operator_iff.1 h
  refine ⟨List.cons_ne_nil c cs, fun d hd => ?_⟩
  obtain ⟨ds, hds⟩ := isOperatorAt_of_mem hspan d hd
  simp only [isOperatorAt, isOperatorChar, Bool.or_eq_true, Bool.and_eq_true, beq_iff_eq] at hds
  rcases hds with (((rfl | rfl) | rfl) | rfl) | ⟨rfl, -⟩ <;> exact ⟨by decide, by decide⟩

/-- Tokens other than words are pieces. -/
theorem CutsOff.isPiece_mark {k : TokenKind} (h : CutsOff m k r') (hk : ∀ w, k ≠ .word w) :
    IsPiece k.lexeme ∧ '\t' ∉ k.lexeme := by
  obtain ⟨hne, hmarks⟩ : k.lexeme ≠ [] ∧ ∀ c ∈ k.lexeme, isBlankChar c = false ∧ c ≠ '"' := by
    cases k with
    | word w => exact absurd rfl (hk w)
    | operator o => exact h.operator_marks
    | openBrace | closeBrace =>
      refine ⟨List.cons_ne_nil _ _, fun c hc => ?_⟩
      rw [List.mem_singleton.1 hc]
      exact ⟨by decide, by decide⟩
    | comment _ | endOfInput | illegal _ => obtain ⟨c, cs, h, -⟩ := h; cases h
  exact ⟨isPiece_of_marks hne hmarks, fun htab => absurd (hmarks _ htab).1 (by decide)⟩

end

/-! ## Layouts -/

/-- The lexemes of tokens with a space between two of them unless one is tight there, behind
something that is `tight`. -/
def squeeze (tight : Bool) : List TokenKind → Text
  | [] => []
  | k :: ks => spaceBefore tight true k.lexeme ++ (k.lexeme ++ squeeze (endsTight k.lexeme) ks)

/-- Tokens between which a space is dropped. -/
def Tight (k k' : TokenKind) : Prop := endsTight k.lexeme = true ∨ startsTight k'.lexeme = true

section

variable {ks : List TokenKind} {g t w : Text}

theorem singleLine_gap (hg : ∀ c ∈ g, isSpacing c = true) : singleLine (g ++ t) = singleLine t := by
  induction g with
  | nil => rfl
  | cons c g ih =>
    rw [List.cons_append, singleLine_blank (isBlankChar_of_isSpacing (hg c List.mem_cons_self))]
    exact ih fun d hd => hg d (List.mem_cons_of_mem _ hd)

theorem lineRest_gap (hg : ∀ c ∈ g, isSpacing c = true) : lineRest g = [] := by
  induction g with
  | nil => rfl
  | cons c g ih =>
    have hg' : ∀ c ∈ g, isSpacing c = true := fun d hd => hg d (List.mem_cons_of_mem _ hd)
    by_cases hc : c = '\n'
    · have hnil := singleLine_gap (t := []) hg'
      rw [List.append_nil] at hnil
      rw [hc, lineRest_lineFeed, hnil]
      rfl
    · have hb := isBlankChar_of_isSpacing (hg c List.mem_cons_self)
      rcases lineRest_blank (t := g) hb hc with h | ⟨hne, -⟩
      · rw [h, ih hg']
      · exact absurd (ih hg') hne

theorem lineRest_gap_append (hg : ∀ c ∈ g, isSpacing c = true) (hw : IsPiece w) :
    ∃ g', (∀ c ∈ g', c = ' ' ∨ c = '\t') ∧ (g ≠ [] → g' ≠ []) ∧
      lineRest (g ++ (w ++ t)) = g' ++ (w ++ lineRest t) := by
  induction g with
  | nil => exact ⟨[], by simp, by simp, lineRest_append hw.bounded hw.line⟩
  | cons c g ih =>
    have hg' : ∀ c ∈ g, isSpacing c = true := fun d hd => hg d (List.mem_cons_of_mem _ hd)
    have hc := hg c List.mem_cons_self
    obtain ⟨g', hblanks, hne, hrest⟩ := ih hg'
    by_cases hline : c = '\n'
    · have hsingle : singleLine (g ++ (w ++ t)) = w ++ lineRest t := by
        rw [singleLine_gap hg', singleLine_append hw.bounded hw.line]
      obtain ⟨d, ds, hd, -⟩ := hw.bounded.head
      refine ⟨[' '], by simp, by simp, ?_⟩
      rw [hline, List.cons_append, lineRest_lineFeed, hsingle, if_neg (by simp [hd])]
      rfl
    · have hblank : c = ' ' ∨ c = '\t' := by simpa [isSpacing, hline] using hc
      have hb := isBlankChar_of_isSpacing hc
      cases g with
      | nil =>
        exact ⟨[c], by simpa using hblank, by simp,
          lineRest_cons_append hw.bounded hw.line hb hline⟩
      | cons d g =>
        rcases lineRest_blank (t := d :: g ++ (w ++ t)) hb hline with h | ⟨-, h⟩
        · exact ⟨g', hblanks, fun _ => hne (List.cons_ne_nil _ _), h.trans hrest⟩
        · refine ⟨c :: g', ?_, by simp, h.trans (congrArg (c :: ·) hrest)⟩
          intro e he
          rcases List.mem_cons.1 he with rfl | he
          · exact hblank
          · exact hblanks e he

/-- What is condensed of the rest of a layout, behind something that is `tight`. -/
theorem condenseFrom_lineRest (h : LaysOut Tight ks t) (hks : ∀ k ∈ ks, IsPiece k.lexeme) :
    ∀ tight, (StartsSpaced t ∨ ∀ k ∈ ks.head?, tight = true ∨ startsTight k.lexeme = true) →
      condenseFrom (.outside tight false) (lineRest t) = squeeze tight ks := by
  induction h with
  | nil hg =>
    intro tight _
    rw [lineRest_gap hg, condenseFrom_nil, squeeze]
  | @cons g t k ks hg hap h ih =>
    intro tight hap'
    have hk := hks k List.mem_cons_self
    have hrest := ih (fun k hk => hks k (List.mem_cons_of_mem _ hk)) (endsTight k.lexeme) hap
    obtain ⟨g', hblanks, hne, hline⟩ := lineRest_gap_append (t := t) hg hk
    rw [hline, condenseFrom_blanks hblanks, hk.copied, hrest, squeeze]
    congr 1
    cases g' with
    | cons c g' => rfl
    | nil =>
      -- with nothing in between one of the two is tight
      have hg : g = [] := Classical.byContradiction fun hne' => hne hne' rfl
      have htight : tight = true ∨ startsTight k.lexeme = true := by
        rcases hap' with hspaced | htight
        · obtain ⟨c, cs, hc, hmark⟩ := hk.bounded.head
          have hcs : isSpacing c = true := hspaced c (by simp [hg, hc])
          rw [isBlankChar_of_isSpacing hcs] at hmark
          cases hmark
        · exact htight k rfl
      rcases htight with h | h <;> simp [spaceBefore, h]

theorem condense_singleLine_of_laysOut (h : LaysOut Tight ks t)
    (hks : ∀ k ∈ ks, IsPiece k.lexeme) : condense (singleLine t) = squeeze true ks := by
  rw [condense, trim_singleLine]
  cases h with
  | nil hg =>
    have hnil := singleLine_gap (t := []) hg
    rw [List.append_nil] at hnil
    rw [hnil]
    rfl
  | @cons g t k ks hg hap h =>
    have hk := hks k List.mem_cons_self
    have hrest : ∀ k ∈ ks, IsPiece k.lexeme := fun k hk => hks k (List.mem_cons_of_mem _ hk)
    rw [singleLine_gap hg, singleLine_append hk.bounded hk.line, hk.copied,
      condenseFrom_lineRest h hrest _ hap, squeeze]
    simp [spaceBefore]

/-! ## Tabs -/

/-- Four spaces for each tab. -/
abbrev withoutTabs (t : Text) : Text := replaceChar '\t' (List.replicate 4 ' ') t

@[simp] theorem withoutTabs_append : withoutTabs (w ++ t) = withoutTabs w ++ withoutTabs t :=
  List.flatMap_append

theorem withoutTabs_eq (h : '\t' ∉ w) : withoutTabs w = w := by
  induction w with
  | nil => rfl
  | cons c w ih =>
    rw [List.mem_cons, not_or] at h
    rw [← List.singleton_append, withoutTabs_append, ih h.2, withoutTabs, replaceChar,
      List.flatMap_singleton, if_neg (Ne.symm h.1)]

/-- What holds of a space and of each character still does without tabs. -/
theorem forall_withoutTabs {P : Char → Prop} (hspace : P ' ') (ht : ∀ c ∈ t, P c) :
    ∀ c ∈ withoutTabs t, P c := by
  intro c hc
  obtain ⟨d, hd, hcd⟩ := List.mem_flatMap.1 hc
  split at hcd
  · rw [List.eq_of_mem_replicate hcd]
    exact hspace
  · rw [List.mem_singleton.1 hcd]
    exact ht d hd

theorem head?_withoutTabs {P : Char → Prop} (hspace : P ' ') (ht : ∀ c ∈ t.head?, P c) :
    ∀ c ∈ (withoutTabs t).head?, P c := by
  cases t with
  | nil => exact ht
  | cons c t =>
    rw [withoutTabs, replaceChar, List.flatMap_cons]
    split
    · rintro d ⟨⟩
      exact hspace
    · rintro d ⟨⟩
      exact ht _ rfl

theorem LaysOut.withoutTabs {T : TokenKind → TokenKind → Prop} (h : LaysOut T ks t)
    (hks : ∀ k ∈ ks, '\t' ∉ k.lexeme) : LaysOut T ks (withoutTabs t) := by
  induction h with
  | nil hg => exact .nil (forall_withoutTabs rfl hg)
  | @cons g t k ks hg hap h ih =>
    rw [withoutTabs_append, withoutTabs_append, withoutTabs_eq (hks k List.mem_cons_self)]
    refine .cons (forall_withoutTabs rfl hg) (hap.imp_left (head?_withoutTabs rfl)) ?_
    exact ih fun k hk => hks k (List.mem_cons_of_mem _ hk)

/-- **What is hashed of a layout** is its tokens, with a space between two of them unless one is
tight there. -/
theorem fingerprint_of_laysOut (h : LaysOut Tight ks t) (hks : ∀ k ∈ ks, IsPiece k.lexeme)
    (htabs : ∀ k ∈ ks, '\t' ∉ k.lexeme) :
    Definition.fingerprint (Definition.tidyCode t) = squeeze true ks := by
  rw [Definition.fingerprint, singleLine_tidyCode]
  exact condense_singleLine_of_laysOut (h.withoutTabs htabs) hks

end

/-- Code that is hashed alike gives a definition the same hash, whatever the hash is made from. -/
theorem Definition.hash_setCode_congr {d : Definition} {code code' : Text}
    (h : fingerprint (tidyCode code) = fingerprint (tidyCode code')) :
    (d.setCode code).hash = (d.setCode code').hash := by
  have hcode : (d.setCode code).codeHash = (d.setCode code').codeHash := congrArg digest h
  show d.givenHash.getD (if d.kind = .binary then d.contentHash else (d.setCode code).codeHash) = _
  rw [hcode]
  rfl

end GameScript
