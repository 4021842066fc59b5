import GameScript.Proofs.Script.Brackets

/-!
# Words that are hashed as they are

A word is steady if it is on one line without tabs, condensing leaves it, and it closes its
brackets. Where such a word is read, it is a piece, which tidying, joining the lines and condensing
copy (`IsSteady.isPiece`): the condenser keeps in step with the reading of a word, brackets or not.
-/

namespace GameScript

open Text Lexer

/-- Whether a word is hashed as it is. -/
def IsSteady (w : Text) : Prop :=
  '\t' ∉ w ∧ '\n' ∉ w ∧ condense w = w ∧ leavesOpen w = false

instance (w : Text) : Decidable (IsSteady w) := inferInstanceAs (Decidable (_ ∧ _))

section

variable {m w r : Text} {s : WordState} {k : Condenser} {c d : Char} {b : Bool}

/-! ## The condenser in step -/

/-- Inside quotes, or behind a backslash there, where the reading of a word is. -/
inductive Lexer.WordState.InStep : WordState → Condenser → Prop where
  | plain {b tight pending : Bool} : InStep (.plain b) (.outside tight pending)
  | quoted {b : Bool} {n : Nat} : InStep (.quoted b n) .quoted
  | escaped {b : Bool} {n : Nat} : InStep (.escaped b n) .escaped

theorem Lexer.WordState.InStep.next (h : s.InStep k) (c : Char) : (s.next c).InStep (k.next c) := by
  cases h with
  | escaped => exact .quoted
  | quoted =>
    rw [WordState.next, Condenser.next]
    by_cases hq : c = '"'
    · subst hq
      exact .plain
    · rw [if_neg hq, if_neg hq]
      split
      · exact .escaped
      · exact .quoted
  | plain =>
    rw [WordState.next, Condenser.next]
    by_cases hq : c = '"'
    · subst hq
      exact .quoted
    · rw [if_neg hq, if_neg hq]
      split
      · split <;> exact .plain
      · split
        · split <;> exact .plain
        · split <;> exact .plain

theorem Lexer.WordState.InStep.after (h : s.InStep k) (w : Text) :
    (s.after w).InStep (k.after w) := by
  induction w generalizing s k with
  | nil => exact h
  | cons c w ih => exact ih (h.next c)

/-! ## The ends of a word -/

theorem last_of_closed (hstop : stopsWord m s d r = false) (hnext : s.next d = .plain false) :
    isBlankChar d = false ∧ isTight d = false := by
  cases s with
  | escaped b n => cases hnext
  | quoted b n =>
    have hq : d = '"' := by
      rw [WordState.next] at hnext
      split at hnext
      · assumption
      · split at hnext <;> cases hnext
    subst hq
    exact ⟨by decide, by decide⟩
  | plain b =>
    by_cases hopen : d = '['
    · subst hopen
      cases hnext
    by_cases hclose : d = ']'
    · subst hclose
      exact ⟨by decide, by decide⟩
    · have hb : b = false := by
        rw [WordState.next, if_neg hopen, if_neg hclose] at hnext
        split at hnext
        · cases hnext
        · exact WordState.plain.inj hnext
      subst hb
      exact of_stopsWord hstop hopen hclose

theorem first_of_word (h : stopsWord m (.plain false) c r = false) :
    isBlankChar c = false ∧ isTight c = false := by
  by_cases hopen : c = '['
  · subst hopen
    exact ⟨by decide, by decide⟩
  by_cases hclose : c = ']'
  · subst hclose
    exact ⟨by decide, by decide⟩
  · exact of_stopsWord h hopen hclose

/-- A word that closes its brackets begins and ends with marks that are not tight. -/
theorem CutsOff.closed_ends (h : CutsOff m (.word w) r) (hclosed : leavesOpen w = false) :
    ∃ c cs ds d, w = c :: cs ∧ w = ds ++ [d] ∧ isBlankChar c = false ∧ isTight c = false ∧
      isBlankChar d = false ∧ isTight d = false := by
  obtain ⟨c, cs, rfl, -, -, hw⟩ := cutsOff_word_iff.1 h
  obtain ⟨ds, d, hlast⟩ : ∃ ds d, c :: cs = ds ++ [d] :=
    ⟨_, _, (List.dropLast_concat_getLast (List.cons_ne_nil c cs)).symm⟩
  have hafter := h.after_word
  rw [hclosed] at hafter
  have hfirst := first_of_word (of_spanWord_cons hw).1
  rw [hlast, List.append_assoc] at hw
  have hend := spanWord_after_append hw
  rw [hlast, WordState.after, List.foldl_append] at hafter
  obtain ⟨hdblank, hdtight⟩ := last_of_closed (of_spanWord_cons hend).1 hafter
  exact ⟨c, cs, ds, d, rfl, hlast, hfirst.1, hfirst.2, hdblank, hdtight⟩

/-! ## Steady words -/

/-- Where a steady word is read it is a piece, and not tight at its ends. -/
theorem IsSteady.isPiece (hw : IsSteady w) (h : CutsOff m (.word w) r) :
    IsPiece w ∧ startsTight w = false ∧ endsTight w = false := by
  obtain ⟨-, hline, hkept, hclosed⟩ := hw
  obtain ⟨c, cs, ds, d, rfl, hlast, hcblank, hctight, hdblank, hdtight⟩ := h.closed_ends hclosed
  have hbounded : Bounded (c :: cs) := ⟨⟨c, cs, rfl, hcblank⟩, ds, d, hlast, hdblank⟩
  rw [condense, hbounded.trim_eq] at hkept
  have hout : ∃ tight pending, (Condenser.outside false false).after (c :: cs) =
      .outside tight pending := by
    have hstart : (WordState.plain false).InStep (.outside false false) := .plain
    have hstep := hstart.after (c :: cs)
    rw [h.after_word] at hstep
    generalize (Condenser.outside false false).after (c :: cs) = k at hstep
    cases hstep with
    | plain => exact ⟨_, _, rfl⟩
  obtain ⟨tight, pending, hout⟩ := hout
  have hcopied : Copied (c :: cs) :=
    copied_of_condense (isBlankChar_ne hcblank) (isBlankChar_ne hdblank) hlast hkept hout
  refine ⟨⟨hbounded, hline, hcopied⟩, ?_, ?_⟩
  · simp [startsTight, hctight]
  · simp [endsTight, hlast, hdtight]

end

end GameScript
