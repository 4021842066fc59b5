import GameScript.Proofs.Text.SingleLine
import Mathlib.Data.List.DropRight

/-!
# Pieces of texts

A text is cut at the first or last separator that is in it, and pieces are joined again with the
separator between them. Joining undoes splitting (`join_splitOn`). A place in a text is in the
piece whose number is that of the separators before it (`getElem?_splitOn`).
-/

namespace GameScript.Text

variable {sep c : Char} {t w : Text} {ps qs : List Text}

theorem not_mem_of_all {p : Char → Bool} (h : ∀ d ∈ t, p d = true) (hc : p c = false) : c ∉ t :=
  fun hmem => Bool.false_ne_true (hc.symm.trans (h c hmem))

/-! ## At one separator -/

theorem splitFirst_append (hw : sep ∉ w) : splitFirst sep (w ++ sep :: t) = some (w, t) := by
  induction w with
  | nil => exact if_pos rfl
  | cons c w ih =>
    rw [List.mem_cons, not_or] at hw
    rw [List.cons_append, splitFirst, if_neg (Ne.symm hw.1), ih hw.2]
    rfl

theorem splitFirst_of_not_mem (h : sep ∉ t) : splitFirst sep t = none := by
  induction t with
  | nil => rfl
  | cons c t ih =>
    rw [List.mem_cons, not_or] at h
    rw [splitFirst, if_neg (Ne.symm h.1), ih h.2]
    rfl

theorem takeWhile_append (hw : sep ∉ w) : (w ++ sep :: t).takeWhile (· ≠ sep) = w := by
  rw [List.takeWhile_append_of_pos, List.takeWhile_cons_of_neg (by simp), List.append_nil]
  exact fun c hc => decide_eq_true fun heq => hw (heq ▸ hc)

theorem dropWhile_append (hw : sep ∉ w) : (w ++ sep :: t).dropWhile (· ≠ sep) = sep :: t := by
  rw [List.dropWhile_append_of_pos, List.dropWhile_cons_of_neg (by simp)]
  exact fun c hc => decide_eq_true fun heq => hw (heq ▸ hc)

theorem splitLast_of_not_mem (h : sep ∉ t) : splitLast sep t = none := by
  induction t with
  | nil => rfl
  | cons c t ih =>
    rw [List.mem_cons, not_or] at h
    rw [splitLast, ih h.2]
    exact if_neg (Ne.symm h.1)

theorem splitLast_append (h : sep ∉ t) : splitLast sep (w ++ sep :: t) = some (w, t) := by
  induction w with
  | nil =>
    rw [List.nil_append, splitLast, splitLast_of_not_mem h]
    exact if_pos rfl
  | cons c w ih => rw [List.cons_append, splitLast, ih]

theorem splitLast_append_of_not_mem (h : sep ∉ t) :
    splitLast sep (w ++ t) = (splitLast sep w).map fun (a, b) => (a, b ++ t) := by
  induction w with
  | nil => exact splitLast_of_not_mem h
  | cons c w ih =>
    rw [List.cons_append, splitLast, ih, splitLast]
    cases splitLast sep w with
    | some p => rfl
    | none =>
      by_cases hc : c = sep
      · simp [hc]
      · simp [hc]

theorem exists_last_of_mem (h : sep ∈ t) : ∃ a b, t = a ++ sep :: b ∧ sep ∉ b := by
  obtain ⟨b, a, hreverse, hb⟩ := List.eq_append_cons_of_mem (List.mem_reverse.2 h)
  refine ⟨a.reverse, b.reverse, ?_, fun hmem => hb (List.mem_reverse.1 hmem)⟩
  rw [← List.reverse_reverse t, hreverse]
  simp

/-! ## At all of them -/

/-- The pieces of a text are those in front of any one separator and those behind it. -/
theorem splitOn_append_cons :
    splitOn sep (w ++ sep :: t) = splitOn sep w ++ splitOn sep t := by
  induction w with
  | nil => exact splitOn_sep
  | cons c w ih =>
    obtain ⟨p, ps, hp⟩ := exists_splitOn sep w
    rw [hp, List.cons_append] at ih
    by_cases hc : c = sep
    · subst hc
      rw [List.cons_append, splitOn_sep, splitOn_sep, ih, hp]
      rfl
    · rw [List.cons_append, splitOn_cons hc ih, splitOn_cons hc hp]
      rfl

@[simp] theorem join_splitOn (sep : Char) (t : Text) : join [sep] (splitOn sep t) = t := by
  induction t with
  | nil => rfl
  | cons c t ih =>
    obtain ⟨p, ps, hp⟩ := exists_splitOn sep t
    by_cases hc : c = sep
    · subst hc
      rw [splitOn_sep, hp]
      rw [hp] at ih
      simp [join, ih]
    · rw [hp] at ih
      have hfront : join [sep] ((c :: p) :: ps) = c :: join [sep] (p :: ps) :=
        join_append (w := [c])
      rw [splitOn_cons hc hp, hfront, ih]

theorem join_cons {sep p : Text} (hne : ps ≠ []) :
    join sep (p :: ps) = p ++ sep ++ join sep ps := by
  cases ps with
  | nil => exact absurd rfl hne
  | cons q ps => rfl

theorem join_append_join {sep : Text} (hps : ps ≠ []) (hqs : qs ≠ []) :
    join sep (ps ++ qs) = join sep ps ++ sep ++ join sep qs := by
  induction ps with
  | nil => exact absurd rfl hps
  | cons p ps ih =>
    cases ps with
    | nil => exact join_cons hqs
    | cons r ps =>
      rw [List.cons_append, join_cons (by simp), ih (List.cons_ne_nil _ _),
        join_cons (List.cons_ne_nil _ _)]
      simp only [List.append_assoc]

theorem subset_join {sep p : Text} (h : p ∈ ps) : p ⊆ join sep ps := by
  induction ps with
  | nil => cases h
  | cons q ps ih =>
    intro c hc
    cases ps with
    | nil => rwa [List.mem_singleton.1 h] at hc
    | cons r ps =>
      rw [join_cons (List.cons_ne_nil _ _)]
      rcases List.mem_cons.1 h with rfl | h
      · simp [hc]
      · exact List.mem_append_right _ (ih h hc)

theorem subset_of_mem_splitOn {sep : Char} {p t : Text} (h : p ∈ splitOn sep t) : p ⊆ t := by
  have hjoin : p ⊆ join [sep] (splitOn sep t) := subset_join h
  rwa [join_splitOn] at hjoin

theorem not_mem_join {sep : Text} (hsep : c ∉ sep) (h : ∀ p ∈ ps, c ∉ p) : c ∉ join sep ps := by
  induction ps with
  | nil => exact List.not_mem_nil
  | cons p ps ih =>
    rw [List.forall_mem_cons] at h
    cases ps with
    | nil => exact h.1
    | cons q ps =>
      rw [join_cons (List.cons_ne_nil _ _)]
      simp only [List.mem_append, not_or]
      exact ⟨⟨h.1, hsep⟩, ih h.2⟩

theorem join_dropLast_isPrefix (sep : Text) : ∀ ps : List Text, join sep ps.dropLast <+: join sep ps
  | [] => List.prefix_refl _
  | [p] => List.nil_prefix
  | [p, q] => by simp [join]
  | p :: q :: r :: ps => by
    have ih := join_dropLast_isPrefix sep (q :: r :: ps)
    simp only [List.dropLast, join] at ih ⊢
    exact (List.prefix_append_right_inj _).2 ih

/-! ## Which piece a place is in -/

theorem splitOn_eq_cons : ∃ ps, splitOn sep t = t.takeWhile (· ≠ sep) :: ps := by
  by_cases hmem : sep ∈ t
  · obtain ⟨w, u, rfl, hw⟩ := List.eq_append_cons_of_mem hmem
    obtain ⟨p, ps, hps⟩ := exists_splitOn sep u
    refine ⟨p :: ps, ?_⟩
    have hsplit : splitOn sep (sep :: u) = [] :: p :: ps := splitOn_sep.trans (congrArg _ hps)
    rw [takeWhile_append hw, splitOn_append hw hsplit, List.append_nil]
  · refine ⟨[], ?_⟩
    have hall : t.takeWhile (· ≠ sep) = t :=
      List.takeWhile_eq_self_iff.2 fun c hc => decide_eq_true fun heq => hmem (heq ▸ hc)
    rw [hall]
    simpa using splitOn_append hmem (t := []) rfl

theorem length_splitOn (sep : Char) (t : Text) :
    (splitOn sep t).length = t.count sep + 1 := by
  induction t with
  | nil => rfl
  | cons c t ih =>
    obtain ⟨p, ps, hps⟩ := exists_splitOn sep t
    rw [hps] at ih
    by_cases hc : c = sep
    · subst hc
      rw [splitOn_sep, hps, List.length_cons, ih, List.count_cons_self]
    · rw [splitOn_cons hc hps, List.length_cons, List.count_cons_of_ne hc, ← ih, List.length_cons]

theorem rtakeWhile_append (h : sep ∉ t) :
    (w ++ sep :: t).rtakeWhile (· ≠ sep) = t := by
  rw [List.rtakeWhile, List.reverse_append, List.reverse_cons, List.append_assoc,
    List.singleton_append, takeWhile_append (mt List.mem_reverse.1 h), List.reverse_reverse]

theorem rtakeWhile_of_not_mem (h : sep ∉ t) : t.rtakeWhile (· ≠ sep) = t :=
  List.rtakeWhile_eq_self_iff.2 fun _ hc => decide_eq_true fun heq => h (heq ▸ hc)

/-- What stands between the last separator and the next one is a piece of the text; its number is
that of the separators before. -/
theorem getElem?_splitOn (sep : Char) (before after : Text) :
    (splitOn sep (before ++ after))[before.count sep]? =
      some (before.rtakeWhile (· ≠ sep) ++ after.takeWhile (· ≠ sep)) := by
  have hpieces : ∃ ps, splitOn sep after = after.takeWhile (· ≠ sep) :: ps := splitOn_eq_cons
  obtain ⟨ps, hps⟩ := hpieces
  by_cases hmem : sep ∈ before
  · obtain ⟨a, b, rfl, hb⟩ := exists_last_of_mem hmem
    have hcount : (a ++ sep :: b).count sep = (splitOn sep a).length := by
      rw [length_splitOn, List.count_append, List.count_cons_self, List.count_eq_zero_of_not_mem hb]
    rw [List.append_assoc, List.cons_append, splitOn_append_cons, splitOn_append hb hps, hcount,
      List.getElem?_append_right le_rfl, Nat.sub_self, rtakeWhile_append hb]
    rfl
  · rw [splitOn_append hmem hps, List.count_eq_zero_of_not_mem hmem, rtakeWhile_of_not_mem hmem]
    rfl

end GameScript.Text
