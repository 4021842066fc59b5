import GameScript.Text.Condensed

/-!
# What the condenser copies

Outside quotes, a run of blanks only makes a space pending, and a piece of text that is copied
as a whole gets that space before it, unless it begins tight or follows what is tight. A text is
condensed piece by piece, each from where the one before it left the condenser
(`condenseFrom_append`).
-/

namespace GameScript.Text

variable {tight pending : Bool} {c : Char} {s : Condenser} {t w r : Text}

def startsTight (w : Text) : Bool := w.head?.any isTight

def endsTight (w : Text) : Bool := w.getLast?.any isTight

/-- The space in front of a piece. -/
def spaceBefore (tight pending : Bool) (w : Text) : Text :=
  if pending && !startsTight w && !tight then [' '] else []

/-- Outside quotes, the condenser copies `w` as a whole and is outside quotes again. -/
def Copied (w : Text) : Prop :=
  ∀ tight pending r, condenseFrom (.outside tight pending) (w ++ r) =
    spaceBefore tight pending w ++ (w ++ condenseFrom (.outside (endsTight w) false) r)

@[simp] theorem condenseFrom_nil (s : Condenser) : condenseFrom s [] = [] := by
  cases s <;> rfl

theorem condenseFrom_blanks {g : Text} (hg : ∀ c ∈ g, c = ' ' ∨ c = '\t') :
    condenseFrom (.outside tight pending) (g ++ r) =
      condenseFrom (.outside tight (pending || !g.isEmpty)) r := by
  induction g generalizing pending with
  | nil => simp
  | cons c g ih =>
    have hg' : ∀ c ∈ g, c = ' ' ∨ c = '\t' := fun c hc => hg c (List.mem_cons_of_mem _ hc)
    rw [List.cons_append, condenseFrom, if_pos (hg c List.mem_cons_self), ih hg']
    simp

theorem condenseFrom_mark {c : Char} (hb : ¬ (c = ' ' ∨ c = '\t')) :
    condenseFrom (.outside tight pending) (c :: r) = spaceBefore tight pending [c] ++
      c :: condenseFrom (if c = '"' then .quoted else .outside (isTight c) false) r := by
  rw [condenseFrom, if_neg hb]
  rfl

theorem condenseFrom_marks (hw : ∀ c ∈ w, ¬ (c = ' ' ∨ c = '\t') ∧ c ≠ '"') :
    condenseFrom (.outside tight false) (w ++ r) =
      w ++ condenseFrom (.outside (w.getLast?.elim tight isTight) false) r := by
  induction w generalizing tight with
  | nil => rfl
  | cons c w ih =>
    have hw' : ∀ c ∈ w, ¬ (c = ' ' ∨ c = '\t') ∧ c ≠ '"' :=
      fun c hc => hw c (List.mem_cons_of_mem _ hc)
    obtain ⟨hb, hq⟩ := hw c List.mem_cons_self
    rw [List.cons_append, condenseFrom_mark hb, if_neg hq, ih hw', List.getLast?_cons]
    cases w.getLast? <;> rfl

theorem copied_of_marks (hne : w ≠ []) (hw : ∀ c ∈ w, ¬ (c = ' ' ∨ c = '\t') ∧ c ≠ '"') :
    Copied w := by
  intro tight pending r
  cases w with
  | nil => exact absurd rfl hne
  | cons c w =>
    have hw' : ∀ c ∈ w, ¬ (c = ' ' ∨ c = '\t') ∧ c ≠ '"' :=
      fun c hc => hw c (List.mem_cons_of_mem _ hc)
    obtain ⟨hb, hq⟩ := hw c List.mem_cons_self
    rw [List.cons_append, condenseFrom_mark hb, if_neg hq, condenseFrom_marks hw', endsTight,
      List.getLast?_cons]
    cases w.getLast? <;> rfl

/-! ## What is in the condensed text -/

/-- The condenser adds nothing but spaces. -/
theorem of_mem_condenseFrom (h : c ∈ condenseFrom s t) : c ∈ t ∨ c = ' ' := by
  fun_induction condenseFrom s t with
  | case1 => exact .inl h
  | case2 d t ih =>
    rcases List.mem_cons.1 h with rfl | h
    · exact .inl List.mem_cons_self
    · exact (ih h).imp_left (List.mem_cons_of_mem _)
  | case3 d t ih =>
    rcases List.mem_cons.1 h with rfl | h
    · exact .inl List.mem_cons_self
    · exact (ih h).imp_left (List.mem_cons_of_mem _)
  | case4 tight pending d t hb ih => exact (ih h).imp_left (List.mem_cons_of_mem _)
  | case5 tight pending d t hb ih =>
    rcases List.mem_append.1 h with h | h
    · split at h
      · exact .inr (List.mem_singleton.1 h)
      · cases h
    rcases List.mem_cons.1 h with rfl | h
    · exact .inl List.mem_cons_self
    · exact (ih h).imp_left (List.mem_cons_of_mem _)

theorem mem_condenseFrom (hmem : c ∈ t) (hc : ¬ (c = ' ' ∨ c = '\t')) : c ∈ condenseFrom s t := by
  fun_induction condenseFrom s t with
  | case1 => exact hmem
  | case2 d t ih =>
    rcases List.mem_cons.1 hmem with rfl | hmem
    · exact List.mem_cons_self
    · exact List.mem_cons_of_mem _ (ih hmem)
  | case3 d t ih =>
    rcases List.mem_cons.1 hmem with rfl | hmem
    · exact List.mem_cons_self
    · exact List.mem_cons_of_mem _ (ih hmem)
  | case4 tight pending d t hb ih =>
    refine ih ((List.mem_cons.1 hmem).resolve_left ?_)
    rintro rfl
    exact hc hb
  | case5 tight pending d t hb ih =>
    refine List.mem_append_right _ ?_
    rcases List.mem_cons.1 hmem with rfl | hmem
    · exact List.mem_cons_self
    · exact List.mem_cons_of_mem _ (ih hmem)

/-! ## Piece by piece -/

def Condenser.next : Condenser → Char → Condenser
  | .escaped, _ => .quoted
  | .quoted, c => if c = '\\' then .escaped else if c = '"' then .outside false false else .quoted
  | .outside tight _, c =>
    if c = ' ' ∨ c = '\t' then .outside tight true
    else if c = '"' then .quoted else .outside (isTight c) false

def Condenser.after (s : Condenser) (w : Text) : Condenser := w.foldl next s

theorem condenseFrom_append (s : Condenser) (w r : Text) :
    condenseFrom s (w ++ r) = condenseFrom s w ++ condenseFrom (s.after w) r := by
  induction w generalizing s with
  | nil => rw [condenseFrom_nil]; rfl
  | cons c w ih =>
    rw [List.cons_append, Condenser.after, List.foldl_cons]
    cases s with
    | escaped => exact congrArg (c :: ·) (ih .quoted)
    | quoted => exact congrArg (c :: ·) (ih _)
    | outside tight pending =>
      rw [Condenser.next]
      by_cases hb : c = ' ' ∨ c = '\t'
      · rw [condenseFrom, if_pos hb, condenseFrom, if_pos hb, if_pos hb]
        exact ih _
      · rw [condenseFrom_mark hb, condenseFrom_mark hb, if_neg hb, List.append_assoc,
          List.cons_append]
        exact congrArg (spaceBefore tight pending [c] ++ c :: ·) (ih _)

/-- A text that condensing leaves is copied, when it leads out of quotes and does not end in a
blank. -/
theorem copied_of_condense {c d : Char} {cs ds : Text} {tight pending : Bool}
    (hfirst : ¬ (c = ' ' ∨ c = '\t')) (hlast : ¬ (d = ' ' ∨ d = '\t')) (hw : c :: cs = ds ++ [d])
    (hkept : condenseFrom (.outside false false) (c :: cs) = c :: cs)
    (hout : (Condenser.outside false false).after (c :: cs) = .outside tight pending) :
    Copied (c :: cs) := by
  -- where the last character leaves the condenser
  have hafter : (Condenser.outside false false).after (c :: cs) =
      .outside (endsTight (c :: cs)) false := by
    have hstep : (Condenser.outside false false).after (c :: cs) =
        ((Condenser.outside false false).after ds).next d := by
      rw [hw, Condenser.after, List.foldl_append]
      rfl
    have hends : endsTight (c :: cs) = isTight d := by simp [endsTight, hw]
    rw [hstep] at hout ⊢
    rw [hends]
    cases hs : (Condenser.outside false false).after ds with
    | escaped => rw [hs] at hout; cases hout
    | quoted =>
      rw [hs, Condenser.next] at hout
      rw [Condenser.next]
      by_cases hq : d = '"'
      · subst hq; rfl
      · rw [if_neg hq] at hout
        split at hout <;> cases hout
    | outside t p =>
      rw [hs, Condenser.next, if_neg hlast] at hout
      rw [Condenser.next, if_neg hlast]
      split at hout
      · cases hout
      · next hq => rw [if_neg hq]
  intro tight pending r
  have hrest : condenseFrom (if c = '"' then .quoted else .outside (isTight c) false) cs = cs := by
    rw [condenseFrom_mark hfirst] at hkept
    exact (List.cons.inj hkept).2
  have hnext : (Condenser.outside false false).after (c :: cs) =
      (if c = '"' then Condenser.quoted else .outside (isTight c) false).after cs := by
    rw [Condenser.after, List.foldl_cons, Condenser.next, if_neg hfirst]
    rfl
  rw [List.cons_append, condenseFrom_mark hfirst, condenseFrom_append, hrest, ← hnext, hafter]
  rfl

end GameScript.Text
