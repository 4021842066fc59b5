import GameScript.Definition.Basic
import Mathlib.Data.List.Induction

/-!
# The single line of a text

Tidying does not change the single line of a text without tabs (`singleLine_tidyCode`). The line
is read off from the front: before its first mark spacing adds nothing, what begins and ends with
a mark is copied, and `lineRest` is what the rest of the text adds behind a mark.
-/

namespace GameScript.Text

variable {c : Char} {t u w : Text}

/-! ## Blank ends -/

theorem trimStart_cons_blank (h : isBlankChar c = true) : trimStart (c :: t) = trimStart t := by
  rw [trimStart, List.dropWhile_cons_of_pos h]
  rfl

theorem trimStart_cons (h : isBlankChar c = false) : trimStart (c :: t) = c :: t := by
  rw [trimStart, List.dropWhile_cons_of_neg (by simp [h])]

theorem trimEnd_append_blank (h : isBlankChar c = true) : trimEnd (t ++ [c]) = trimEnd t := by
  rw [trimEnd, List.reverse_append, List.reverse_singleton, List.singleton_append,
    List.dropWhile_cons_of_pos h]
  rfl

theorem trimEnd_append (h : isBlankChar c = false) :
    trimEnd (t ++ c :: u) = t ++ c :: trimEnd u := by
  have hrev : (t ++ c :: u).reverse = u.reverse ++ c :: t.reverse := by simp
  rw [trimEnd, trimEnd, hrev, List.dropWhile_append]
  split
  · next hu =>
    rw [List.isEmpty_iff] at hu
    rw [hu, List.dropWhile_cons_of_neg (by simp [h])]
    simp
  · simp

theorem trimEnd_cons_blank (h : isBlankChar c = true) :
    trimEnd (c :: t) = if trimEnd t = [] then [] else c :: trimEnd t := by
  have hrev : (c :: t).reverse = t.reverse ++ [c] := by simp
  rw [trimEnd, trimEnd, hrev, List.dropWhile_append]
  split
  · next hu =>
    rw [List.isEmpty_iff] at hu
    simp [hu, h]
  · next hu =>
    rw [List.isEmpty_iff] at hu
    simp [hu]

theorem isBlank_cons : isBlank (c :: t) = (isBlankChar c && isBlank t) := List.all_cons

theorem trim_cons_blank (h : isBlankChar c = true) : trim (c :: t) = trim t := by
  rw [trim, trimStart_cons_blank h, trim]

theorem trim_cons (h : isBlankChar c = false) : trim (c :: t) = c :: trimEnd t := by
  rw [trim, trimStart_cons h, ← List.nil_append (c :: t), trimEnd_append h, List.nil_append]

theorem trim_eq_nil : trim t = [] ↔ isBlank t = true := by
  induction t with
  | nil => exact iff_of_true rfl rfl
  | cons c t ih =>
    rw [isBlank_cons]
    cases hc : isBlankChar c with
    | true => rw [trim_cons_blank hc, ih, Bool.true_and]
    | false => rw [trim_cons hc]; simp

theorem trim_append_blank (h : isBlankChar c = true) : trim (t ++ [c]) = trim t := by
  induction t with
  | nil => exact trim_cons_blank h
  | cons d t ih =>
    cases hd : isBlankChar d with
    | true => rw [List.cons_append, trim_cons_blank hd, trim_cons_blank hd, ih]
    | false => rw [List.cons_append, trim_cons hd, trim_cons hd, trimEnd_append_blank h]

theorem trim_dropReturn : trim (dropReturn t) = trim t := by
  rw [dropReturn]
  split
  · next h =>
    obtain ⟨u, rfl⟩ := List.getLast?_eq_some_iff.1 h
    rw [List.dropLast_concat, trim_append_blank (by decide)]
  · rfl

theorem mem_trim (hmem : c ∈ t) (hc : isBlankChar c = false) : c ∈ trim t := by
  induction t with
  | nil => cases hmem
  | cons d t ih =>
    cases hd : isBlankChar d with
    | true =>
      rw [trim_cons_blank hd]
      refine ih ((List.mem_cons.1 hmem).resolve_left ?_)
      rintro rfl
      exact Bool.false_ne_true (hc.symm.trans hd)
    | false =>
      rw [trim_cons hd]
      rcases List.mem_cons.1 hmem with rfl | hmem
      · exact List.mem_cons_self
      · obtain ⟨v, w, rfl⟩ := List.append_of_mem hmem
        rw [trimEnd_append hc]
        simp

theorem mem_trim_between {d e : Char} {a b : Text} (hc : isBlankChar c = false) (hmem : e ∈ b)
    (he : isBlankChar e = false) : d ∈ trim (c :: (a ++ d :: b)) := by
  obtain ⟨v, w, rfl⟩ := List.append_of_mem hmem
  have hline : a ++ d :: (v ++ e :: w) = (a ++ d :: v) ++ e :: w := by simp
  rw [trim_cons hc, hline, trimEnd_append he]
  simp

theorem trim_append_isBlank {a b : Text} (h : isBlank b = true) : trim (a ++ b) = trim a := by
  induction b using List.reverseRecOn with
  | nil => rw [List.append_nil]
  | append_singleton b c ih =>
    rw [isBlank, List.all_append, List.all_cons, List.all_nil, Bool.and_true,
      Bool.and_eq_true] at h
    rw [← List.append_assoc, trim_append_blank h.2, ih h.1]

/-! ## Lines that are not blank -/

def marked (ps : List Text) : List Text := (ps.map trim).filter (· ≠ [])

theorem marked_cons_nil {p : Text} {ps : List Text} (h : trim p = []) :
    marked (p :: ps) = marked ps := by
  simp [marked, h]

theorem marked_cons {p : Text} {ps : List Text} (h : trim p ≠ []) :
    marked (p :: ps) = trim p :: marked ps := by
  simp [marked, h]

theorem marked_closeLines (ps : List Text) : marked (closeLines ps) = marked ps := by
  fun_induction closeLines ps with
  | case1 => rfl
  | case2 => rfl
  | case3 => rfl
  | case4 p ps _ ih =>
    by_cases hp : trim p = []
    · rw [marked_cons_nil hp, marked_cons_nil (trim_dropReturn.trans hp), ih]
    · rw [marked_cons hp, marked_cons (trim_dropReturn.symm ▸ hp), ih, trim_dropReturn]

theorem marked_filter (ps : List Text) : marked (ps.filter (!isBlank ·)) = marked ps := by
  induction ps with
  | nil => rfl
  | cons p ps ih =>
    cases hp : isBlank p with
    | true => rw [List.filter_cons_of_neg (by simp [hp]), marked_cons_nil (trim_eq_nil.2 hp), ih]
    | false =>
      have hne : trim p ≠ [] := by simp [trim_eq_nil, hp]
      rw [List.filter_cons_of_pos (by simp [hp]), marked_cons hne, marked_cons hne, ih]

/-! ## Pieces between line feeds -/

section

variable {sep : Char} {p : Text} {ps : List Text}

@[simp] theorem splitOn_ne_nil : splitOn sep t ≠ [] := by
  fun_cases splitOn sep t <;> simp

theorem exists_splitOn (sep : Char) (t : Text) : ∃ p ps, splitOn sep t = p :: ps :=
  List.exists_cons_of_ne_nil splitOn_ne_nil

theorem splitOn_sep : splitOn sep (sep :: t) = [] :: splitOn sep t := by
  obtain ⟨p, ps, h⟩ := exists_splitOn sep t
  rw [splitOn, h]
  exact if_pos rfl

theorem splitOn_cons (hc : c ≠ sep) (h : splitOn sep t = p :: ps) :
    splitOn sep (c :: t) = (c :: p) :: ps := by
  rw [splitOn, h]
  exact if_neg hc

theorem splitOn_append (hw : sep ∉ w) (h : splitOn sep t = p :: ps) :
    splitOn sep (w ++ t) = (w ++ p) :: ps := by
  induction w with
  | nil => exact h
  | cons c w ih =>
    rw [List.mem_cons, not_or] at hw
    exact splitOn_cons (Ne.symm hw.1) (ih hw.2)

theorem not_mem_of_mem_splitOn (h : p ∈ splitOn sep t) : sep ∉ p := by
  induction t generalizing p with
  | nil =>
    cases List.mem_singleton.1 h
    exact List.not_mem_nil
  | cons c t ih =>
    obtain ⟨q, qs, hq⟩ := exists_splitOn sep t
    rw [hq] at ih
    by_cases hc : c = sep
    · subst hc
      rw [splitOn_sep, hq, List.mem_cons] at h
      rcases h with rfl | h
      · exact List.not_mem_nil
      · exact ih h
    · rw [splitOn_cons hc hq, List.mem_cons] at h
      rcases h with rfl | h
      · rw [List.mem_cons, not_or]
        exact ⟨Ne.symm hc, ih List.mem_cons_self⟩
      · exact ih (List.mem_cons_of_mem _ h)

/-- Joining and splitting undo each other. -/
theorem splitOn_join (hne : ps ≠ []) (h : ∀ p ∈ ps, sep ∉ p) :
    splitOn sep (join [sep] ps) = ps := by
  induction ps with
  | nil => exact absurd rfl hne
  | cons p ps ih =>
    have hp : sep ∉ p := h p List.mem_cons_self
    cases ps with
    | nil =>
      have hnil : splitOn sep [] = [[]] := rfl
      simpa [join] using splitOn_append hp hnil
    | cons q qs =>
      have hrest := ih (List.cons_ne_nil _ _) fun r hr => h r (List.mem_cons_of_mem _ hr)
      have hsep : splitOn sep (sep :: join [sep] (q :: qs)) = [] :: q :: qs := by
        rw [splitOn_sep, hrest]
      rw [join, List.append_assoc]
      · simpa using splitOn_append hp hsep
      · exact List.cons_ne_nil _ _

end

theorem mem_of_mem_dropReturn (h : c ∈ dropReturn t) : c ∈ t := by
  rw [dropReturn] at h
  split at h
  · exact (List.dropLast_sublist t).mem h
  · exact h

theorem not_mem_of_mem_closeLines {ps : List Text} (h : ∀ p ∈ ps, '\n' ∉ p) :
    ∀ p ∈ closeLines ps, '\n' ∉ p := by
  fun_induction closeLines ps with
  | case1 => exact h
  | case2 => rintro p ⟨⟩
  | case3 => exact h
  | case4 p ps _ ih =>
    intro q hq
    rcases List.mem_cons.1 hq with rfl | hq
    · exact fun hc => h p List.mem_cons_self (mem_of_mem_dropReturn hc)
    · exact ih (fun r hr => h r (List.mem_cons_of_mem _ hr)) q hq

theorem not_mem_of_mem_lines {p : Text} (h : p ∈ lines t) : '\n' ∉ p :=
  not_mem_of_mem_closeLines (fun _ => not_mem_of_mem_splitOn) p h

/-! ## The single line -/

theorem singleLine_eq (t : Text) : singleLine t = join [' '] (marked (splitOn '\n' t)) :=
  congrArg (join [' ']) (marked_closeLines _)

/-- Tidying leaves the single line of a text, but for its tabs. -/
theorem singleLine_tidyCode (code : Text) :
    singleLine (Definition.tidyCode code) =
      singleLine (replaceChar '\t' (List.replicate 4 ' ') code) := by
  generalize htext : replaceChar '\t' (List.replicate 4 ' ') code = text
  have hmarked : marked ((lines text).filter (!isBlank ·)) = marked (lines text) := marked_filter _
  rw [Definition.tidyCode, htext, singleLine_eq, unlines]
  cases hls : (lines text).filter (!isBlank ·) with
  | nil =>
    rw [hls] at hmarked
    show [] = join [' '] (marked (lines text))
    rw [← hmarked]
    rfl
  | cons l ls =>
    rw [← hls, splitOn_join (by simp [hls]), hmarked]
    · rfl
    · intro p hp
      exact not_mem_of_mem_lines (List.mem_filter.1 hp).1

/-- A text that begins and ends with a mark. -/
structure Bounded (t : Text) : Prop where
  head : ∃ c cs, t = c :: cs ∧ isBlankChar c = false
  last : ∃ cs c, t = cs ++ [c] ∧ isBlankChar c = false

theorem bounded_of_marks (hne : t ≠ []) (ht : ∀ c ∈ t, isBlankChar c = false) : Bounded t := by
  refine ⟨?_, t.dropLast, t.getLast hne, (List.dropLast_concat_getLast hne).symm,
    ht _ (List.getLast_mem hne)⟩
  cases t with
  | nil => exact absurd rfl hne
  | cons c t => exact ⟨c, t, rfl, ht c List.mem_cons_self⟩

theorem trimEnd_last (t : Text) :
    trimEnd t = [] ∨ ∃ cs c, trimEnd t = cs ++ [c] ∧ isBlankChar c = false := by
  induction t with
  | nil => exact .inl rfl
  | cons c t ih =>
    cases hc : isBlankChar c with
    | true =>
      rw [trimEnd_cons_blank hc]
      rcases ih with h | ⟨cs, d, h, hd⟩
      · exact .inl (if_pos h)
      · rw [h, if_neg (by simp)]
        exact .inr ⟨c :: cs, d, rfl, hd⟩
    | false =>
      rw [← List.nil_append (c :: t), trimEnd_append hc]
      rcases ih with h | ⟨cs, d, h, hd⟩
      · exact .inr ⟨[], c, by rw [h], hc⟩
      · exact .inr ⟨c :: cs, d, by rw [h]; rfl, hd⟩

theorem bounded_trim (h : trim t ≠ []) : Bounded (trim t) := by
  induction t with
  | nil => exact absurd rfl h
  | cons c t ih =>
    cases hc : isBlankChar c with
    | true =>
      rw [trim_cons_blank hc] at h ⊢
      exact ih h
    | false =>
      rw [trim_cons hc]
      refine ⟨⟨c, _, rfl, hc⟩, ?_⟩
      rcases trimEnd_last t with h | ⟨cs, d, h, hd⟩
      · exact ⟨[], c, by rw [h]; rfl, hc⟩
      · exact ⟨c :: cs, d, by rw [h]; rfl, hd⟩

theorem Bounded.trimEnd_append (h : Bounded w) : trimEnd (w ++ t) = w ++ trimEnd t := by
  obtain ⟨cs, c, rfl, hc⟩ := h.last
  rw [List.append_assoc, List.append_assoc]
  exact Text.trimEnd_append hc

theorem Bounded.trim_append (h : Bounded w) : trim (w ++ t) = w ++ trimEnd t := by
  obtain ⟨c, cs, rfl, hc⟩ := h.head
  rw [← h.trimEnd_append, trim, List.cons_append, trimStart_cons hc]

theorem Bounded.trim_eq (h : Bounded w) : trim w = w := by
  have := h.trim_append (t := [])
  rwa [List.append_nil, show trimEnd [] = [] from rfl, List.append_nil] at this

theorem Bounded.join {ps : List Text} (hne : ps ≠ []) (h : ∀ p ∈ ps, Bounded p) (sep : Text) :
    Bounded (join sep ps) := by
  induction ps with
  | nil => exact absurd rfl hne
  | cons p ps ih =>
    have hp := h p List.mem_cons_self
    cases ps with
    | nil => exact hp
    | cons q qs =>
      have hrest := ih (List.cons_ne_nil _ _) fun r hr => h r (List.mem_cons_of_mem _ hr)
      obtain ⟨c, cs, rfl, hc⟩ := hp.head
      obtain ⟨ds, d, hd, hdb⟩ := hrest.last
      have heq : Text.join sep ((c :: cs) :: q :: qs) = c :: cs ++ sep ++ (ds ++ [d]) := by
        rw [← hd, Text.join]
        exact List.cons_ne_nil _ _
      rw [heq]
      exact ⟨⟨c, _, rfl, hc⟩, c :: cs ++ sep ++ ds, d, by simp, hdb⟩

theorem bounded_of_mem_marked {p : Text} {ps : List Text} (h : p ∈ marked ps) : Bounded p := by
  obtain ⟨hp, hne⟩ := List.mem_filter.1 h
  obtain ⟨q, -, rfl⟩ := List.mem_map.1 hp
  exact bounded_trim (of_decide_eq_true hne)

theorem trim_singleLine (t : Text) : trim (singleLine t) = singleLine t := by
  rw [singleLine_eq]
  by_cases h : marked (splitOn '\n' t) = []
  · rw [h]
    rfl
  · exact (Bounded.join h (fun _ => bounded_of_mem_marked) _).trim_eq

/-! ## From the front -/

/-- What the rest of a text adds to the single line behind a mark: what is left of the line, and
the lines after it. -/
def lineRest (t : Text) : Text :=
  match splitOn '\n' t with
  | [] => []
  | p :: ps => join [' '] (trimEnd p :: marked ps)

theorem join_append {sep p : Text} {ps : List Text} :
    join sep ((w ++ p) :: ps) = w ++ join sep (p :: ps) := by
  cases ps with
  | nil => rfl
  | cons q qs => simp [join]

theorem singleLine_blank (h : isBlankChar c = true) : singleLine (c :: t) = singleLine t := by
  rw [singleLine_eq, singleLine_eq]
  by_cases hc : c = '\n'
  · rw [hc, splitOn_sep, marked_cons_nil rfl]
  · obtain ⟨p, ps, hp⟩ := exists_splitOn '\n' t
    rw [splitOn_cons hc hp, hp]
    simp only [marked, List.map_cons, trim_cons_blank h]

section

variable (hw : Bounded w) (hn : '\n' ∉ w)
include hw hn

theorem singleLine_append : singleLine (w ++ t) = w ++ lineRest t := by
  obtain ⟨p, ps, hp⟩ := exists_splitOn '\n' t
  have hne : trim (w ++ p) ≠ [] := by
    obtain ⟨c, cs, rfl, -⟩ := hw.head
    rw [hw.trim_append]
    exact List.cons_ne_nil _ _
  rw [singleLine_eq, splitOn_append hn hp, marked_cons hne, hw.trim_append, join_append, lineRest,
    hp]

theorem lineRest_append : lineRest (w ++ t) = w ++ lineRest t := by
  obtain ⟨p, ps, hp⟩ := exists_splitOn '\n' t
  simp only [lineRest, splitOn_append hn hp, hp, hw.trimEnd_append, join_append]

/-- A blank in front of a mark is kept, other than a line feed. -/
theorem lineRest_cons_append (hb : isBlankChar c = true) (hc : c ≠ '\n') :
    lineRest (c :: (w ++ t)) = c :: (w ++ lineRest t) := by
  obtain ⟨p, ps, hp⟩ := exists_splitOn '\n' t
  have hne : trimEnd (w ++ p) ≠ [] := by
    obtain ⟨c, cs, rfl, -⟩ := hw.head
    rw [hw.trimEnd_append]
    exact List.cons_ne_nil _ _
  have htrim : trimEnd (c :: (w ++ p)) = (c :: w) ++ trimEnd p := by
    rw [trimEnd_cons_blank hb, if_neg hne, hw.trimEnd_append]
    rfl
  simp only [lineRest, splitOn_cons hc (splitOn_append hn hp), hp, htrim, join_append]
  rfl

end

theorem lineRest_lineFeed :
    lineRest ('\n' :: t) = if singleLine t = [] then [] else ' ' :: singleLine t := by
  rw [singleLine_eq, lineRest, splitOn_sep]
  show join [' '] ([] :: marked (splitOn '\n' t)) = _
  cases hm : marked (splitOn '\n' t) with
  | nil => rfl
  | cons l ls =>
    have hb : Bounded (join [' '] (l :: ls)) :=
      .join (List.cons_ne_nil _ _) (fun _ hp => bounded_of_mem_marked (hm ▸ hp)) _
    obtain ⟨c, cs, hc, -⟩ := hb.head
    rw [if_neg (by simp [hc]), join]
    · rfl
    · exact List.cons_ne_nil _ _

theorem lineRest_blank (hb : isBlankChar c = true) (hc : c ≠ '\n') :
    lineRest (c :: t) = lineRest t ∨ (lineRest t ≠ [] ∧ lineRest (c :: t) = c :: lineRest t) := by
  obtain ⟨p, ps, hp⟩ := exists_splitOn '\n' t
  simp only [lineRest, splitOn_cons hc hp, hp, trimEnd_cons_blank hb]
  by_cases h : trimEnd p = []
  · rw [if_pos h, h]
    exact .inl rfl
  · rw [if_neg h]
    refine .inr ⟨?_, join_append (w := [c])⟩
    have hjoin : join [' '] ((trimEnd p ++ []) :: marked ps) =
        trimEnd p ++ join [' '] ([] :: marked ps) :=
      join_append
    rw [List.append_nil] at hjoin
    rw [hjoin]
    exact fun hnil => h (List.append_eq_nil_iff.1 hnil).1

end GameScript.Text
