import GameScript.Proofs.Script.Tidying
import GameScript.Proofs.Text.Pieces
import GameScript.Reader.Lua
import Mathlib.Data.List.Chain
import Mathlib.Data.List.Forall2

/-!
# What cleaning does to Lua

Every pass over the text drops separators and nothing else (`Thins`), so it drops some of each line
on its own (`Thins.splitOn`). After a closing brace one separator is dropped on its line, whatever
the other lines are (`dropAfterClose_unlines`). Of plain lines that only end in separators
(`IsEnded`) the passes leave such lines again (`IsEnded.thins`). Lines that the passes do not change
(`IsKept`) lose the separators at their ends, and those in lists stay (`dropAll_kept`).
-/

namespace GameScript.Lua

open Text

/-- The first text is the second without some of its separators. -/
inductive Thins : Text → Text → Prop where
  | nil : Thins [] []
  | keep {c : Char} {t u : Text} : Thins t u → Thins (c :: t) (c :: u)
  | drop {c : Char} {t u : Text} : isSeparator c = true → Thins t u → Thins t (c :: u)

variable {t u v w r : Text} {c sep : Char} {ls : List Text}

/-! ## Every pass drops separators alone -/

theorem Thins.trans (h : Thins t u) (h' : Thins u v) : Thins t v := by
  induction h' generalizing t with
  | nil => exact h
  | keep _ ih =>
    cases h with
    | keep h => exact .keep (ih h)
    | drop hc h => exact .drop hc (ih h)
  | drop hc _ ih => exact .drop hc (ih h)

theorem thins_dropBeforeClose (t : Text) : Thins (dropBeforeClose t) t := by
  fun_induction dropBeforeClose t with
  | case1 => exact .nil
  | case2 c cs h ih => exact .drop (Bool.and_eq_true_iff.1 h).1 ih
  | case3 c cs h ih => exact .keep ih

theorem thins_dropLoose (quoted : Bool) (t : Text) : Thins (dropLoose quoted t) t := by
  fun_induction dropLoose quoted t with
  | case1 => exact .nil
  | case2 quoted c cs h ih =>
    simp only [Bool.and_eq_true] at h
    exact .drop h.1.1 ih
  | case3 quoted c cs h ih => exact .keep ih

theorem thins_dropAfterClose (closed : Bool) (t : Text) : Thins (dropAfterClose closed t) t := by
  fun_induction dropAfterClose closed t with
  | case1 => exact .nil
  | case2 closed c cs h ih => exact .drop (Bool.and_eq_true_iff.1 h).2 ih
  | case3 closed c cs h ih => exact .keep ih

/-! ## Line by line -/

theorem Thins.splitOn (hsep : isSeparator sep = false) (h : Thins t u) :
    List.Forall₂ Thins (splitOn sep t) (splitOn sep u) := by
  induction h with
  | nil => exact .cons .nil .nil
  | @keep c t u h ih =>
    obtain ⟨p, ps, hp⟩ := exists_splitOn sep t
    obtain ⟨q, qs, hq⟩ := exists_splitOn sep u
    rw [hp, hq, List.forall₂_cons] at ih
    by_cases hc : c = sep
    · subst hc
      rw [splitOn_sep, splitOn_sep, hp, hq]
      exact .cons .nil (.cons ih.1 ih.2)
    · rw [splitOn_cons hc hp, splitOn_cons hc hq]
      exact .cons (.keep ih.1) ih.2
  | @drop c t u hc h ih =>
    obtain ⟨p, ps, hp⟩ := exists_splitOn sep t
    obtain ⟨q, qs, hq⟩ := exists_splitOn sep u
    rw [hp, hq, List.forall₂_cons] at ih
    have hne : c ≠ sep := by
      rintro rfl
      rw [hsep] at hc
      cases hc
    rw [hp, splitOn_cons hne hq]
    exact .cons (.drop hc ih.1) ih.2

theorem Thins.eq_filter (h : Thins t u) (ht : ∀ c ∈ t, isSeparator c = false) :
    t = u.filter (!isSeparator ·) := by
  induction h with
  | nil => rfl
  | keep _ ih =>
    rw [List.forall_mem_cons] at ht
    rw [List.filter_cons_of_pos (by rw [ht.1]; rfl), ← ih ht.2]
  | drop hc _ ih => rw [List.filter_cons_of_neg (by rw [hc]; decide), ← ih ht]

theorem Thins.subset (h : Thins t u) : t ⊆ u := by
  induction h with
  | nil => exact List.Subset.refl _
  | keep _ ih => exact List.cons_subset_cons _ ih
  | drop _ _ ih => exact List.subset_cons_of_subset _ ih

/-! ## After closing braces -/

def closedAfter (closed : Bool) : Text → Bool
  | [] => closed
  | c :: cs =>
    closedAfter
      (if closed && isSeparator c then false else c == '}' || (closed && isBlankChar c)) cs

theorem dropAfterClose_append {closed : Bool} : dropAfterClose closed (w ++ r) =
    dropAfterClose closed w ++ dropAfterClose (closedAfter closed w) r := by
  induction w generalizing closed with
  | nil => rfl
  | cons c w ih =>
    rw [List.cons_append, dropAfterClose, dropAfterClose, closedAfter]
    split
    · exact ih
    · rw [ih]
      rfl

/-- A line that starts with neither a blank nor a separator is no concern of the lines above. -/
theorem dropAfterClose_start {closed : Bool} (hb : isBlankChar c = false)
    (hs : isSeparator c = false) :
    dropAfterClose closed (c :: t) = dropAfterClose false (c :: t) := by
  simp [dropAfterClose, hb, hs]

theorem dropAfterClose_of_not_mem (h : '}' ∉ t) : dropAfterClose false t = t := by
  induction t with
  | nil => rfl
  | cons c t ih =>
    rw [List.mem_cons, not_or] at h
    have hc : (c == '}') = false := beq_eq_false_iff_ne.2 (Ne.symm h.1)
    simp [dropAfterClose, hc, ih h.2]

theorem dropAfterClose_concat (h : '}' ∉ t) : dropAfterClose false (t ++ ['}']) = t ++ ['}'] := by
  have hclose (closed : Bool) : dropAfterClose closed ['}'] = ['}'] := by cases closed <;> rfl
  rw [dropAfterClose_append, dropAfterClose_of_not_mem h, hclose]

/-- Each line is cleaned on its own, after a closing brace too. -/
theorem dropAfterClose_unlines (h : ∀ l ∈ ls, ∃ c cs, l = c :: cs ∧ isBlankChar c = false ∧
    isSeparator c = false) :
    dropAfterClose false (unlines ls) = unlines (ls.map (dropAfterClose false)) := by
  induction ls with
  | nil => rfl
  | cons l ls ih =>
    rw [List.forall_mem_cons] at h
    cases ls with
    | nil => rfl
    | cons l' ls =>
      have hrest := ih h.2
      obtain ⟨c, cs, rfl, hb, hs⟩ := h.2 l' List.mem_cons_self
      -- the line feed is a blank, and what comes next is none
      have hstart {closed : Bool} : dropAfterClose closed ('\n' :: unlines ((c :: cs) :: ls)) =
          '\n' :: dropAfterClose false (unlines ((c :: cs) :: ls)) := by
        have hcons : unlines ((c :: cs) :: ls) = c :: unlines (cs :: ls) := join_append (w := [c])
        rw [hcons, dropAfterClose, if_neg (by simp [isSeparator]), dropAfterClose_start hb hs]
      have hline : unlines (l :: (c :: cs) :: ls) = l ++ '\n' :: unlines ((c :: cs) :: ls) := by
        simp [unlines, join]
      rw [hline, dropAfterClose_append, hstart, hrest]
      simp [unlines, join]

/-! ## Nesting -/

theorem isNested_cons (hne : w ≠ []) (hw : '=' ∉ w) :
    isNested ((w ++ '=' :: r) :: ls) = !w.contains '.' := by
  obtain ⟨p, ps, hp⟩ := exists_splitOn '=' r
  have hsep : splitOn '=' ('=' :: r) = [] :: p :: ps := by rw [splitOn_sep, hp]
  have hsplit : splitOn '=' (w ++ '=' :: r) = w :: p :: ps := by
    rw [splitOn_append hw hsep, List.append_nil]
  rw [isNested, List.find?_cons_of_pos (by simp)]
  dsimp only
  rw [hsplit, List.find?_cons_of_pos (by simpa using hne)]
  rfl

/-- Nothing below the line of the last closing brace counts. -/
theorem throughLastBrace_unlines {trailing : List Text} (h : ∀ l ∈ trailing, '}' ∉ l) :
    throughLastBrace (unlines (ls ++ ['}'] :: trailing)) = unlines (ls ++ [['}']]) := by
  have hrest : ∃ rest, unlines (['}'] :: trailing) = '}' :: rest ∧ '}' ∉ rest := by
    by_cases hne : trailing = []
    · exact ⟨[], by rw [hne]; rfl, List.not_mem_nil⟩
    · refine ⟨'\n' :: unlines trailing, by rw [unlines, join_cons hne]; rfl, ?_⟩
      exact List.not_mem_cons_of_ne_of_not_mem (by decide) (not_mem_join (by decide) h)
  obtain ⟨rest, hrest, hclose⟩ := hrest
  rw [throughLastBrace]
  by_cases hls : ls = []
  · rw [hls, List.nil_append, hrest, ← List.nil_append ('}' :: rest), splitLast_append hclose]
    rfl
  · have hjoin (t : Text) (ts : List Text) :
        unlines (ls ++ t :: ts) = unlines ls ++ '\n' :: unlines (t :: ts) := by
      rw [unlines, join_append_join hls (List.cons_ne_nil _ _), List.append_assoc]
      rfl
    have hline : unlines ls ++ '\n' :: '}' :: rest = (unlines ls ++ ['\n']) ++ '}' :: rest := by
      simp
    rw [hjoin, hjoin, hrest, hline, splitLast_append hclose]
    simp [unlines, join]

/-! ## Plain lines -/

/-- Whether no two minus signs stand side by side. -/
def IsUndashed (t : Text) : Prop := t.IsChain fun a b => ¬ (a = '-' ∧ b = '-')

instance : DecidablePred IsUndashed := fun t => inferInstanceAs (Decidable (t.IsChain _))

/-- A line without quotes and comments, and with marks at its ends. -/
structure IsPlainLine (l : Text) : Prop where
  bounded : Bounded l
  quote : '"' ∉ l
  tab : '\t' ∉ l
  feed : '\n' ∉ l
  undashed : IsUndashed l

theorem IsPlainLine.isTidyLine (h : IsPlainLine t) : IsTidyLine t := ⟨h.tab, h.feed, h.bounded.last⟩

theorem marker_of_isLua {file : Text} (h : isLua file = true) :
    ({} : ScriptSettings).marker file = ['-', '-'] := by
  have hext : Path.extension file = ".lua" := of_decide_eq_true h
  simp [ScriptSettings.marker, ScriptSettings.commentStyle, hext]

theorem isCommentAt_of_isUndashed (h : IsUndashed t) : Lexer.isCommentAt ['-', '-'] t = false := by
  refine Bool.eq_false_iff.2 fun hc => ?_
  obtain ⟨-, r, rfl⟩ := Lexer.isCommentAt_iff.1 hc
  exact (List.isChain_cons_cons.1 h).1 ⟨rfl, rfl⟩

theorem beforeComment_eq (h : IsUndashed t) (hquote : '"' ∉ t) :
    beforeComment ['-', '-'] false t = t := by
  induction t with
  | nil => rfl
  | cons c t ih =>
    rw [List.mem_cons, not_or] at hquote
    rw [beforeComment, if_neg (Ne.symm hquote.1), isCommentAt_of_isUndashed h, ih h.tail hquote.2]
    rfl

theorem cleanLines_eq {file : Text} (hfile : isLua file = true) (h : ∀ l ∈ ls, IsPlainLine l) :
    ({} : ScriptSettings).cleanLines file ls = ls := by
  have hkept (l : Text) (hl : l ∈ ls) : trimEnd (beforeComment ['-', '-'] false l) = l := by
    have hbounded := (h l hl).bounded.trimEnd_append (t := [])
    rw [List.append_nil, show trimEnd [] = [] from rfl, List.append_nil] at hbounded
    rw [beforeComment_eq (h l hl).undashed (h l hl).quote, hbounded]
  rw [ScriptSettings.cleanLines, marker_of_isLua hfile, List.map_congr_left hkept, List.map_id',
    List.filter_eq_self.2]
  intro l hl
  rw [(h l hl).isTidyLine.not_blank]
  rfl

theorem isUndashed_append (hw : '-' ∉ w) (ht : IsUndashed t) : IsUndashed (w ++ t) := by
  induction w with
  | nil => exact ht
  | cons c w ih =>
    rw [List.mem_cons, not_or] at hw
    exact List.isChain_cons.2 ⟨fun _ _ h => hw.1 h.1.symm, ih hw.2⟩

theorem isUndashed_of_not_mem (h : '-' ∉ t) : IsUndashed t := by
  have hundashed := isUndashed_append h .nil
  rwa [List.append_nil] at hundashed

theorem IsUndashed.concat (ht : IsUndashed t) (hc : c ≠ '-') : IsUndashed (t ++ [c]) := by
  refine List.isChain_append.2 ⟨ht, List.isChain_singleton _, fun _ _ d hd h => ?_⟩
  obtain rfl := Option.some.inj hd
  exact hc h.2

/-! ## Lines with a separator at the end -/

/-- The second text is the first, with a separator at its end or not. -/
def Ends (body line : Text) : Prop := line = body ∨ ∃ c, isSeparator c = true ∧ line = body ++ [c]

/-- A plain line without separators. -/
structure IsBody (l : Text) : Prop extends IsPlainLine l where
  none : ∀ c ∈ l, isSeparator c = false

def IsEnded (line : Text) : Prop := ∃ body, IsBody body ∧ Ends body line

theorem separator_cases (hc : isSeparator c = true) : c = ',' ∨ c = ';' := by
  simpa [isSeparator] using hc

theorem IsPlainLine.ended (h : IsPlainLine t) (hu : Ends t u) : IsPlainLine u := by
  obtain rfl | ⟨c, hc, rfl⟩ := hu
  · exact h
  obtain ⟨d, ds, hd, hb⟩ := h.bounded.head
  have hmark : isBlankChar c = false ∧ c ≠ '"' ∧ c ≠ '\t' ∧ c ≠ '\n' ∧ c ≠ '-' := by
    rcases separator_cases hc with rfl | rfl <;> decide
  exact {
    bounded := ⟨⟨d, ds ++ [c], by rw [hd]; rfl, hb⟩, t, c, rfl, hmark.1⟩
    quote := by simp [h.quote, hmark.2.1.symm]
    tab := by simp [h.tab, hmark.2.2.1.symm]
    feed := by simp [h.feed, hmark.2.2.2.1.symm]
    undashed := h.undashed.concat hmark.2.2.2.2 }

theorem IsEnded.isPlainLine (h : IsEnded t) : IsPlainLine t := by
  obtain ⟨body, hbody, hends⟩ := h
  exact hbody.toIsPlainLine.ended hends

theorem IsEnded.start (h : IsEnded t) :
    ∃ c cs, t = c :: cs ∧ isBlankChar c = false ∧ isSeparator c = false := by
  obtain ⟨body, hbody, hends⟩ := h
  obtain ⟨c, cs, rfl, hb⟩ := hbody.bounded.head
  have hc := hbody.none c List.mem_cons_self
  obtain rfl | ⟨d, -, rfl⟩ := hends
  · exact ⟨c, cs, rfl, hb, hc⟩
  · exact ⟨c, cs ++ [d], rfl, hb, hc⟩

theorem Thins.eq_of_none (hu : ∀ c ∈ u, isSeparator c = false) (h : Thins t u) : t = u := by
  have hnone : u.filter (!isSeparator ·) = u :=
    List.filter_eq_self.2 fun c hc => by rw [hu c hc]; rfl
  rw [h.eq_filter fun c hc => hu c (h.subset hc), hnone]

/-- Only the separator at its end can be dropped of an ended line. -/
theorem Ends.thins (hnone : ∀ c ∈ u, isSeparator c = false) (hu : Ends u v) (h : Thins t v) :
    Ends u t := by
  obtain rfl | ⟨c, hc, rfl⟩ := hu
  · exact .inl (h.eq_of_none hnone)
  induction u generalizing t with
  | nil =>
    cases h with
    | keep h => cases h; exact .inr ⟨c, hc, rfl⟩
    | drop _ h => cases h; exact .inl rfl
  | cons d u ih =>
    rw [List.forall_mem_cons] at hnone
    cases h with
    | keep h =>
      obtain rfl | ⟨e, he, rfl⟩ := ih hnone.2 h
      · exact .inl rfl
      · exact .inr ⟨e, he, rfl⟩
    | drop hd _ =>
      rw [hnone.1] at hd
      cases hd

theorem IsEnded.thins (hu : IsEnded u) (h : Thins t u) : IsEnded t := by
  obtain ⟨body, hbody, hends⟩ := hu
  exact ⟨body, hbody, hends.thins hbody.none h⟩

theorem Ends.dropLineEnd_eq (hnone : ∀ c ∈ u, isSeparator c = false) (hu : Ends u v) :
    dropLineEnd v = u := by
  obtain rfl | ⟨c, hc, rfl⟩ := hu
  · rw [dropLineEnd, if_neg]
    cases hlast : v.getLast? with
    | none => simp
    | some c => simp [hnone c (List.mem_of_getLast? hlast)]
  · rw [dropLineEnd, List.getLast?_concat, Option.any_some, if_pos hc, List.dropLast_concat]

/-! ## Lines that keep their separators -/

theorem dropBeforeClose_mark (h : isSeparator c = false) :
    dropBeforeClose (c :: r) = c :: dropBeforeClose r := by
  rw [dropBeforeClose, h, Bool.false_and, if_neg Bool.false_ne_true]

theorem dropBeforeClose_append (h : ∀ c ∈ w, isSeparator c = false) :
    dropBeforeClose (w ++ r) = w ++ dropBeforeClose r := by
  induction w with
  | nil => rfl
  | cons c w ih =>
    rw [List.forall_mem_cons] at h
    rw [List.cons_append, dropBeforeClose_mark h.1, ih h.2, List.cons_append]

theorem dropBeforeClose_cons (h : (trimStart r).head? ≠ some '}') :
    dropBeforeClose (c :: r) = c :: dropBeforeClose r := by
  rw [dropBeforeClose, beq_eq_false_iff_ne.2 h, Bool.and_false, if_neg Bool.false_ne_true]

theorem dropLoose_mark (h : isSeparator c = false) (hquote : c ≠ '"') :
    dropLoose false (c :: r) = c :: dropLoose false r := by
  rw [dropLoose, h, if_neg hquote, Bool.and_false]
  rfl

theorem dropLoose_append (hnone : ∀ c ∈ w, isSeparator c = false) (hquote : '"' ∉ w) :
    dropLoose false (w ++ r) = w ++ dropLoose false r := by
  induction w with
  | nil => rfl
  | cons c w ih =>
    rw [List.forall_mem_cons] at hnone
    rw [List.mem_cons, not_or] at hquote
    rw [List.cons_append, dropLoose_mark hnone.1 (Ne.symm hquote.1), ih hnone.2 hquote.2,
      List.cons_append]

theorem closesNext_cons (hopen : c ≠ '{') (hclose : c ≠ '}') :
    closesNext (c :: r) = closesNext r := by
  rw [closesNext, List.find?_cons_of_neg (by simp [hopen, hclose]), closesNext]

theorem closesNext_append (hopen : '{' ∉ w) (hclose : '}' ∉ w) :
    closesNext (w ++ r) = closesNext r := by
  induction w with
  | nil => rfl
  | cons c w ih =>
    rw [List.mem_cons, not_or] at hopen hclose
    rw [List.cons_append, closesNext_cons (Ne.symm hopen.1) (Ne.symm hclose.1),
      ih hopen.2 hclose.2]

/-- In front of the brace that closes it, a list is kept. -/
theorem dropLoose_list (hquote : '"' ∉ w) (hopen : '{' ∉ w) (hclose : '}' ∉ w) :
    dropLoose false (w ++ '}' :: r) = w ++ '}' :: dropLoose false r := by
  induction w with
  | nil => exact dropLoose_mark (by decide) (by decide)
  | cons c w ih =>
    rw [List.mem_cons, not_or] at hquote hopen hclose
    have hnext : closesNext (w ++ '}' :: r) = true := closesNext_append hopen.2 hclose.2
    rw [List.cons_append, dropLoose, hnext, if_neg (Ne.symm hquote.1), Bool.and_false,
      ih hquote.2 hopen.2 hclose.2]
    simp

theorem head?_trimStart (h : closesNext t = false) : (trimStart t).head? ≠ some '}' := by
  induction t with
  | nil => simp [trimStart]
  | cons c t ih =>
    cases hb : isBlankChar c with
    | true =>
      have hopen : c ≠ '{' := by rintro rfl; cases hb
      have hclose : c ≠ '}' := by rintro rfl; cases hb
      rw [closesNext_cons hopen hclose] at h
      rw [trimStart_cons_blank hb]
      exact ih h
    | false =>
      rw [trimStart_cons hb]
      rintro hc
      cases hc
      cases h

/-- A plain line that the passes leave as it is, and with which no brace closes what is above. -/
structure IsKept (l : Text) : Prop extends IsPlainLine l where
  mark : ∃ c cs, l = c :: cs ∧ isBlankChar c = false ∧ isSeparator c = false
  beforeClose (r : Text) : dropBeforeClose (l ++ r) = l ++ dropBeforeClose r
  loose (r : Text) : dropLoose false (l ++ r) = l ++ dropLoose false r
  afterClose : dropAfterClose false l = l
  closes (r : Text) : closesNext r = false → closesNext (l ++ r) = false

theorem IsBody.isKept (h : IsBody t) (hopen : '{' ∉ t) (hclose : '}' ∉ t) : IsKept t where
  toIsPlainLine := h.toIsPlainLine
  mark := by
    obtain ⟨c, cs, hc, hb⟩ := h.bounded.head
    exact ⟨c, cs, hc, hb, h.none c (hc ▸ List.mem_cons_self)⟩
  beforeClose _ := dropBeforeClose_append h.none
  loose _ := dropLoose_append h.none h.quote
  afterClose := dropAfterClose_of_not_mem hclose
  closes _ hr := by rw [closesNext_append hopen hclose, hr]

theorem closesNext_separator (hc : isSeparator c = true) : closesNext (c :: r) = closesNext r := by
  rcases separator_cases hc with rfl | rfl <;> rfl

theorem IsKept.ended {line : Text} (h : IsKept u) (hends : Ends u line)
    (hr : closesNext r = false) :
    dropBeforeClose (line ++ r) = line ++ dropBeforeClose r ∧
      dropLoose false (line ++ r) = u ++ dropLoose false r ∧ closesNext (line ++ r) = false := by
  obtain rfl | ⟨c, hc, rfl⟩ := hends
  · exact ⟨h.beforeClose r, h.loose r, h.closes r hr⟩
  · have hnext : closesNext (c :: r) = false := by rw [closesNext_separator hc, hr]
    rw [List.append_assoc, List.singleton_append]
    refine ⟨?_, ?_, h.closes _ hnext⟩
    · rw [h.beforeClose, dropBeforeClose_cons (head?_trimStart hr), List.append_assoc]
      rfl
    · rw [h.loose, dropLoose, hc, hr]
      rfl

/-- The separators that end kept lines are dropped, and no other ones. -/
theorem dropLoose_unlines {bodies : List Text} (hbodies : ∀ l ∈ bodies, IsKept l)
    (h : List.Forall₂ Ends bodies ls) :
    dropBeforeClose (unlines ls) = unlines ls ∧ dropLoose false (unlines ls) = unlines bodies ∧
      closesNext (unlines ls) = false := by
  induction h with
  | nil => exact ⟨rfl, rfl, rfl⟩
  | @cons body line bodies ls hends h ih =>
    rw [List.forall_mem_cons] at hbodies
    cases h with
    | nil =>
      have hlast := hbodies.1.ended hends (r := []) rfl
      simpa [unlines, join, dropBeforeClose, dropLoose] using hlast
    | @cons body' line' bodies ls hends' h' =>
      obtain ⟨hbefore, hloose, hnext⟩ := ih hbodies.2
      have hfeed : dropLoose false ('\n' :: unlines (line' :: ls)) =
          '\n' :: unlines (body' :: bodies) := by
        rw [← hloose]
        rfl
      have hfeed' : dropBeforeClose ('\n' :: unlines (line' :: ls)) =
          '\n' :: unlines (line' :: ls) := by
        rw [dropBeforeClose_cons (head?_trimStart hnext), hbefore]
      obtain ⟨hbefore', hloose', hnext'⟩ := hbodies.1.ended hends
        (r := '\n' :: unlines (line' :: ls)) hnext
      rw [hfeed'] at hbefore'
      rw [hfeed] at hloose'
      have hline (l l' : Text) (ls : List Text) :
          unlines (l :: l' :: ls) = l ++ '\n' :: unlines (l' :: ls) := by
        simp [unlines, join]
      rw [hline, hline]
      exact ⟨hbefore', hloose', hnext'⟩

/-- **Of kept lines, the passes leave what they end.** -/
theorem dropAll_kept {bodies : List Text} (hbodies : ∀ l ∈ bodies, IsKept l)
    (h : List.Forall₂ Ends bodies ls) :
    dropAfterClose false (dropLoose false (dropBeforeClose (unlines ls))) = unlines bodies := by
  obtain ⟨hbefore, hloose, -⟩ := dropLoose_unlines hbodies h
  rw [hbefore, hloose, dropAfterClose_unlines fun l hl => (hbodies l hl).mark,
    List.map_congr_left fun l hl => (hbodies l hl).afterClose, List.map_id']

/-! ## Braces of plain lines -/

open Balance in
theorem scanLine_append {number column : Nat} {opened : List Place} (h : IsUndashed (w ++ r))
    (hquote : '"' ∉ w) (hopen : '{' ∉ w) (hclose : '}' ∉ w) :
    scanLine ['-', '-'] number column false opened (w ++ r) =
      scanLine ['-', '-'] number (column + w.length) false opened r := by
  induction w generalizing column with
  | nil => rfl
  | cons c w ih =>
    rw [List.mem_cons, not_or] at hquote hopen hclose
    rw [List.cons_append] at h ⊢
    conv_lhs => unfold scanLine
    rw [isCommentAt_of_isUndashed h, if_neg (by decide), if_neg (Ne.symm hquote.1),
      if_neg (by decide), if_neg (Ne.symm hopen.1), if_neg (Ne.symm hclose.1),
      ih h.tail hquote.2 hopen.2 hclose.2, List.length_cons]
    congr 1
    omega

open Balance in
theorem scanLine_of_not_mem {number column : Nat} {opened : List Place} (h : IsUndashed t)
    (hquote : '"' ∉ t) (hopen : '{' ∉ t) (hclose : '}' ∉ t) :
    scanLine ['-', '-'] number column false opened t = .ok opened := by
  rw [← List.append_nil t] at h ⊢
  rw [scanLine_append h hquote hopen hclose]
  rfl

end GameScript.Lua
