import GameScript.Proofs.Reader.Lua

/-!
# Comment lines in Lua

A line that holds nothing but a comment is no line of the script that a Lua file is cleaned to
(`cleanLines_comment`). Yet two things are read off the lines with their comments: whether the file
nests tables, and which closing brace is the last. What a comment line does to the result is told by
`clean_insert`: it goes wrong where the comment has the first equals sign of the file, or a closing
brace below all others. So just those comments that have neither are safe in every place of every
file (`clean_comment_iff`).
-/

namespace GameScript.Lua

open Text

variable {t u c : Text} {xs ys ls : List Text} {file : Text} {s : ScriptSettings} {f : SourceFile}

/-- A line that holds a comment and nothing else. -/
def IsCommentLine (c : Text) : Prop :=
  '\n' ∉ c ∧ ∃ blanks body, isBlank blanks = true ∧ c = blanks ++ '-' :: '-' :: body

/-! ## What is kept of lines -/

theorem cleanLines_append :
    s.cleanLines file (xs ++ ys) = s.cleanLines file xs ++ s.cleanLines file ys := by
  rw [ScriptSettings.cleanLines, List.map_append, List.filter_append]
  rfl

theorem isCommentAt_return :
    Lexer.isCommentAt ['-', '-'] (t ++ ['\r']) = Lexer.isCommentAt ['-', '-'] t :=
  isCommentAt_append (by simp)

theorem trimEnd_beforeComment_return (quoted : Bool) :
    trimEnd (beforeComment ['-', '-'] quoted (t ++ ['\r'])) =
      trimEnd (beforeComment ['-', '-'] quoted t) := by
  have hcases : beforeComment ['-', '-'] quoted (t ++ ['\r']) = beforeComment ['-', '-'] quoted t ∨
      beforeComment ['-', '-'] quoted (t ++ ['\r']) =
        beforeComment ['-', '-'] quoted t ++ ['\r'] := by
    induction t generalizing quoted with
    | nil => cases quoted <;> exact .inr rfl
    | cons c t ih =>
      have hcomment : Lexer.isCommentAt ['-', '-'] (c :: (t ++ ['\r'])) =
          Lexer.isCommentAt ['-', '-'] (c :: t) := isCommentAt_return (t := c :: t)
      rw [List.cons_append, beforeComment, beforeComment, hcomment]
      split
      · exact (ih (!quoted)).imp (congrArg (c :: ·)) (congrArg (c :: ·))
      split
      · exact .inl rfl
      · exact (ih quoted).imp (congrArg (c :: ·)) (congrArg (c :: ·))
  rcases hcases with h | h
  · rw [h]
  · rw [h, trimEnd_append_blank (by decide)]

def endLines (ls : List Text) : Text := ls.flatMap (· ++ ['\n'])

theorem endLines_append : endLines (xs ++ ys) = endLines xs ++ endLines ys := List.flatMap_append

theorem endLines_cons : endLines (t :: ls) = t ++ '\n' :: endLines ls := by simp [endLines]

def keptLines (t : Text) : List Text :=
  (((splitOn '\n' t).map fun l => trimEnd (beforeComment ['-', '-'] false l))).filter (!isBlank ·)

/-- It does not matter how lines end. -/
theorem cleanLines_lines (hs : s.marker file = ['-', '-']) :
    s.cleanLines file (lines t) = keptLines t := by
  have hreturn (l : Text) : trimEnd (beforeComment ['-', '-'] false (dropReturn l)) =
      trimEnd (beforeComment ['-', '-'] false l) := by
    rw [dropReturn]
    split
    · next h =>
      obtain ⟨u, rfl⟩ := List.getLast?_eq_some_iff.1 h
      rw [List.dropLast_concat, trimEnd_beforeComment_return]
    · rfl
  rw [ScriptSettings.cleanLines, hs, keptLines, lines]
  generalize splitOn '\n' t = ps
  fun_induction closeLines ps with
  | case1 => rfl
  | case2 => rfl
  | case3 => rfl
  | case4 l ls _ ih => rw [List.map_cons, List.map_cons, hreturn, List.filter_cons,
      List.filter_cons, ih]

theorem keptLines_append_cons : keptLines (t ++ '\n' :: u) = keptLines t ++ keptLines u := by
  rw [keptLines, splitOn_append_cons, List.map_append, List.filter_append]
  rfl

theorem keptLines_endLines_append :
    keptLines (endLines ls ++ t) = keptLines (endLines ls) ++ keptLines t := by
  induction ls with
  | nil => rfl
  | cons l ls ih =>
    rw [endLines_cons, List.append_assoc, List.cons_append, keptLines_append_cons,
      keptLines_append_cons, ih, List.append_assoc]

/-! ## Comment lines -/

/-- Of a comment line there is nothing but blanks in front of the comment. -/
theorem IsCommentLine.isBlank (hc : IsCommentLine c) :
    isBlank (trimEnd (beforeComment ['-', '-'] false c)) = true := by
  obtain ⟨-, blanks, body, hblanks, rfl⟩ := hc
  have hfront : beforeComment ['-', '-'] false (blanks ++ '-' :: '-' :: body) = blanks := by
    induction blanks with
    | nil => rfl
    | cons c blanks ih =>
      rw [isBlank_cons, Bool.and_eq_true] at hblanks
      have hmark {d : Char} (hd : isBlankChar d = false) : c ≠ d := by
        rintro rfl
        exact Bool.false_ne_true (hd.symm.trans hblanks.1)
      have hcomment (t : Text) : Lexer.isCommentAt ['-', '-'] (c :: t) = false := by
        simp [Lexer.isCommentAt, List.isPrefixOf, (hmark (d := '-') (by decide)).symm]
      rw [List.cons_append, beforeComment, if_neg (hmark (by decide)), hcomment, ih hblanks.2]
      rfl
  rw [hfront]
  refine List.all_eq_true.2 fun c hmem => List.all_eq_true.1 hblanks c ?_
  exact List.mem_reverse.1 ((List.dropWhile_sublist _).mem (List.mem_reverse.1 hmem))

theorem IsCommentLine.keptLines_eq (hc : IsCommentLine c) : keptLines c = [] := by
  have hsplit : splitOn '\n' (c ++ []) = [c ++ []] := splitOn_append hc.1 rfl
  rw [List.append_nil] at hsplit
  rw [keptLines, hsplit, List.map_singleton, List.filter_cons_of_neg (by simp [hc.isBlank])]
  rfl

/-- A comment line is none of the lines of the script. -/
theorem IsCommentLine.cleanLines_insert (hs : s.marker file = ['-', '-']) (hc : IsCommentLine c) :
    s.cleanLines file (xs ++ c :: ys) = s.cleanLines file (xs ++ ys) := by
  have hcomment : s.cleanLines file [c] = [] := by
    rw [ScriptSettings.cleanLines, hs, List.map_singleton,
      List.filter_cons_of_neg (by simp [hc.isBlank])]
    rfl
  rw [← List.singleton_append, cleanLines_append, cleanLines_append, hcomment, List.nil_append,
    cleanLines_append]

/-! ## The last closing brace -/

theorem throughLastBrace_append_of_not_mem (h : '}' ∉ u) :
    throughLastBrace (t ++ u) = throughLastBrace t := by
  rw [throughLastBrace, throughLastBrace, splitLast_append_of_not_mem h]
  cases splitLast '}' t <;> rfl

theorem throughLastBrace_append (h : '}' ∈ u) :
    throughLastBrace (t ++ u) = t ++ throughLastBrace u := by
  obtain ⟨w, r, rfl, hr⟩ := exists_last_of_mem h
  rw [← List.append_assoc, throughLastBrace, splitLast_append hr, throughLastBrace,
    splitLast_append hr]
  simp

theorem throughLastBrace_isPrefix : throughLastBrace t <+: t := by
  by_cases h : '}' ∈ t
  · obtain ⟨w, r, rfl, hr⟩ := exists_last_of_mem h
    rw [throughLastBrace, splitLast_append hr]
    exact ⟨r, by simp⟩
  · rw [throughLastBrace, splitLast_of_not_mem h]
    exact List.nil_prefix

/-- The brace in a comment line is in the comment. -/
theorem IsCommentLine.cut (hc : IsCommentLine c) (hclose : '}' ∈ c) :
    IsCommentLine (throughLastBrace c) := by
  refine ⟨fun hmem => hc.1 (throughLastBrace_isPrefix.mem hmem), ?_⟩
  obtain ⟨-, blanks, body, hblanks, rfl⟩ := hc
  have hfront : '}' ∉ blanks := not_mem_of_all (List.all_eq_true.1 hblanks) (by decide)
  have hbody : '}' ∈ body := by simpa [hfront] using hclose
  refine ⟨blanks, throughLastBrace body, hblanks, ?_⟩
  have hmarker : blanks ++ '-' :: '-' :: body = (blanks ++ ['-', '-']) ++ body := by simp
  rw [hmarker, throughLastBrace_append hbody, List.append_assoc]
  rfl

theorem throughLastBrace_unlines_eq :
    throughLastBrace (unlines ls) = throughLastBrace (endLines ls) := by
  by_cases hne : ls = []
  · rw [hne]
    rfl
  have hend : endLines ls = unlines ls ++ ['\n'] := by
    induction ls with
    | nil => exact absurd rfl hne
    | cons l ls ih =>
      cases ls with
      | nil => rw [endLines_cons]; rfl
      | cons l' ls =>
        rw [endLines_cons, ih (List.cons_ne_nil _ _), unlines, unlines,
          join_cons (List.cons_ne_nil _ _)]
        simp
  rw [hend, throughLastBrace_append_of_not_mem (by decide)]

theorem mem_endLines {d : Char} (hd : d ≠ '\n') : d ∈ endLines ls ↔ ∃ l ∈ ls, d ∈ l := by
  simp [endLines, hd]

/-- What is kept of the lines through the last closing brace, with one comment line more. -/
theorem IsCommentLine.keptLines_insert (hc : IsCommentLine c) :
    keptLines (throughLastBrace (endLines (xs ++ c :: ys))) =
      if '}' ∈ c ∧ '}' ∉ endLines ys then keptLines (endLines xs)
      else keptLines (throughLastBrace (endLines (xs ++ ys))) := by
  rw [endLines_append, endLines_append, endLines_cons]
  by_cases hbelow : '}' ∈ endLines ys
  · rw [if_neg (by simp [hbelow]), throughLastBrace_append (by simp [hbelow]),
      throughLastBrace_append hbelow, ← List.singleton_append (l := endLines ys),
      ← List.append_assoc c, throughLastBrace_append hbelow, List.append_assoc,
      List.singleton_append, keptLines_endLines_append, keptLines_endLines_append,
      keptLines_append_cons, hc.keptLines_eq, List.nil_append]
  have hnext : '}' ∉ '\n' :: endLines ys :=
    List.not_mem_cons_of_ne_of_not_mem (by decide) hbelow
  by_cases hclose : '}' ∈ c
  · rw [if_pos ⟨hclose, hbelow⟩, ← List.append_assoc, throughLastBrace_append_of_not_mem hnext,
      throughLastBrace_append hclose, keptLines_endLines_append,
      (hc.cut hclose).keptLines_eq, List.append_nil]
  · rw [if_neg (by simp [hclose]), throughLastBrace_append_of_not_mem hbelow,
      throughLastBrace_append_of_not_mem]
    exact fun hmem => (List.mem_append.1 hmem).elim hclose hnext

/-! ## Nesting -/

theorem isNested_append_of_mem (h : ∃ l ∈ xs, '=' ∈ l) : isNested (xs ++ ys) = isNested xs := by
  obtain ⟨l, hl, hmem⟩ := h
  have hfound : (xs.find? (·.contains '=')).isSome := by
    rw [List.find?_isSome]
    exact ⟨l, hl, by simpa using hmem⟩
  obtain ⟨l', hl'⟩ := Option.isSome_iff_exists.1 hfound
  rw [isNested, isNested, List.find?_append, hl']
  rfl

theorem isNested_append_of_not_mem (h : ∀ l ∈ xs, '=' ∉ l) :
    isNested (xs ++ ys) = isNested ys := by
  have hnone : xs.find? (·.contains '=') = none :=
    List.find?_eq_none.2 fun l hl => by simpa using h l hl
  rw [isNested, List.find?_append, hnone, Option.none_or, isNested]

/-- A comment with an equals sign is taken for an assignment. -/
theorem IsCommentLine.isNested_cons (hc : IsCommentLine c) (h : '=' ∈ c) :
    isNested (c :: ys) = !(c.takeWhile (· ≠ '=')).contains '.' := by
  obtain ⟨w, r, rfl, hw⟩ := List.eq_append_cons_of_mem h
  have hne : w ≠ [] := by
    rintro rfl
    obtain ⟨-, blanks, body, hblanks, heq⟩ := hc
    cases blanks with
    | nil => cases heq
    | cons d blanks =>
      obtain ⟨rfl, -⟩ := List.cons.inj heq
      exact absurd (List.all_eq_true.1 hblanks '=' List.mem_cons_self) (by decide)
  rw [Lua.isNested_cons hne hw, takeWhile_append hw]

/-! ## What a comment line does -/

def rewritten (nested : Bool) (ls : List Text) : List Text :=
  let cleaned := lines (dropAfterClose false (dropLoose false (dropBeforeClose (unlines ls))))
  if nested then dropEntryEnds 0 0 cleaned else cleaned

theorem clean_eq (hs : s.marker f.path = ['-', '-']) :
    clean s f = rewritten (isNested f.lines)
      (if isNested f.lines then keptLines (throughLastBrace (endLines f.lines))
        else s.cleanLines f.path f.lines) := by
  rw [clean, SourceFile.text, throughLastBrace_unlines_eq]
  cases isNested f.lines with
  | true =>
    rw [if_pos rfl, if_pos rfl, cleanLines_lines hs]
    rfl
  | false => rfl

/-- **What a comment line does**: it can change whether tables are nested, and then how far they
go. -/
theorem clean_insert (hs : s.marker f.path = ['-', '-']) (hc : IsCommentLine c) :
    clean s { f with lines := xs ++ c :: ys } = rewritten (isNested (xs ++ c :: ys))
      (if isNested (xs ++ c :: ys) then
        if '}' ∈ c ∧ '}' ∉ endLines ys then keptLines (endLines xs)
        else keptLines (throughLastBrace (endLines (xs ++ ys)))
      else s.cleanLines f.path (xs ++ ys)) := by
  rw [clean_eq (f := { f with lines := xs ++ c :: ys }) hs, hc.keptLines_insert,
    hc.cleanLines_insert hs]

/-- The condition under which a comment line is not misread. -/
theorem clean_insert_of_harmless (hs : s.marker f.path = ['-', '-']) (hc : IsCommentLine c)
    (hlines : f.lines = xs ++ ys)
    (hequals : '=' ∈ c → (∀ l ∈ xs, '=' ∉ l) → isNested (c :: ys) = isNested ys)
    (hclose : '}' ∈ c → isNested f.lines = true → ∃ l ∈ ys, '}' ∈ l) :
    clean s { f with lines := xs ++ c :: ys } = clean s f := by
  have hnested : isNested (xs ++ c :: ys) = isNested f.lines := by
    rw [hlines]
    by_cases habove : ∃ l ∈ xs, '=' ∈ l
    · rw [isNested_append_of_mem habove, isNested_append_of_mem habove]
    have hnone : ∀ l ∈ xs, '=' ∉ l := fun l hl hmem => habove ⟨l, hl, hmem⟩
    rw [isNested_append_of_not_mem hnone, isNested_append_of_not_mem hnone]
    by_cases hmem : '=' ∈ c
    · exact hequals hmem hnone
    · have hnone : ∀ l ∈ [c], '=' ∉ l := by simpa using hmem
      exact isNested_append_of_not_mem hnone
  rw [clean_insert hs hc, clean_eq hs, hnested, hlines]
  rw [hlines] at hclose
  cases hcase : isNested (xs ++ ys) with
  | false => rfl
  | true =>
    have hbelow : ¬ ('}' ∈ c ∧ '}' ∉ endLines ys) := fun h =>
      h.2 ((mem_endLines (by decide)).2 (hclose h.1 hcase))
    rw [if_pos rfl, if_pos rfl, if_neg hbelow]

def loneTable : SourceFile := { path := "common/defines/a.lua", lines := ["A = \x7b\x7d", "x"] }

def loneConstant : SourceFile := { path := "common/defines/a.lua", lines := ["A.B = 1"] }

theorem not_mem_of_harmless (hc : IsCommentLine c)
    (h : ∀ (f : SourceFile) (xs ys : List Text), isLua f.path = true → f.lines = xs ++ ys →
      clean {} { f with lines := xs ++ c :: ys } = clean {} f) : '=' ∉ c ∧ '}' ∉ c := by
  have hmarker : ({} : ScriptSettings).marker "common/defines/a.lua" = ['-', '-'] :=
    marker_of_isLua (by decide)
  constructor
  · intro hmem
    cases hdot : (c.takeWhile (· ≠ '=')).contains '.' with
    | true =>
      -- nested tables are taken for dotted names, and what is below them is kept
      have hnested : isNested (c :: loneTable.lines) = false := by
        rw [hc.isNested_cons hmem, hdot]
        rfl
      have hsame := (clean_insert (f := loneTable) hmarker hc).symm.trans
        (h loneTable [] loneTable.lines (by decide) rfl)
      rw [List.nil_append, hnested, if_neg Bool.false_ne_true] at hsame
      exact absurd hsame (by decide +kernel)
    | false =>
      -- dotted names are taken for tables, of which none is closed
      have hnested : isNested (c :: loneConstant.lines) = true := by
        rw [hc.isNested_cons hmem, hdot]
        rfl
      have hsame := (clean_insert (f := loneConstant) hmarker hc).symm.trans
        (h loneConstant [] loneConstant.lines (by decide) rfl)
      rw [List.nil_append, hnested, if_pos rfl] at hsame
      split at hsame <;> exact absurd hsame (by decide +kernel)
  · intro hmem
    have hsame := (clean_insert (f := loneTable) hmarker hc).symm.trans
      (h loneTable loneTable.lines [] (by decide) (List.append_nil _).symm)
    have hnested : isNested (loneTable.lines ++ [c]) = true :=
      isNested_append_of_mem (show ∃ l ∈ loneTable.lines, '=' ∈ l by decide)
    rw [hnested, if_pos rfl, if_pos ⟨hmem, by decide⟩] at hsame
    exact absurd hsame (by decide +kernel)

/-- **Which comment lines are safe.** In every place of every Lua file the script stays as it is
without a comment line just when the comment has neither an equals sign nor a closing brace. With
them it still does where another line above has an equals sign, or the comment tells the same of
nesting as the lines below; and, when tables are nested, where a closing brace is below. -/
theorem clean_comment_iff (hc : IsCommentLine c) :
    ((∀ (f : SourceFile) (xs ys : List Text), isLua f.path = true → f.lines = xs ++ ys →
        clean {} { f with lines := xs ++ c :: ys } = clean {} f) ↔ '=' ∉ c ∧ '}' ∉ c) ∧
    ∀ (f : SourceFile) (xs ys : List Text), isLua f.path = true → f.lines = xs ++ ys →
      ('=' ∈ c → (∀ l ∈ xs, '=' ∉ l) → isNested (c :: ys) = isNested ys) →
      ('}' ∈ c → isNested f.lines = true → ∃ l ∈ ys, '}' ∈ l) →
      clean {} { f with lines := xs ++ c :: ys } = clean {} f := by
  refine ⟨⟨not_mem_of_harmless hc, ?_⟩, ?_⟩
  · rintro ⟨hequals, hclose⟩ f xs ys hfile hlines
    exact clean_insert_of_harmless (marker_of_isLua hfile) hc hlines (absurd · hequals)
      (absurd · hclose)
  · intro f xs ys hfile hlines
    exact clean_insert_of_harmless (marker_of_isLua hfile) hc hlines

/-- A comment that mentions a dotted name and braces, set between nested tables. -/
theorem clean_comment_between :
    IsCommentLine "\t-- NShip.SPEED = \x7b\x7d" ∧
      clean {} { path := "common/defines/a.lua"
                 lines := ["NDefines = \x7b", "\t-- NShip.SPEED = \x7b\x7d", "NGame = \x7b",
                   "X = 1,", "\x7d,", "\x7d", "return NDefines"] } =
        (["NDefines = \x7b", "NGame = \x7b", "X = 1", "\x7d", "\x7d"] : List Text) := by
  have hc : IsCommentLine "\t-- NShip.SPEED = \x7b\x7d" := ⟨by decide, ['\t'], _, by decide, rfl⟩
  refine ⟨hc, ?_⟩
  have hsame := (clean_comment_iff hc).2
    { path := "common/defines/a.lua"
      lines := ["NDefines = \x7b", "NGame = \x7b", "X = 1,", "\x7d,", "\x7d", "return NDefines"] }
    ["NDefines = \x7b"] ["NGame = \x7b", "X = 1,", "\x7d,", "\x7d", "return NDefines"]
    (by decide) rfl (fun _ h => absurd (h _ List.mem_cons_self) (by decide)) (fun _ _ => by decide)
  refine hsame.trans ?_
  decide +kernel

/-- With an equals sign on top of a file, or a closing brace below it, a comment line does change
the script, though no line has a quote. -/
theorem clean_comment_not :
    (∃ (c : Text) (f : SourceFile), IsCommentLine c ∧ isLua f.path = true ∧
      (∀ l ∈ f.lines, '"' ∉ l) ∧ clean {} { f with lines := c :: f.lines } ≠ clean {} f) ∧
    ∃ (c : Text) (f : SourceFile), IsCommentLine c ∧ isLua f.path = true ∧
      (∀ l ∈ f.lines, '"' ∉ l) ∧ clean {} { f with lines := f.lines ++ [c] } ≠ clean {} f :=
  ⟨⟨"-- a.b = 1", loneTable, ⟨by decide, [], _, rfl, rfl⟩, by decide, by decide,
      by decide +kernel⟩,
    "-- \x7d", loneTable, ⟨by decide, [], _, rfl, rfl⟩, by decide, by decide, by decide +kernel⟩

end GameScript.Lua
