import GameScript.Proofs.Reader.Complaints

/-!
# Which locale is in effect

The path of a localization file has a locale when its name ends in one, or when it lies in the
folder of one (`localeOfFile_eq_none_iff`). Then the headers of the file count for nothing, and else
each key has the locale of the last header above it. So the headers decide just at those paths that
have no locale in this sense (`headers_decide_iff`). In the name of a file a locale may also end a
longer word, which does not name it (`headers_ignored`).
-/

namespace GameScript

open Text GameScript.Localization

namespace Localization

variable {affix t u path l raw : Text} {ts lines : List Text} {c : Char}

/-! ## The locale of a path -/

theorem isSome_stripEnd? : (stripEnd? affix t).isSome = true ↔ affix <:+ t := by
  rw [stripEnd?, Option.isSome_map, List.isSome_isPrefixOf?_eq_isPrefixOf,
    List.isPrefixOf_iff_prefix, List.reverse_prefix]

theorem longest?_eq_none : longest? ts = none ↔ ts = [] := by
  cases ts with
  | nil => exact iff_of_true rfl rfl
  | cons t ts =>
    refine iff_of_false (fun h => ?_) (List.cons_ne_nil _ _)
    rw [longest?] at h
    split at h
    · split at h <;> cases h
    · cases h

/-- What has no separator in it ends a text just when it ends the last part. -/
theorem isSuffix_append_cons (h : c ∉ affix) : affix <:+ t ++ c :: u ↔ affix <:+ u := by
  have hu : u <:+ t ++ c :: u := ⟨t ++ [c], by simp⟩
  refine ⟨fun haffix => ?_, fun haffix => haffix.trans hu⟩
  rcases List.suffix_or_suffix_of_suffix haffix hu with hshort | ⟨w, rfl⟩
  · exact hshort
  cases w using List.reverseRecOn with
  | nil => exact List.suffix_refl _
  | append_singleton w d =>
    -- the character in front of the last part is the separator
    obtain ⟨v, hv⟩ := haffix
    have hends : (v ++ w) ++ [d] = t ++ [c] := by
      have hcut : ((v ++ w) ++ [d]) ++ u = (t ++ [c]) ++ u := by simpa using hv
      exact List.append_cancel_right hcut
    obtain ⟨-, hd⟩ := List.append_inj' hends rfl
    obtain rfl := List.singleton_inj.1 hd
    simp at h

theorem segments_lower_normalize (path : Text) :
    Path.segments (lower (Path.normalize path)) =
      (Path.segments path).dropLast.map lower ++ [lower (Path.fileName path)] := by
  rw [Path.segments_lower, Path.segments, Path.normalize_normalize, ← Path.segments,
    ← List.map_singleton, ← List.map_append, Path.dropLast_segments]

theorem isSuffix_lower_normalize (h : '/' ∉ affix) :
    affix <:+ lower (Path.normalize path) ↔ affix <:+ lower (Path.fileName path) := by
  have hpath : join ['/'] (Path.segments (lower (Path.normalize path))) =
      lower (Path.normalize path) := by
    rw [Path.segments, Path.normalize_lower_iff.2 (Path.normalize_normalize path), join_splitOn]
  rw [← hpath, segments_lower_normalize]
  by_cases hnames : (Path.segments path).dropLast.map lower = []
  · rw [hnames]
    rfl
  · rw [join_append_join hnames (List.cons_ne_nil _ _), List.append_assoc, List.singleton_append,
      isSuffix_append_cons h]
    rfl

theorem mem_splitOn_directory (hne : t ≠ []) :
    t ∈ splitOn '/' (Path.directory (lower (Path.normalize path))) ↔
      ∃ p ∈ (Path.segments path).dropLast, lower p = t := by
  rw [Path.directory, segments_lower_normalize, List.dropLast_concat]
  by_cases hnames : (Path.segments path).dropLast.map lower = []
  · rw [hnames, List.map_eq_nil_iff.1 hnames]
    refine iff_of_false (fun hmem => hne (List.mem_singleton.1 hmem)) ?_
    rintro ⟨p, ⟨⟩, -⟩
  · rw [splitOn_join hnames, List.mem_map]
    intro p hp
    obtain ⟨q, hq, rfl⟩ := List.mem_map.1 hp
    rw [divides_slash.mem_lower]
    exact not_mem_of_mem_splitOn ((List.dropLast_sublist _).subset hq)

/-- No locale is in a path when none ends its name and none has a folder in it. -/
theorem localeOfFile_eq_none_iff : localeOfFile (Path.normalize path) = none ↔
    (∀ l ∈ locales, ¬ (l ++ ".yml" : Text) <:+ lower (Path.fileName path)) ∧
      ∀ p ∈ (Path.segments path).dropLast, ∀ l ∈ locales, lower p ≠ folder l := by
  have hslash : ∀ l ∈ locales, '/' ∉ (l ++ ".yml" : Text) := by decide
  have hnamed : ∀ l ∈ locales, folder l ≠ [] := by decide
  have hsuffix (l : Text) (hl : l ∈ locales) :
      (stripEnd? (l ++ ".yml") (lower (Path.normalize path))).isSome = true ↔
        (l ++ ".yml" : Text) <:+ lower (Path.fileName path) :=
    isSome_stripEnd?.trans (isSuffix_lower_normalize (hslash l hl))
  have hfolder (l : Text) (hl : l ∈ locales) :
      (splitOn '/' (Path.directory (lower (Path.normalize path)))).contains (folder l) = true ↔
        ∃ p ∈ (Path.segments path).dropLast, lower p = folder l :=
    List.contains_iff_mem.trans (mem_splitOn_directory (hnamed l hl))
  rw [localeOfFile]
  constructor
  · intro hnone
    split at hnone
    · cases hnone
    · next hlongest =>
      refine ⟨fun l hl hend => ?_, fun p hp l hl heq => ?_⟩
      · rw [longest?_eq_none, List.filter_eq_nil_iff] at hlongest
        exact hlongest l hl ((hsuffix l hl).2 hend)
      · exact List.find?_eq_none.1 hnone l hl ((hfolder l hl).2 ⟨p, hp, heq⟩)
  · rintro ⟨hends, hfolders⟩
    rw [longest?_eq_none.2 (List.filter_eq_nil_iff.2 fun l hl hend =>
      hends l hl ((hsuffix l hl).1 hend))]
    refine List.find?_eq_none.2 fun l hl hin => ?_
    obtain ⟨p, hp, heq⟩ := (hfolder l hl).1 hin
    exact hfolders p hp l hl heq

/-! ## The header above a key -/

def headerAbove (lines : List Text) : Option Text :=
  ((lines.map bareLine).filterMap localeOfHeader).getLast?

theorem headerAbove_eq_none : headerAbove lines = none ↔
    ∀ raw ∈ lines, localeOfHeader (bareLine raw) = none := by
  rw [headerAbove, List.getLast?_eq_none_iff, List.filterMap_eq_nil_iff, List.forall_mem_map]

theorem keyLines_concat : keyLines (lines ++ [raw]) = keyLines lines ++
    if (headerAbove lines).isSome && isKeyLine (bareLine raw) then [bareLine raw] else [] := by
  unfold keyLines
  rw [List.map_append, List.map_singleton, List.dropWhile_append]
  cases hheader : headerAbove lines with
  | none =>
    have hnone :
        (lines.map bareLine).dropWhile (fun line => (localeOfHeader line).isNone) = [] := by
      rw [List.dropWhile_eq_nil_iff, List.forall_mem_map]
      exact fun line hline => Option.isNone_iff_eq_none.2 (headerAbove_eq_none.1 hheader line hline)
    rw [hnone]
    cases hraw : localeOfHeader (bareLine raw) with
    | none => simp [hraw]
    | some l => simp [hraw, isKeyLine]
  | some l =>
    have hsome :
        (lines.map bareLine).dropWhile (fun line => (localeOfHeader line).isNone) ≠ [] := by
      intro hnone
      rw [List.dropWhile_eq_nil_iff, List.forall_mem_map] at hnone
      rw [headerAbove_eq_none.2 fun line hline => Option.isNone_iff_eq_none.1 (hnone line hline)]
        at hheader
      cases hheader
    rw [if_neg (by simpa using hsome), List.filter_append, List.filter_singleton,
      Option.isSome_some, Bool.true_and]
    cases isKeyLine (bareLine raw) <;> rfl

/-- Each key line stands below a header. -/
theorem exists_of_keyLines {i : Nat} (h : i < (keyLines lines).length) :
    ∃ before raw after l, lines = before ++ raw :: after ∧ isKeyLine (bareLine raw) = true ∧
      (keyLines before).length = i ∧ headerAbove before = some l := by
  induction lines using List.reverseRecOn with
  | nil => cases h
  | append_singleton lines raw ih =>
    rcases Nat.lt_or_ge i (keyLines lines).length with hlt | hge
    · obtain ⟨before, raw', after, l, rfl, hfound⟩ := ih hlt
      exact ⟨before, raw', after ++ [raw], l, by simp, hfound⟩
    · rw [keyLines_concat] at h
      cases hkey : (headerAbove lines).isSome && isKeyLine (bareLine raw) with
      | false =>
        rw [hkey, if_neg Bool.false_ne_true, List.append_nil] at h
        exact absurd h (Nat.not_lt.2 hge)
      | true =>
        rw [hkey, if_pos rfl, List.length_append, List.length_singleton] at h
        obtain ⟨habove, hline⟩ := Bool.and_eq_true_iff.1 hkey
        obtain ⟨l, hl⟩ := Option.isSome_iff_exists.1 habove
        exact ⟨lines, raw, [], l, rfl, hline, Nat.le_antisymm hge (Nat.le_of_lt_succ h), hl⟩

end Localization

namespace SourceFile

variable {f : SourceFile} {path : Text}

/-- The locale of the path is in effect below a header, if there is one. -/
theorem localeBelow_of_headerAbove {lines : List Text} {l : Text} (h : headerAbove lines = some l) :
    f.localeBelow lines = some ((localeOfFile f.path).getD l) :=
  congrArg (Option.map _) h

/-- Whether each definition of a file has the locale of the last header above its line. -/
def FollowsHeaders (f : SourceFile) : Prop :=
  ∀ (i : Nat) (d : Definition), f.readLocalization[i]? = some d →
    ∃ before raw after l, f.lines = before ++ raw :: after ∧ isKeyLine (bareLine raw) = true ∧
      (keyLines before).length = i ∧ headerAbove before = some l ∧ d.codeTag = some l

theorem codeTag_at {before after : List Text} {raw l : Text} {d : Definition}
    (hgood : ∀ line ∈ keyLines f.lines, isMalformed line = false)
    (hlines : f.lines = before ++ raw :: after) (hkey : isKeyLine (bareLine raw) = true)
    (hl : headerAbove before = some l)
    (hd : f.readLocalization[(keyLines before).length]? = some d) :
    d.codeTag = some ((localeOfFile f.path).getD l) := by
  obtain ⟨d', hd', -, -, -, htag⟩ :=
    f.readLocalization_at hgood hlines hkey (f.localeBelow_of_headerAbove hl)
  obtain rfl := Option.some.inj (hd.symm.trans hd')
  exact htag

/-- Without a locale in the path, the headers decide. -/
theorem followsHeaders (hgood : ∀ line ∈ keyLines f.lines, isMalformed line = false)
    (hpath : localeOfFile f.path = none) : f.FollowsHeaders := by
  intro i d hd
  obtain ⟨hi, -⟩ := List.getElem?_eq_some_iff.1 hd
  rw [(f.readLocalization_good hgood).1] at hi
  obtain ⟨before, raw, after, l, hlines, hkey, rfl, hl⟩ := exists_of_keyLines hi
  have htag := f.codeTag_at hgood hlines hkey hl hd
  rw [hpath] at htag
  exact ⟨before, raw, after, l, hlines, hkey, rfl, hl, htag⟩

def oneKey (path header : Text) : SourceFile := { path := path, lines := [header ++ ":", "k:"] }

theorem oneKey_good : ∀ l ∈ (["l_english", "l_french"] : List Text),
    ∀ line ∈ keyLines (oneKey path l).lines, isMalformed line = false := by
  dsimp only [oneKey]
  decide +kernel

/-- With a locale in the path, a header of another one is not followed. -/
theorem not_followsHeaders {l header : Text} (hpath : localeOfFile path = some l)
    (hheader : header ∈ (["l_english", "l_french"] : List Text)) (hne : header ≠ l) :
    ¬ (oneKey path header).FollowsHeaders := by
  have hall : ∀ header ∈ (["l_english", "l_french"] : List Text),
      isKeyLine (bareLine "k:") = true ∧ headerAbove [header ++ ":"] = some header ∧
        ([header ++ ":", "k:"] : List Text).filterMap (localeOfHeader ∘ bareLine) = [header] := by
    decide +kernel
  obtain ⟨hkey, habove, hheaders⟩ := hall header hheader
  intro hfollows
  obtain ⟨d, hd, -, -, -, htag⟩ := readLocalization_at (oneKey_good header hheader)
    (show (oneKey path header).lines = [header ++ ":"] ++ ("k:" : Text) :: [] from rfl) hkey
    (localeBelow_of_headerAbove habove)
  have hpath : localeOfFile (oneKey path header).path = some l := hpath
  rw [hpath, Option.getD_some] at htag
  obtain ⟨before, raw, after, l', hlines, -, -, hl', htag'⟩ := hfollows _ d hd
  obtain rfl := Option.some.inj (htag.symm.trans htag')
  -- the locale would be that of a header of the file
  have hmem : l ∈ ((oneKey path header).lines.map bareLine).filterMap localeOfHeader := by
    rw [hlines, List.map_append, List.filterMap_append]
    exact List.mem_append_left _ (List.mem_of_getLast? hl')
  rw [oneKey, List.filterMap_map, hheaders] at hmem
  exact hne (List.mem_singleton.1 hmem).symm

end SourceFile

/-- **The path or the headers**: the headers decide in all files at a path just when its name ends
in no locale and none of its folders is that of one. -/
theorem headers_decide_iff (path : Text) :
    (∀ f : SourceFile, f.path = Path.normalize path →
      (∀ line ∈ keyLines f.lines, isMalformed line = false) → f.FollowsHeaders) ↔
    (∀ l ∈ locales, ¬ (l ++ ".yml" : Text) <:+ lower (Path.fileName path)) ∧
      ∀ p ∈ (Path.segments path).dropLast, ∀ l ∈ locales, lower p ≠ folder l := by
  rw [← localeOfFile_eq_none_iff]
  constructor
  · intro hall
    by_contra hsome
    obtain ⟨l, hl⟩ := Option.ne_none_iff_exists'.1 hsome
    obtain ⟨header, hheader, hne⟩ :
        ∃ header ∈ (["l_english", "l_french"] : List Text), header ≠ l := by
      by_cases hl : l = "l_english"
      · exact ⟨"l_french", by simp, hl ▸ by decide⟩
      · exact ⟨"l_english", by simp, Ne.symm hl⟩
    exact SourceFile.not_followsHeaders hl hheader hne
      (hall _ rfl (SourceFile.oneKey_good header hheader))
  · exact fun hnone f hf hgood => f.followsHeaders hgood (hf ▸ hnone)

/-- A name that ends like one with a locale: the header below it counts for nothing. -/
theorem headers_ignored : ¬ ∀ f : SourceFile,
    (∀ l ∈ locales, lower f.name ≠ l ++ ".yml" ∧ ¬ ('_' :: l ++ ".yml" : Text) <:+ lower f.name) →
    (∀ p ∈ (Path.segments f.path).dropLast, ∀ l ∈ locales, lower p ≠ folder l) →
    (∀ line ∈ keyLines f.lines, isMalformed line = false) → f.FollowsHeaders := by
  intro hall
  have hpath : localeOfFile "localisation/special_english.yml" = some ("l_english" : Text) := by
    decide +kernel
  have hheader : ("l_french" : Text) ∈ (["l_english", "l_french"] : List Text) := by simp
  exact SourceFile.not_followsHeaders hpath hheader (by decide)
    (hall _ (by decide +kernel) (by decide +kernel) (SourceFile.oneKey_good _ hheader))

end GameScript
