import GameScript.Proofs.Path
import GameScript.Proofs.Reader.Stamps
import GameScript.Proofs.Text.Condensed
import GameScript.Proofs.Text.WordChar
import Mathlib.Data.List.Forall2

/-!
# What a localization key is known by

Of the lines of a localization file, the key lines are those below its first header (`keyLines`),
and each makes one outcome, in order (`forall₂_localizedLines`). The locale in effect is that of the
last header above, unless the path of the file has one (`localeBelow`). A line with a key, a
version and a quoted text is no header and not malformed (`KeyLine.localizedLine_eq`), and what it
defines is typed by the first folder of the path and the locale, with one and the same version in
its code (`KeyLine.defined`). So neither the other folders nor the name of the file nor the version
tell two such definitions apart (`KeyLine.same_identity`).
-/

namespace GameScript

open Text GameScript.Localization

namespace Localization

/-! ## Characters of keys -/

/-- A key is neither cut nor changed by what reads its line. -/
theorem not_blank_of_isKeyChar {c : Char} (h : isKeyChar c = true) : isBlankChar c = false := by
  simp only [isKeyChar, Bool.or_eq_true, beq_iff_eq] at h
  rcases h with ((h | rfl) | rfl) | rfl
  · exact not_blank_of_isWordChar h
  · decide
  · decide
  · decide

/-! ## Key lines -/

theorem localeOfHeader_of_isSilent {line : Text} (h : isSilent line = true) :
    localeOfHeader line = none := by
  refine List.find?_eq_none.2 fun l hl => ?_
  have hstart : ∀ l ∈ locales, l.head? = some 'l' := by decide
  obtain ⟨ls, rfl⟩ := List.head?_eq_some_iff.1 (hstart l hl)
  rw [isSilent, Bool.or_eq_true, beq_iff_eq, beq_iff_eq] at h
  rcases h with rfl | hhash
  · simp [same, asciiLower]
  · obtain ⟨t, rfl⟩ := List.head?_eq_some_iff.1 hhash
    simp [same, asciiLower]

/-- A line is no header when all before its separator is a key that no locale is named like. -/
theorem localeOfHeader_of_key {key tail : Text} (hkey : ∀ c ∈ key, isKeyChar c = true)
    (hlocale : ∀ l ∈ locales, same l key = false) : localeOfHeader (key ++ ':' :: tail) = none := by
  refine List.find?_eq_none.2 fun l hl hheader => ?_
  obtain ⟨hsame, hnext⟩ := Bool.and_eq_true_iff.1 hheader
  rcases Nat.lt_or_ge key.length l.length with hlong | hshort
  · -- the name of a locale has no separator
    have hplain : ∀ l ∈ locales, ':' ∉ asciiLower l := by decide
    refine hplain l hl ?_
    obtain ⟨n, hn⟩ := Nat.exists_eq_add_of_lt hlong
    rw [eq_of_beq hsame, hn, Nat.add_assoc, List.take_length_add_append, List.take_succ_cons]
    exact List.mem_map.2 ⟨':', by simp, by decide⟩
  · rw [List.take_append_of_le_length hshort] at hsame
    rw [List.drop_append_of_le_length hshort] at hnext
    cases hrest : key.drop l.length with
    | nil =>
      rw [List.take_of_length_le (List.drop_eq_nil_iff.1 hrest), hlocale l hl] at hsame
      cases hsame
    | cons c cs =>
      have hc : isKeyChar c = true := hkey c (List.mem_of_mem_drop (hrest ▸ List.mem_cons_self))
      rw [hrest, List.cons_append, trimStart_cons (not_blank_of_isKeyChar hc), List.head?_cons,
        beq_iff_eq] at hnext
      rw [Option.some.inj hnext] at hc
      exact absurd hc (by decide)

def isKeyLine (line : Text) : Bool := !isSilent line && (localeOfHeader line).isNone

/-- The bare lines below the first header, other headers and silent lines apart. -/
def keyLines (lines : List Text) : List Text :=
  ((lines.map bareLine).dropWhile fun line => (localeOfHeader line).isNone).filter isKeyLine

theorem keyLines_header {l raw : Text} {rest : List Text}
    (h : localeOfHeader (bareLine raw) = some l) :
    keyLines (raw :: rest) = (rest.map bareLine).filter isKeyLine := by
  rw [keyLines, List.map_cons, List.dropWhile_cons_of_neg (by simp [h]),
    List.filter_cons_of_neg (by simp [isKeyLine, h])]

theorem keyLines_early {raw : Text} {rest : List Text} (h : localeOfHeader (bareLine raw) = none) :
    keyLines (raw :: rest) = keyLines rest := by
  rw [keyLines, List.map_cons, List.dropWhile_cons_of_pos (by simp [h]), keyLines]

/-- Whether a line is not malformed: no fault in its key, and no text that is not quoted. -/
def isWellFormed (line : Text) : Bool :=
  (keyFault [] line).isNone && (codeAndVersion line).toOption.isSome

/-- The key that was read before matters to the wording of a fault alone. -/
theorem keyFault_eq_none {previous line : Text} (h : keyFault [] line = none) :
    keyFault previous line = none := by
  unfold keyFault at h ⊢
  split at h
  · cases h
  · exact h

end Localization

namespace SourceFile

open GameScript.Localization

variable {f g : SourceFile} {locale : Option Text} {l previous raw : Text}
  {rest lines before after : List Text}

/-- The locale in effect below some lines of the file: that of the last header, unless the path has
one. -/
def localeBelow (f : SourceFile) (lines : List Text) : Option Text :=
  ((lines.map bareLine).filterMap localeOfHeader).getLast?.map fun l => (localeOfFile f.path).getD l

/-! ## One line -/

theorem localizedLines_silent (h : isSilent (bareLine raw) = true) :
    f.localizedLines locale previous (raw :: rest) = f.localizedLines locale previous rest := by
  conv_lhs => unfold localizedLines
  exact if_pos h

theorem localizedLines_header (h : localeOfHeader (bareLine raw) = some l) :
    f.localizedLines locale previous (raw :: rest) =
      f.localizedLines (some ((localeOfFile f.path).getD l)) previous rest := by
  have hloud : isSilent (bareLine raw) = false := by
    refine Bool.eq_false_iff.2 fun hsilent => ?_
    rw [localeOfHeader_of_isSilent hsilent] at h
    cases h
  conv_lhs => unfold localizedLines
  dsimp only
  rw [hloud, h]
  rfl

theorem localizedLines_early (h : localeOfHeader (bareLine raw) = none) :
    f.localizedLines none previous (raw :: rest) = f.localizedLines none previous rest := by
  conv_lhs => unfold localizedLines
  dsimp only
  rw [h]
  exact ite_self _

/-- A key line that is defined leaves its key to the lines below. -/
theorem localizedLines_defined {d : Definition} (h : isKeyLine (bareLine raw) = true)
    (hline : f.localizedLine l previous (bareLine raw) = .ok d) :
    f.localizedLines (some l) previous (raw :: rest) =
      .ok d :: f.localizedLines (some l) d.id rest := by
  simp only [isKeyLine, Bool.and_eq_true, Bool.not_eq_true', Option.isNone_iff_eq_none] at h
  conv_lhs => unfold localizedLines
  simp only [h.1, h.2, hline]
  rfl

/-- A malformed one does not. -/
theorem localizedLines_malformed {message : Text} (h : isKeyLine (bareLine raw) = true)
    (hline : f.localizedLine l previous (bareLine raw) = .error message) :
    f.localizedLines (some l) previous (raw :: rest) =
      .error message :: f.localizedLines (some l) previous rest := by
  simp only [isKeyLine, Bool.and_eq_true, Bool.not_eq_true', Option.isNone_iff_eq_none] at h
  conv_lhs => unfold localizedLines
  simp only [h.1, h.2, hline]
  rfl

/-- A key line makes its outcome before the rest does. -/
theorem localizedLines_keyLine (h : isKeyLine (bareLine raw) = true) :
    ∃ previous', ∀ rest, f.localizedLines (some l) previous (raw :: rest) =
      f.localizedLine l previous (bareLine raw) :: f.localizedLines (some l) previous' rest := by
  cases hline : f.localizedLine l previous (bareLine raw) with
  | ok d => exact ⟨d.id, fun rest => localizedLines_defined h hline⟩
  | error message => exact ⟨previous, fun rest => localizedLines_malformed h hline⟩

/-! ## All lines -/

/-- Each key line makes one outcome, in order. -/
theorem forall₂_localizedLines_below :
    List.Forall₂ (fun line outcome => ∃ l previous, outcome = f.localizedLine l previous line)
      ((lines.map bareLine).filter isKeyLine) (f.localizedLines (some l) previous lines) := by
  induction lines generalizing l previous with
  | nil => exact .nil
  | cons raw rest ih =>
    rw [List.map_cons, List.filter_cons]
    split
    · next hkey =>
      obtain ⟨previous', heq⟩ := f.localizedLines_keyLine hkey
      rw [heq]
      exact .cons ⟨l, previous, rfl⟩ ih
    · next hother =>
      cases hheader : localeOfHeader (bareLine raw) with
      | some l' =>
        rw [localizedLines_header hheader]
        exact ih
      | none =>
        rw [localizedLines_silent (by simpa [isKeyLine, hheader] using hother)]
        exact ih

theorem forall₂_localizedLines :
    List.Forall₂ (fun line outcome => ∃ l previous, outcome = f.localizedLine l previous line)
      (keyLines lines) (f.localizedLines none previous lines) := by
  induction lines with
  | nil => exact .nil
  | cons raw rest ih =>
    cases hheader : localeOfHeader (bareLine raw) with
    | some l =>
      rw [keyLines_header hheader, localizedLines_header hheader]
      exact forall₂_localizedLines_below
    | none =>
      rw [keyLines_early hheader, localizedLines_early hheader]
      exact ih

theorem localizedLines_append :
    ∃ previous', f.localizedLines locale previous (lines ++ rest) =
      f.localizedLines locale previous lines ++
        f.localizedLines ((f.localeBelow lines).or locale) previous' rest := by
  induction lines generalizing locale previous with
  | nil => exact ⟨previous, rfl⟩
  | cons raw lines ih =>
    cases hheader : localeOfHeader (bareLine raw) with
    | some l =>
      have hbelow : (f.localeBelow (raw :: lines)).or locale =
          (f.localeBelow lines).or (some ((localeOfFile f.path).getD l)) := by
        rw [localeBelow, List.map_cons, List.filterMap_cons_some hheader, List.getLast?_cons,
          localeBelow]
        cases ((lines.map bareLine).filterMap localeOfHeader).getLast? <;> rfl
      rw [List.cons_append, localizedLines_header hheader, localizedLines_header hheader, hbelow]
      exact ih
    | none =>
      have hbelow : f.localeBelow (raw :: lines) = f.localeBelow lines := by
        rw [localeBelow, List.map_cons, List.filterMap_cons_none hheader, localeBelow]
      rw [List.cons_append, hbelow]
      by_cases hsilent : isSilent (bareLine raw) = true
      · rw [localizedLines_silent hsilent, localizedLines_silent hsilent]
        exact ih
      cases locale with
      | none =>
        rw [localizedLines_early hheader, localizedLines_early hheader]
        exact ih
      | some l =>
        have hkey : isKeyLine (bareLine raw) = true := by simp [isKeyLine, hheader, hsilent]
        obtain ⟨previous', heq⟩ := localizedLines_keyLine (f := f) hkey
        obtain ⟨previous'', hrest⟩ := @ih (some l) previous'
        refine ⟨previous'', ?_⟩
        rw [heq, heq, hrest]
        rfl

/-- What comes of a key line stands at the place of the line among the key lines. -/
theorem localizedLines_at (hlines : f.lines = before ++ raw :: after)
    (hkey : isKeyLine (bareLine raw) = true) (hl : f.localeBelow before = some l) :
    ∃ previous, (f.localizedLines none [] f.lines)[(keyLines before).length]? =
      some (f.localizedLine l previous (bareLine raw)) := by
  obtain ⟨previous, hparts⟩ : ∃ previous, f.localizedLines none [] (before ++ raw :: after) =
      f.localizedLines none [] before ++
        f.localizedLines ((f.localeBelow before).or none) previous (raw :: after) :=
    localizedLines_append
  obtain ⟨previous', hline⟩ := f.localizedLines_keyLine hkey
  have hplace : (keyLines before).length = (f.localizedLines none [] before).length :=
    forall₂_localizedLines.length_eq
  refine ⟨previous, ?_⟩
  rw [hlines, hparts, hl, Option.some_or, hplace, List.getElem?_append_right (Nat.le_refl _),
    Nat.sub_self, hline, List.getElem?_cons_zero]

end SourceFile

/-! ## A key line -/

/-- A line `key:version text` among the lines of a file, the text quoted to its end. -/
structure KeyLine (f : SourceFile) where
  before : List Text
  raw : Text
  after : List Text
  lines_eq : f.lines = before ++ raw :: after
  key : Text
  version : Text
  text : Text
  bareLine_eq : bareLine raw = key ++ ':' :: (version ++ ' ' :: '"' :: text)
  key_ne : key ≠ []
  isKeyChar : ∀ c ∈ key, isKeyChar c = true
  no_locale : ∀ l ∈ locales, same l key = false
  isDigit : ∀ c ∈ version, isDigit c = true

namespace KeyLine

variable {f : SourceFile} (a : KeyLine f) {l previous : Text}

def code : Text := a.key ++ ':' :: commonVersion ++ ' ' :: '"' :: a.text

theorem not_mem_key {c : Char} (hc : Localization.isKeyChar c = false) : c ∉ a.key :=
  not_mem_of_all a.isKeyChar hc

theorem bounded_key : Bounded a.key :=
  bounded_of_marks a.key_ne fun c hc => not_blank_of_isKeyChar (a.isKeyChar c hc)

theorem isKeyLine : isKeyLine (bareLine a.raw) = true := by
  have hheader : localeOfHeader (bareLine a.raw) = none := by
    rw [a.bareLine_eq]
    exact localeOfHeader_of_key a.isKeyChar a.no_locale
  have hloud : isSilent (bareLine a.raw) = false := by
    obtain ⟨c, cs, hkey⟩ := List.exists_cons_of_ne_nil a.key_ne
    have hmark : c ≠ '#' :=
      ne_of_mem_of_not_mem (hkey ▸ List.mem_cons_self) (a.not_mem_key (by decide))
    simp [isSilent, a.bareLine_eq, hkey, hmark]
  rw [Localization.isKeyLine, hheader, hloud]
  rfl

theorem condense_bareLine : ∃ rest, condense (bareLine a.raw) = a.key ++ ':' :: rest := by
  have hmarks : ∀ c ∈ a.key ++ [':'], ¬ (c = ' ' ∨ c = '\t') ∧ c ≠ '"' := by
    intro c hc
    rcases List.mem_append.1 hc with hc | hc
    · have hne {d : Char} (hd : Localization.isKeyChar d = false) : c ≠ d :=
        ne_of_mem_of_not_mem hc (a.not_mem_key hd)
      exact ⟨not_or.2 ⟨hne (by decide), hne (by decide)⟩, hne (by decide)⟩
    · rw [List.mem_singleton.1 hc]
      decide
  have htrim : trim (bareLine a.raw) = bareLine a.raw := by
    refine (bounded_trim fun hnil => ?_).trim_eq
    have hline : bareLine a.raw = [] := hnil
    rw [a.bareLine_eq] at hline
    exact List.append_ne_nil_of_right_ne_nil _ (List.cons_ne_nil _ _) hline
  have hsplit : bareLine a.raw = a.key ++ [':'] ++ (a.version ++ ' ' :: '"' :: a.text) := by
    rw [a.bareLine_eq, List.append_assoc]
    rfl
  rw [condense, htrim, hsplit, condenseFrom_marks hmarks, List.append_assoc]
  exact ⟨_, rfl⟩

theorem keyFault_eq : keyFault previous (bareLine a.raw) = none := by
  obtain ⟨rest, hrest⟩ := a.condense_bareLine
  rw [keyFault, hrest, splitFirst_append (a.not_mem_key (by decide))]
  dsimp only
  rw [a.bounded_key.trim_eq, if_pos (List.all_eq_true.2 a.isKeyChar)]

theorem codeAndVersion_eq : ∃ version, codeAndVersion (bareLine a.raw) = .ok (a.code, version) := by
  have hquote : '"' ∉ a.version ++ [' '] := by
    intro hmem
    rcases List.mem_append.1 hmem with hmem | hmem
    · exact absurd (a.isDigit _ hmem) (by decide)
    · exact absurd (List.mem_singleton.1 hmem) (by decide)
  have hvalue : a.version ++ ' ' :: '"' :: a.text = (a.version ++ [' ']) ++ '"' :: a.text := by simp
  have hblank : isBlank (a.version ++ ' ' :: '"' :: a.text) = false :=
    List.all_eq_false.2 ⟨'"', by simp, by decide⟩
  obtain ⟨c, cs, hkey⟩ := List.exists_cons_of_ne_nil a.key_ne
  have hline : splitFirst ':' (bareLine a.raw) =
      some (c :: cs, a.version ++ ' ' :: '"' :: a.text) := by
    rw [a.bareLine_eq, splitFirst_append (a.not_mem_key (by decide)), hkey]
  rw [codeAndVersion, hline]
  dsimp only
  rw [hblank, if_neg (by decide), if_neg (by simp), hvalue, dropWhile_append hquote, code, hkey]
  exact ⟨_, rfl⟩

/-- A key line makes a definition below any header. -/
theorem localizedLine_eq : ∃ version,
    f.localizedLine l previous (bareLine a.raw) = .ok (f.localized l a.code version) := by
  obtain ⟨version, hcode⟩ := a.codeAndVersion_eq
  rw [SourceFile.localizedLine, a.keyFault_eq, hcode]
  exact ⟨version, rfl⟩

end KeyLine

/-! ## A file without malformed lines -/

/-- A file in a folder below `root`, none of its key lines malformed. -/
structure SourceFile.IsLocalization (f : SourceFile) (root : Text) : Prop where
  normal : Path.normalize f.path = f.path
  isBelow : ∃ p ps, Path.segments f.path = root :: p :: ps
  wellFormed : ∀ line ∈ keyLines f.lines, isWellFormed line = true

namespace SourceFile

variable {f : SourceFile} {root l : Text}

theorem localizedLine_ok {line previous : Text} (h : isWellFormed line = true) :
    ∃ d, f.localizedLine l previous line = .ok d := by
  obtain ⟨hkey, hcode⟩ := Bool.and_eq_true_iff.1 h
  rw [localizedLine, keyFault_eq_none (Option.isNone_iff_eq_none.1 hkey)]
  cases hcoded : codeAndVersion line with
  | ok coded => exact ⟨_, rfl⟩
  | error message =>
    rw [hcoded] at hcode
    cases hcode

/-- Without a malformed line there is a definition for each key line. -/
theorem localizedLines_ok {lines : List Text}
    (h : ∀ line ∈ keyLines lines, isWellFormed line = true) :
    ∃ ds : List Definition, f.localizedLines none [] lines = ds.map Except.ok := by
  have hforall : List.Forall₂ (fun _ outcome => ∃ d, outcome = .ok d) (keyLines lines)
      (f.localizedLines none [] lines) := by
    refine ((List.forall₂_and_left _ _).2 ⟨h, forall₂_localizedLines⟩).imp ?_
    rintro line outcome ⟨hline, l, previous, rfl⟩
    exact localizedLine_ok hline
  generalize f.localizedLines none [] lines = outcomes at hforall
  generalize keyLines lines = ls at hforall
  clear h
  induction hforall with
  | nil => exact ⟨[], rfl⟩
  | cons hhead _ ih =>
    obtain ⟨d, rfl⟩ := hhead
    obtain ⟨ds, rfl⟩ := ih
    exact ⟨d :: ds, rfl⟩

theorem readLocalization_ok {ds : List Definition}
    (h : f.localizedLines none [] f.lines = ds.map Except.ok) :
    f.readLocalization = finishDefinitions false ds := by
  have hds : (ds.map Except.ok).filterMap (Except.toOption (ε := Text)) = ds := by
    rw [List.filterMap_map]
    exact List.filterMap_some
  unfold readLocalization
  dsimp only
  rw [h, hds]
  split
  · rfl
  · next hne =>
    refine absurd ?_ hne
    simp

/-- The locale of a definition, its folder and the first folder of the file make its type. -/
theorem localized_type (hf : f.IsLocalization root) (hl : l ∈ locales) {code : Text}
    {version : Int} :
    (f.localized l code version).type = root ++ '/' :: folder l ++ '/' :: (l ++ "-yml") := by
  obtain ⟨p, ps, hsegments⟩ := hf.isBelow
  have hroot : Path.IsSegment root := Path.isSegment_head hsegments
  have hfolder : ∀ l ∈ locales, folder l ≠ [] ∧ '/' ∉ folder l ∧ '\\' ∉ folder l := by decide
  have hname : Path.IsSegment f.name := by
    refine Path.isSegment_fileName fun hnil => ?_
    rw [Path.segments, hnil] at hsegments
    cases hsegments
  have hall : ∀ q ∈ [root, folder l, f.name], Path.IsSegment q := by
    obtain ⟨hne, hslash, hback⟩ := hfolder l hl
    simp only [List.forall_mem_cons]
    exact ⟨hroot, ⟨hne, hslash, hback⟩, hname, List.forall_mem_nil _⟩
  have hdirectory : Path.directory (root ++ '/' :: folder l ++ '/' :: f.name) =
      root ++ '/' :: folder l := by
    have h := Path.directory_join (List.cons_ne_nil _ _) hall
    simpa [join] using h
  have hhead : (splitOn '/' f.path).headD [] = root := by
    rw [Path.segments, hf.normal] at hsegments
    rw [hsegments]
    rfl
  have hsuffix : ∀ l ∈ locales, isBlank (l ++ "-yml") = false := by decide
  have htype : (f.localized l code version).type = Path.typeLabel
      ((splitOn '/' f.path).headD [] ++ '/' :: folder l ++ '/' :: f.name) (some (l ++ "-yml")) := by
    rw [localized, Definition.addTag_eq]
    dsimp only [Definition.setId, Definition.setCode, Definition.setVirtualPath, Definition.setType]
  rw [htype, hhead, Path.typeLabel, hdirectory, if_neg (by simp), Option.filter_some,
    hsuffix l hl, Bool.not_false, if_pos rfl, Option.getD_some, List.append_assoc, List.cons_append]

theorem localized_hash {c : Text} {v : Int} : (f.localized l c v).hash =
    digest (Definition.fingerprint (Definition.tidyCode (l ++ ":\n " ++ c))) := by
  rw [localized, Definition.addTag_eq]
  rfl

theorem mem_of_longest? {ts : List Text} {t : Text} (h : longest? ts = some t) : t ∈ ts := by
  induction ts generalizing t with
  | nil => cases h
  | cons u us ih =>
    unfold longest? at h
    split at h
    · next hrest =>
      split at h
      · exact List.mem_cons_of_mem _ (Option.some.inj h ▸ ih hrest)
      · exact Option.some.inj h ▸ List.mem_cons_self
    · exact Option.some.inj h ▸ List.mem_cons_self

theorem mem_locales_of_localeBelow {lines : List Text} (h : f.localeBelow lines = some l) :
    l ∈ locales := by
  obtain ⟨header, hheader, rfl⟩ := Option.map_eq_some_iff.1 h
  obtain ⟨line, -, hline⟩ := List.mem_filterMap.1 (List.mem_of_getLast? hheader)
  cases hfile : localeOfFile f.path with
  | none => exact List.mem_of_find?_eq_some hline
  | some l =>
    unfold localeOfFile at hfile
    dsimp only at hfile
    split at hfile
    · next hlongest =>
      rw [← hfile]
      exact (List.mem_filter.1 (mem_of_longest? hlongest)).1
    · exact List.mem_of_find?_eq_some hfile

end SourceFile

namespace KeyLine

variable {f g : SourceFile} {root l : Text}

theorem localized_id (a : KeyLine f) {version : Int} :
    (f.localized l a.code version).id = a.key := by
  have hcode : a.code = a.key ++ ':' :: (commonVersion ++ ' ' :: '"' :: a.text) := by
    rw [code, List.append_assoc, List.cons_append]
  have hid : (f.localized l a.code version).id = trim (a.code.takeWhile (· ≠ ':')) := by
    rw [SourceFile.localized, Definition.addTag_eq]
    rfl
  rw [hid, hcode, takeWhile_append (a.not_mem_key (by decide)), a.bounded_key.trim_eq]

/-- What a key line defines stands at the place of the line among the key lines. -/
theorem localized_at (a : KeyLine f) (hf : f.IsLocalization root)
    (hl : f.localeBelow a.before = some l) :
    ∃ version, f.readLocalization[(keyLines a.before).length]? =
      some { f.localized l a.code version with
        order := (keyLines a.before).length
        simplyChecked := false } := by
  obtain ⟨ds, hds⟩ := f.localizedLines_ok hf.wellFormed
  obtain ⟨previous, hat⟩ := f.localizedLines_at a.lines_eq a.isKeyLine hl
  obtain ⟨version, hline⟩ := a.localizedLine_eq
  rw [hds, hline] at hat
  rw [List.getElem?_map, Option.map_eq_some_iff] at hat
  obtain ⟨d, hd, hok⟩ := hat
  obtain rfl := Except.ok.inj hok
  have htype : (f.localized l a.code version).type ≠ [] := by
    rw [SourceFile.localized_type hf (SourceFile.mem_locales_of_localeBelow hl)]
    exact List.append_ne_nil_of_right_ne_nil _ (List.cons_ne_nil _ _)
  refine ⟨version, ?_⟩
  generalize f.localized l a.code version = d at hd htype ⊢
  rw [f.readLocalization_ok hds, finishDefinitions, List.getElem?_mapIdx, hd]
  exact congrArg some (if_neg htype)

/-- The key names what is defined, together with the first folder and the locale; the key, the text
and the locale are its content. -/
theorem defined (a : KeyLine f) (hf : f.IsLocalization root)
    (hl : f.localeBelow a.before = some l) :
    ∃ d, f.readLocalization[(keyLines a.before).length]? = some d ∧ d.id = a.key ∧
      d.typeAndId = root ++ '/' :: folder l ++ '/' :: (l ++ "-yml") ++ '-' :: a.key ∧
      d.hash = digest (Definition.fingerprint (Definition.tidyCode (l ++ ":\n " ++ a.code))) := by
  obtain ⟨version, hd⟩ := a.localized_at hf hl
  refine ⟨_, hd, ?_⟩
  have hid : (f.localized l a.code version).id = a.key := a.localized_id
  have hmakes : f.Makes .specialVariable (f.localized l a.code version) :=
    SourceFile.makes_localized
  have hhash := f.localized_hash (l := l) (c := a.code) (v := version)
  have htype : (f.localized l a.code version).type = _ :=
    SourceFile.localized_type hf (SourceFile.mem_locales_of_localeBelow hl)
  generalize f.localized l a.code version = d at *
  exact ⟨hid, by rw [← htype, ← hid]; exact hmakes.isOf.typeAndId, hhash⟩

/-- **A key is known by its locale and text.** In two files without malformed lines, anywhere below
one folder, lines of one key and text under one locale define one and the same thing with the same
content, whatever their version. -/
theorem same_identity (a : KeyLine f) (b : KeyLine g) (hf : f.IsLocalization root)
    (hg : g.IsLocalization root) (hfl : f.localeBelow a.before = some l)
    (hgl : g.localeBelow b.before = some l) (hkey : a.key = b.key) (htext : a.text = b.text) :
    ∃ d e, f.readLocalization[(keyLines a.before).length]? = some d ∧
      g.readLocalization[(keyLines b.before).length]? = some e ∧
      d.id = a.key ∧ e.id = b.key ∧ d.typeAndId = e.typeAndId ∧ d.hash = e.hash := by
  obtain ⟨d, hd, hid, hdkey, hdhash⟩ := a.defined hf hfl
  obtain ⟨e, he, heid, hekey, hehash⟩ := b.defined hg hgl
  have hcode : a.code = b.code := by rw [code, code, hkey, htext]
  refine ⟨d, e, hd, he, hid, heid, ?_, ?_⟩
  · rw [hdkey, hekey, hkey]
  · rw [hdhash, hehash, hcode]

def gameNames : SourceFile :=
  { path := "localisation/english/names_l_english.yml", lines := ["l_english:", " SOL:0 \"Sun\""] }

def modNames : SourceFile :=
  { path := "localisation/replace/stars/names.yml"
    lines := ["\uFEFFL_English :", "# stars", "RIGEL: \"Rigel\"", "SOL:12 \"Sun\"  "] }

def gameLine : KeyLine gameNames where
  before := ["l_english:"]
  raw := " SOL:0 \"Sun\""
  after := []
  lines_eq := rfl
  key := "SOL"
  version := "0"
  text := "Sun\""
  bareLine_eq := by decide
  key_ne := by decide
  isKeyChar := List.all_eq_true.1 (by decide)
  no_locale := by decide
  isDigit := List.all_eq_true.1 (by decide)

def modLine : KeyLine modNames where
  before := ["\uFEFFL_English :", "# stars", "RIGEL: \"Rigel\""]
  raw := "SOL:12 \"Sun\"  "
  after := []
  lines_eq := rfl
  key := "SOL"
  version := "12"
  text := "Sun\""
  bareLine_eq := by decide
  key_ne := by decide
  isKeyChar := List.all_eq_true.1 (by decide)
  no_locale := by decide
  isDigit := List.all_eq_true.1 (by decide)

theorem same_identity_sol :
    ∃ d e, gameNames.readLocalization[0]? = some d ∧ modNames.readLocalization[1]? = some e ∧
      d.id = ("SOL" : Text) ∧ e.id = ("SOL" : Text) ∧ d.typeAndId = e.typeAndId ∧
      d.hash = e.hash :=
  @same_identity gameNames modNames "localisation" "l_english" gameLine modLine
    ⟨by decide, ⟨_, _, rfl⟩, by decide +kernel⟩ ⟨by decide, ⟨_, _, rfl⟩, by decide +kernel⟩
    (by decide +kernel) (by decide +kernel) rfl rfl

end KeyLine

end GameScript
