import GameScript.Proofs.Reader.Failures
import GameScript.Proofs.Reader.Localization

/-!
# All or nothing of a localization file

A key line is malformed when it has no separator, a character in its key that does not belong there,
or a text that is not quoted (`isMalformed`). The key is looked at in the condensed line and taken
from the line itself, which is one and the same for a key that is good (`keyOf_condense`). Each
malformed line makes one complaint, and any complaint leaves nothing of the file but what reports
them all; without one, every key line is defined (`readLocalization_cases`).
-/

namespace GameScript

open Text GameScript.Localization

/-! ## Keys of condensed lines -/

namespace Text

variable {t : Text} {s : Condenser}

theorem condenseFrom_colon : ∃ g r, condenseFrom s (':' :: t) = g ++ ':' :: r ∧
    isBlank g = true ∧ ':' ∉ g := by
  cases s with
  | quoted | escaped => exact ⟨[], _, rfl, rfl, List.not_mem_nil⟩
  | outside tight pending =>
    rw [condenseFrom_mark (by decide), spaceBefore]
    split
    · exact ⟨[' '], _, rfl, by decide, by decide⟩
    · exact ⟨[], _, rfl, rfl, List.not_mem_nil⟩

end Text

namespace Localization

variable {c : Char} {line p r x : Text}

def keyOf (line : Text) : Text := trim (line.takeWhile (· ≠ ':'))

/-- What the condenser begins the rest of a key with, after a character that is none of a key, is
none either. -/
theorem not_isKeyChar_of_condensed (hp : p.head?.all fun c => !isKeyChar c)
    (h : (condenseFrom (.outside false false) p).head? = some c) : isKeyChar c = false := by
  cases p with
  | nil => cases h
  | cons d r =>
    rw [List.head?_cons, Option.all_some, Bool.not_eq_true'] at hp
    by_cases hb : d = ' ' ∨ d = '\t'
    · -- the blanks make a space, unless there is none beside what follows them
      rw [condenseFrom, if_pos hb] at h
      clear hp hb
      induction r with
      | nil => cases h
      | cons e r ih =>
        by_cases he : e = ' ' ∨ e = '\t'
        · rw [condenseFrom, if_pos he] at h
          exact ih h
        · rw [condenseFrom_mark he, spaceBefore] at h
          cases htight : isTight e with
          | true =>
            have hstart : startsTight [e] = true := htight
            rw [if_neg (by simp [hstart])] at h
            obtain rfl := Option.some.inj h
            simp only [isTight, Bool.or_eq_true, beq_iff_eq] at htight
            rcases htight with (rfl | rfl) | rfl <;> decide
          | false =>
            have hstart : startsTight [e] = false := htight
            rw [hstart] at h
            exact Option.some.inj h ▸ by decide
    · rw [condenseFrom_mark hb] at h
      exact Option.some.inj h ▸ hp

theorem exists_keyFront (p : Text) : ∃ x r, p = x ++ r ∧ (∀ c ∈ x, isKeyChar c = true) ∧
    r.head?.all fun c => !isKeyChar c := by
  refine ⟨p.takeWhile isKeyChar, p.dropWhile isKeyChar, List.takeWhile_append_dropWhile.symm,
    fun c hc => List.mem_takeWhile_imp hc, ?_⟩
  cases hdrop : p.dropWhile isKeyChar with
  | nil => rfl
  | cons d r =>
    have hd := List.dropWhile_get_zero_not isKeyChar p (by simp [hdrop])
    simpa [hdrop] using hd

/-- The characters of a key are copied, and none of them is tight. -/
theorem condenseFrom_key (hx : ∀ c ∈ x, isKeyChar c = true) :
    condenseFrom (.outside false false) (x ++ r) =
      x ++ condenseFrom (.outside false false) r := by
  have hmark {c d : Char} (hc : isKeyChar c = true) (hd : isKeyChar d = false) : c ≠ d := by
    rintro rfl
    exact Bool.false_ne_true (hd.symm.trans hc)
  have hmarks : ∀ c ∈ x, ¬ (c = ' ' ∨ c = '\t') ∧ c ≠ '"' := fun c hc =>
    ⟨not_or.2 ⟨hmark (hx c hc) (by decide), hmark (hx c hc) (by decide)⟩,
      hmark (hx c hc) (by decide)⟩
  have htight : x.getLast?.elim false isTight = false := by
    cases hlast : x.getLast? with
    | none => rfl
    | some c =>
      have hc := hx c (List.mem_of_getLast? hlast)
      simp [isTight, hmark hc (d := '=') (by decide), hmark hc (d := '{') (by decide),
        hmark hc (d := '}') (by decide)]
  rw [condenseFrom_marks hmarks, htight]

theorem isBlank_of_condensed {s : Condenser} (h : isBlank (condenseFrom s r) = true) :
    isBlank r = true := by
  refine List.all_eq_true.2 fun c hc => ?_
  by_cases hb : c = ' ' ∨ c = '\t'
  · rcases hb with rfl | rfl <;> decide
  · exact List.all_eq_true.1 h c (mem_condenseFrom hc hb)

/-- A good key is trimmed of blanks alone when its text is condensed. -/
theorem trim_condensed (hstart : p.head?.all fun c => !isBlankChar c)
    (hkey : ∀ c ∈ trim (condenseFrom (.outside false false) p), isKeyChar c = true) :
    trim (condenseFrom (.outside false false) p) = trim p := by
  -- the front of key characters is copied, and the rest begins with none
  obtain ⟨x, r, rfl, hx, hr⟩ := exists_keyFront p
  rw [condenseFrom_key hx] at hkey ⊢
  -- so nothing but blanks can follow
  have hrest : isBlank (condenseFrom (.outside false false) r) = true := by
    refine Bool.of_not_eq_false fun hloud => ?_
    obtain ⟨e, he, heb⟩ := List.all_eq_false.1 hloud
    rw [Bool.not_eq_true] at heb
    obtain ⟨d, y, hy⟩ := List.exists_cons_of_ne_nil (List.ne_nil_of_mem he)
    have hother : isKeyChar d = false := not_isKeyChar_of_condensed hr (by rw [hy]; rfl)
    refine Bool.false_ne_true (hother.symm.trans (hkey d ?_))
    rw [hy] at he ⊢
    cases hd : isBlankChar d with
    | false => exact mem_trim (by simp) hd
    | true =>
      have hbelow : e ∈ y := by
        refine (List.mem_cons.1 he).resolve_left ?_
        rintro rfl
        exact Bool.false_ne_true (heb.symm.trans hd)
      cases x with
      | cons c x =>
        exact mem_trim_between (not_blank_of_isKeyChar (hx c List.mem_cons_self)) hbelow heb
      | nil =>
        -- the text starts with a mark, which is copied
        cases r with
        | nil => cases hy
        | cons c r =>
          have hc : isBlankChar c = false := by simpa using hstart
          have hb : ¬ (c = ' ' ∨ c = '\t') := by
            rintro (rfl | rfl) <;> cases hc
          rw [condenseFrom_mark hb] at hy
          obtain ⟨rfl, -⟩ := List.cons.inj hy
          exact absurd hd (by simp [hc])
  rw [trim_append_isBlank hrest, trim_append_isBlank (isBlank_of_condensed hrest)]

/-- **A good key is the same in the line and in the condensed line.** -/
theorem keyOf_condense (htrim : trim line = line) (hsep : ':' ∈ condense line)
    (hkey : ∀ c ∈ keyOf (condense line), isKeyChar c = true) :
    keyOf (condense line) = keyOf line := by
  have hmem : ':' ∈ line := by
    have hsub := of_mem_condenseFrom hsep
    rw [htrim] at hsub
    exact hsub.resolve_right (by decide)
  obtain ⟨key, value, hline, hnot⟩ := List.eq_append_cons_of_mem hmem
  obtain ⟨g, rest, hrest, hg, hcolon⟩ := condenseFrom_colon (t := value)
    (s := (Condenser.outside false false).after key)
  have hcondensed :
      condense line = (condenseFrom (.outside false false) key ++ g) ++ ':' :: rest := by
    rw [condense, htrim, hline, condenseFrom_append, hrest, List.append_assoc]
  have hfront : ':' ∉ condenseFrom (.outside false false) key ++ g := by
    rw [List.mem_append, not_or]
    exact ⟨fun h => (of_mem_condenseFrom h).elim hnot (by decide), hcolon⟩
  have hkeyOf : keyOf (condense line) = trim (condenseFrom (.outside false false) key) := by
    rw [keyOf, hcondensed, takeWhile_append hfront, trim_append_isBlank hg]
  have hstart : key.head?.all fun c => !isBlankChar c := by
    cases key with
    | nil => rfl
    | cons c key =>
      have hbounded : Bounded line := htrim ▸ bounded_trim (by rw [htrim, hline]; simp)
      obtain ⟨d, ds, hd, hb⟩ := hbounded.head
      obtain ⟨rfl, -⟩ := List.cons.inj (hline.symm.trans hd)
      simp [hb]
  rw [hkeyOf] at hkey ⊢
  rw [trim_condensed hstart hkey, keyOf, hline, takeWhile_append hnot]

/-! ## Malformed lines -/

def lacksSeparator (line : Text) : Bool := !(condense line).contains ':'

def hasBadKey (line : Text) : Bool := !(keyOf (condense line)).all isKeyChar

/-- Whether a line has a text behind its separator that is not quoted. Without a key nothing is
asked of the text. -/
def lacksQuotes (line : Text) : Bool :=
  let value := (line.dropWhile (· ≠ ':')).drop 1
  line.head? != some ':' && !isBlank value && !value.contains '"'

def isMalformed (line : Text) : Bool := lacksSeparator line || hasBadKey line || lacksQuotes line

/-- What is said of a malformed line; `previous` is the key of the last good line above. -/
def complaint (previous line : Text) : Text :=
  if lacksSeparator line then "Missing separator near key: " ++ previous ++ "."
  else if hasBadKey line then
    "Line contains invalid characters in key: " ++ keyOf (condense line) ++ "."
  else "Invalid quotes detected near line: " ++ line ++ "."

/-- The fault of a key is what is complained of, unless it is the quotes. -/
theorem keyFault_eq {previous : Text} : keyFault previous line =
    if lacksSeparator line || hasBadKey line then some (complaint previous line) else none := by
  cases hsep : lacksSeparator line with
  | true =>
    have hnone : ':' ∉ condense line := by simpa [lacksSeparator] using hsep
    rw [keyFault, splitFirst_of_not_mem hnone, complaint, hsep, if_pos rfl, Bool.true_or,
      if_pos rfl]
  | false =>
    have hmem : ':' ∈ condense line := by simpa [lacksSeparator] using hsep
    obtain ⟨key, value, hline, hkey⟩ := List.eq_append_cons_of_mem hmem
    have hkeyOf : keyOf (condense line) = trim key := by rw [keyOf, hline, takeWhile_append hkey]
    rw [keyFault, hline, splitFirst_append hkey, complaint, hsep, if_neg Bool.false_ne_true, hkeyOf,
      Bool.false_or, hasBadKey, hkeyOf]
    dsimp only
    cases (trim key).all isKeyChar <;> rfl

/-- A text without quotes is refused, and else the key stays. -/
theorem codeAndVersion_cases (line : Text) : (lacksQuotes line = true ∧
      codeAndVersion line = .error ("Invalid quotes detected near line: " ++ line ++ ".")) ∨
    (lacksQuotes line = false ∧
      ∃ code version, codeAndVersion line = .ok (code, version) ∧ keyOf code = keyOf line) := by
  by_cases hmem : ':' ∈ line
  · obtain ⟨key, value, rfl, hkey⟩ := List.eq_append_cons_of_mem hmem
    have hvalue : ((key ++ ':' :: value).dropWhile (· ≠ ':')).drop 1 = value := by
      rw [dropWhile_append hkey]
      rfl
    rw [lacksQuotes, hvalue, codeAndVersion, splitFirst_append hkey]
    cases key with
    | nil => exact .inr ⟨rfl, _, _, rfl, rfl⟩
    | cons c key =>
      have hc : c ≠ ':' := fun h => hkey (h ▸ List.mem_cons_self)
      dsimp only
      cases hblank : isBlank value with
      | true => exact .inr ⟨by simp, _, _, rfl, rfl⟩
      | false =>
        cases hquote : value.contains '"' with
        | false => exact .inl ⟨by simp [hc], rfl⟩
        | true =>
          refine .inr ⟨by simp, _, _, rfl, ?_⟩
          have hcode : c :: key ++ ':' :: commonVersion ++ ' ' :: value.dropWhile (· ≠ '"') =
              (c :: key) ++ ':' :: (commonVersion ++ ' ' :: value.dropWhile (· ≠ '"')) := by
            rw [List.append_assoc]
            rfl
          rw [hcode, keyOf, keyOf, takeWhile_append hkey, takeWhile_append hkey]
  · refine .inr ⟨?_, line, 0, ?_, rfl⟩
    · have hdrop : line.dropWhile (· ≠ ':') = [] :=
        List.dropWhile_eq_nil_iff.2 fun c hc => decide_eq_true fun heq => hmem (heq ▸ hc)
      unfold lacksQuotes
      rw [hdrop]
      simp [isBlank]
    · rw [codeAndVersion, splitFirst_of_not_mem hmem]

theorem isWellFormed_eq : isWellFormed line = !isMalformed line := by
  rw [isWellFormed, keyFault_eq, isMalformed]
  rcases codeAndVersion_cases line with ⟨hquotes, hcode⟩ | ⟨hquotes, code, version, hcode, -⟩
  · rw [hquotes, hcode]
    cases lacksSeparator line || hasBadKey line <;> rfl
  · rw [hquotes, hcode]
    cases lacksSeparator line || hasBadKey line <;> rfl

end Localization

namespace SourceFile

variable {f : SourceFile} {l previous line raw : Text} {rest lines body : List Text}

/-- **One line**: a complaint, or a definition with its key and locale. -/
theorem localizedLine_cases (f : SourceFile) (l previous line : Text) :
    (isMalformed line = true ∧
      f.localizedLine l previous line = .error (complaint previous line)) ∨
    (isMalformed line = false ∧ ∃ d, f.localizedLine l previous line = .ok d ∧
      d.kind = .specialVariable ∧ d.id = keyOf line ∧ d.codeTag = some l) := by
  rw [localizedLine, keyFault_eq, isMalformed]
  cases hkey : lacksSeparator line || hasBadKey line with
  | true => exact .inl ⟨rfl, rfl⟩
  | false =>
    rw [Bool.or_eq_false_iff] at hkey
    rcases codeAndVersion_cases line with ⟨hquotes, hcode⟩ | ⟨hquotes, code, version, hcode, hid⟩
    · refine .inl ⟨hquotes, ?_⟩
      rw [hcode, complaint, hkey.1, hkey.2]
      rfl
    · refine .inr ⟨hquotes, f.localized l code version, by rw [hcode]; rfl, ?_⟩
      rw [localized, Definition.addTag_eq]
      exact ⟨rfl, hid, rfl⟩

/-! ## All lines -/

/-- The complaints about key lines; `previous` is the key of the last good line above them. -/
def complaints (previous : Text) : List Text → List Text
  | [] => []
  | line :: body =>
    if isMalformed line then complaint previous line :: complaints previous body
    else complaints (keyOf line) body

def lastKey (previous : Text) (body : List Text) : Text :=
  ((body.filter (!isMalformed ·)).getLast?.map keyOf).getD previous

def complaint? : Except Text Definition → Option Text
  | .error message => some message
  | .ok _ => none

theorem complaints_below : (f.localizedLines (some l) previous lines).filterMap complaint? =
    complaints previous ((lines.map bareLine).filter isKeyLine) := by
  induction lines generalizing l previous with
  | nil => rfl
  | cons raw rest ih =>
    rw [List.map_cons]
    cases hkey : isKeyLine (bareLine raw) with
    | true =>
      rw [List.filter_cons_of_pos hkey, complaints]
      rcases f.localizedLine_cases l previous (bareLine raw) with
        ⟨hbad, hline⟩ | ⟨hgood, d, hline, -, hid, -⟩
      · rw [localizedLines_malformed hkey hline, hbad, if_pos rfl, ← ih]
        rfl
      · rw [localizedLines_defined hkey hline, hgood, if_neg Bool.false_ne_true, ← ih, hid]
        rfl
    | false =>
      rw [List.filter_cons_of_neg (by simp [hkey])]
      cases hheader : localeOfHeader (bareLine raw) with
      | some l' =>
        rw [localizedLines_header hheader]
        exact ih
      | none =>
        rw [localizedLines_silent (by simpa [isKeyLine, hheader] using hkey)]
        exact ih

/-- **Every malformed key line is complained of**, and nothing else. -/
theorem complaints_eq : (f.localizedLines none previous lines).filterMap complaint? =
    complaints previous (keyLines lines) := by
  induction lines with
  | nil => rfl
  | cons raw rest ih =>
    cases hheader : localeOfHeader (bareLine raw) with
    | some l =>
      rw [keyLines_header hheader, localizedLines_header hheader]
      exact complaints_below
    | none =>
      rw [keyLines_early hheader, localizedLines_early hheader]
      exact ih

theorem length_complaints : (complaints previous body).length = body.countP isMalformed := by
  induction body generalizing previous with
  | nil => rfl
  | cons line body ih =>
    rw [complaints]
    cases hbad : isMalformed line with
    | true => rw [if_pos rfl, List.length_cons, ih, List.countP_cons_of_pos hbad]
    | false => rw [if_neg Bool.false_ne_true, ih, List.countP_cons_of_neg (by simp [hbad])]

/-- The lines above leave the key of their last good line to those below. -/
theorem complaints_append : complaints previous (body ++ rest) =
    complaints previous body ++ complaints (lastKey previous body) rest := by
  induction body generalizing previous with
  | nil => rfl
  | cons line body ih =>
    rw [List.cons_append, complaints, complaints]
    cases hbad : isMalformed line with
    | true =>
      have hlast : lastKey previous (line :: body) = lastKey previous body := by
        rw [lastKey, List.filter_cons_of_neg (by simp [hbad]), lastKey]
      rw [if_pos rfl, if_pos rfl, ih, hlast, List.cons_append]
    | false =>
      have hlast : lastKey previous (line :: body) = lastKey (keyOf line) body := by
        rw [lastKey, List.filter_cons_of_pos (by simp [hbad]), List.getLast?_cons, lastKey]
        cases (body.filter (!isMalformed ·)).getLast? <;> rfl
      rw [if_neg Bool.false_ne_true, if_neg Bool.false_ne_true, ih, hlast]

/-- A malformed line has its complaint behind those of the lines above. -/
theorem complaints_at {before after : List Text} (hbad : isMalformed line = true) :
    (complaints previous (before ++ line :: after))[before.countP isMalformed]? =
      some (complaint (lastKey previous before) line) := by
  rw [complaints_append, List.getElem?_append_right (by rw [length_complaints]), length_complaints,
    Nat.sub_self, complaints, hbad, if_pos rfl, List.getElem?_cons_zero]

/-! ## The whole file -/

/-- A file is either defined line by line or reported with all complaints. -/
theorem readLocalization_eq : f.readLocalization =
    if complaints [] (keyLines f.lines) = [] then
      finishDefinitions false ((f.localizedLines none [] f.lines).filterMap Except.toOption)
    else [f.invalidDefinition
      (.defective (unlines (complaints [] (keyLines f.lines))) none none)] := by
  unfold readLocalization
  dsimp only
  split
  · next h => rw [if_pos (complaints_eq.symm.trans h)]
  · next h =>
    rw [if_neg fun hnone => h (complaints_eq.trans hnone), ← complaints_eq]
    rfl

theorem complaints_eq_nil :
    complaints previous body = [] ↔ ∀ line ∈ body, isMalformed line = false := by
  rw [← List.length_eq_zero_iff, length_complaints, List.countP_eq_zero]
  simp only [Bool.not_eq_true]

theorem finishDefinitions_at (simple : Bool) {ds : List Definition} {d : Definition} {i : Nat}
    (h : ds[i]? = some d) : ∃ d', (finishDefinitions simple ds)[i]? = some d' ∧
      d'.kind = d.kind ∧ d'.id = d.id ∧ d'.codeTag = d.codeTag := by
  rw [finishDefinitions, List.getElem?_mapIdx, h]
  refine ⟨_, rfl, ?_⟩
  dsimp only
  split <;> exact ⟨rfl, rfl, rfl⟩

theorem trim_bareLine : trim (bareLine raw) = bareLine raw := by
  by_cases hnil : bareLine raw = []
  · rw [hnil]
    rfl
  · exact (bounded_trim hnil).trim_eq

theorem isKeyChar_keyOf (htrim : trim line = line) (hgood : isMalformed line = false) :
    ∀ c ∈ keyOf line, isKeyChar c = true := by
  simp only [isMalformed, Bool.or_eq_false_iff, lacksSeparator, hasBadKey, Bool.not_eq_false',
    List.contains_iff_mem, List.all_eq_true] at hgood
  obtain ⟨⟨hsep, hkey⟩, -⟩ := hgood
  rwa [← keyOf_condense htrim hsep hkey]

/-- Without malformed lines each key line comes to a definition. -/
theorem localizedLines_good (hgood : ∀ line ∈ keyLines f.lines, isMalformed line = false) :
    ∃ ds : List Definition, f.localizedLines none [] f.lines = ds.map Except.ok := by
  refine f.localizedLines_ok fun line hline => ?_
  rw [isWellFormed_eq, hgood line hline]
  rfl

/-- A key line of a file without malformed ones is defined, under the locale above it. -/
theorem readLocalization_at {before after : List Text}
    (hgood : ∀ line ∈ keyLines f.lines, isMalformed line = false)
    (hlines : f.lines = before ++ raw :: after) (hkey : isKeyLine (bareLine raw) = true)
    (hl : f.localeBelow before = some l) :
    ∃ d, f.readLocalization[(keyLines before).length]? = some d ∧ d.kind = .specialVariable ∧
      d.id = keyOf (bareLine raw) ∧ (∀ c ∈ d.id, isKeyChar c = true) ∧ d.codeTag = some l := by
  obtain ⟨ds, hds⟩ := localizedLines_good hgood
  obtain ⟨previous, hat⟩ := localizedLines_at hlines hkey hl
  rw [hds, List.getElem?_map, Option.map_eq_some_iff] at hat
  obtain ⟨d, hd, hok⟩ := hat
  have hcases := f.localizedLine_cases l previous (bareLine raw)
  rw [← hok] at hcases
  obtain ⟨-, herror⟩ | ⟨hline, d', hd', hkind, hid, htag⟩ := hcases
  · cases herror
  obtain rfl := Except.ok.inj hd'
  obtain ⟨d', hd', hkind', hid', htag'⟩ := finishDefinitions_at false hd
  rw [f.readLocalization_ok hds]
  refine ⟨d', hd', hkind'.trans hkind, hid'.trans hid, ?_, htag'.trans htag⟩
  rw [hid', hid]
  exact isKeyChar_keyOf trim_bareLine hline

/-- Any malformed line leaves nothing but the report of all complaints. -/
theorem readLocalization_malformed (h : ∃ line ∈ keyLines f.lines, isMalformed line = true) :
    f.readLocalization = [f.invalidDefinition
      (.defective (unlines (complaints [] (keyLines f.lines))) none none)] := by
  rw [readLocalization_eq, if_neg]
  rw [complaints_eq_nil]
  intro hgood
  obtain ⟨line, hline, hbad⟩ := h
  exact Bool.false_ne_true ((hgood line hline).symm.trans hbad)

theorem errorMessage_invalidDefinition {fault : Fault} :
    (f.invalidDefinition fault).errorMessage = some fault.message := by
  rw [invalidDefinition, Definition.addTag_eq]

/-- Without a malformed line all that is made was read. -/
theorem readLocalization_good (h : ∀ line ∈ keyLines f.lines, isMalformed line = false) :
    f.readLocalization.length = (keyLines f.lines).length ∧
      ∀ d ∈ f.readLocalization, d.kind ≠ .invalid := by
  obtain ⟨ds, hds⟩ := localizedLines_good h
  have hlength : (keyLines f.lines).length = (f.localizedLines none [] f.lines).length :=
    forall₂_localizedLines.length_eq
  rw [hds, List.length_map] at hlength
  have hreads : ∀ d ∈ ds, f.Reads d := fun d hd =>
    reads_localizedLines (hds ▸ List.mem_map_of_mem hd)
  rw [f.readLocalization_ok hds, hlength]
  exact ⟨List.length_mapIdx, fun d hd => Reads.kind_ne (reads_finishDefinitions hreads d hd).1⟩

end SourceFile

/-! ## All or nothing -/

open SourceFile

/-- **All or nothing**: one malformed key line leaves nothing of a file but what is invalid, which
has one message for each of them in order, and without one each key line is defined in its place, by
its key and the locale of the path or of the last header above it. -/
theorem readLocalization_cases (f : SourceFile) :
    ((∃ d, f.readLocalization = [d] ∧ d.kind = .invalid) ↔
      ∃ line ∈ keyLines f.lines, isMalformed line = true) ∧
    ((∃ line ∈ keyLines f.lines, isMalformed line = true) →
      ∃ d messages, f.readLocalization = [d] ∧ d.errorMessage = some (unlines messages) ∧
        messages.length = (keyLines f.lines).countP isMalformed ∧
        ∀ before line after, keyLines f.lines = before ++ line :: after → isMalformed line = true →
          messages[before.countP isMalformed]? = some (complaint (lastKey [] before) line)) ∧
    ((∀ line ∈ keyLines f.lines, isMalformed line = false) →
      f.readLocalization.length = (keyLines f.lines).length ∧
      ∀ before raw after l, f.lines = before ++ raw :: after → isKeyLine (bareLine raw) = true →
        f.localeBelow before = some l →
        ∃ d, f.readLocalization[(keyLines before).length]? = some d ∧ d.kind = .specialVariable ∧
          d.id = keyOf (bareLine raw) ∧ (∀ c ∈ d.id, isKeyChar c = true) ∧ d.codeTag = some l) := by
  refine ⟨⟨?_, fun hbad => ⟨_, readLocalization_malformed hbad, ?_⟩⟩, fun hbad => ?_,
    fun hgood => ⟨(readLocalization_good hgood).1, fun before raw after l hlines hkey hl =>
      readLocalization_at hgood hlines hkey hl⟩⟩
  · rintro ⟨d, hd, hkind⟩
    by_contra hnone
    have hgood : ∀ line ∈ keyLines f.lines, isMalformed line = false := fun line hline =>
      Bool.eq_false_iff.2 fun hbad => hnone ⟨line, hline, hbad⟩
    exact (readLocalization_good hgood).2 d (hd ▸ List.mem_singleton_self d) hkind
  · exact reports_invalidDefinition.kind
  · refine ⟨_, _, readLocalization_malformed hbad, errorMessage_invalidDefinition,
      length_complaints, fun before line after hlines hline => ?_⟩
    rw [hlines]
    exact complaints_at hline

/-- A file with a good line between two that are not. -/
example : (SourceFile.readLocalization
    { path := "localisation/names_l_english.yml"
      lines := ["l_english:", "SOL", " RIGEL:1 \"Rigel\"", "VEGA", "A B: \"x\""] }).map
        (·.errorMessage) =
    [some (unlines ["Missing separator near key: .", "Missing separator near key: RIGEL.",
      "Line contains invalid characters in key: A B."])] := by
  decide +kernel

end GameScript
