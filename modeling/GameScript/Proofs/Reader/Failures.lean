import GameScript.Proofs.Extract.Completeness
import GameScript.Proofs.Reader.Stamps

/-!
# What is told of a file that cannot be read

A file that a built-in reader cannot read becomes one definition with the name of the file as its
id, a message, a type and a text (`BuiltIn.read_failed`). The type is that of what is invalid in the
directory of the file, and the text is that of the file, with two exceptions (`read_failed_not`): in
a `replace` folder the graphics reader gives what is invalid the type of what could be read, and of
defines in Lua the cleaned text is told.
-/

namespace GameScript

open Text

/-! ## Types of what is invalid -/

namespace Path

variable {p q : Text}

theorem typeSuffix_isSuffix : typeSuffix p <:+ typeLabel p none := by
  unfold typeLabel
  dsimp only
  split
  · exact List.suffix_refl _
  · exact (List.suffix_cons _ _).trans (List.suffix_append _ _)

theorem invalid_isSuffix : ("invalid" : Text) <:+ typeLabel q (some "invalid") := by
  unfold typeLabel
  dsimp only
  split
  · exact List.suffix_refl _
  · exact (List.suffix_cons _ _).trans (List.suffix_append _ _)

/-- No file that can be read has the type of what is invalid. -/
theorem typeLabel_ne_invalid : typeLabel p none ≠ typeLabel q (some "invalid") := by
  have hall : ∀ e ∈ textExtensions, ¬ e.dropWhile (· == '.') <:+ ("invalid" : Text) ∧
      ¬ ("invalid" : Text) <:+ e.dropWhile (· == '.') := by
    decide
  have hsuffix : ¬ typeSuffix p <:+ ("invalid" : Text) ∧ ¬ ("invalid" : Text) <:+ typeSuffix p := by
    unfold typeSuffix
    split
    · next h => exact hall _ (List.contains_iff_mem.1 h)
    · decide
  intro heq
  have hleft := typeSuffix_isSuffix (p := p)
  rw [heq] at hleft
  rcases List.suffix_or_suffix_of_suffix hleft invalid_isSuffix with h | h
  · exact hsuffix.1 h
  · exact hsuffix.2 h

end Path

/-! ## Reports -/

structure Definition.Reports (id type text : Text) (d : Definition) : Prop where
  kind : d.kind = .invalid
  id : d.id = id
  type : d.type = type
  shownCode : d.shownCode = text
  errorMessage : d.errorMessage.isSome

namespace SourceFile

/-- Whether an invalid definition among these is the only one, and reports the file. -/
def FailsAs (f : SourceFile) (type text : Text) (ds : List Definition) : Prop :=
  ∀ d ∈ ds, d.kind = .invalid → ds = [d] ∧ d.Reports f.name type text

def failureType (f : SourceFile) (b : BuiltIn) : Text :=
  match b, f.replacedDirectory? with
  | .graphics, some target => Path.typeLabel (target ++ '/' :: f.name) none
  | _, _ => Path.typeLabel f.path (some "invalid")

def failureText (f : SourceFile) (s : ReaderSettings) (b : BuiltIn) : Text :=
  if b = .defines ∧ isLua f.path ∧ f.lines ≠ [] then unlines (Lua.clean s.script f) else f.text

variable {s : ReaderSettings} {f : SourceFile} {naming : Naming} {d : Definition}
  {ds : List Definition} {type type' text : Text} {fault : Fault}

theorem reports_invalidDefinition : (f.invalidDefinition fault).Reports f.name
    (Path.typeLabel f.path (some "invalid")) f.text := by
  rw [invalidDefinition, Definition.addTag_eq]
  exact ⟨rfl, rfl, rfl, rfl, rfl⟩

theorem failsAs_invalidDefinition :
    f.FailsAs (Path.typeLabel f.path (some "invalid")) f.text [f.invalidDefinition fault] := by
  intro d hd _
  obtain rfl := List.mem_singleton.1 hd
  exact ⟨rfl, reports_invalidDefinition⟩

theorem failsAs_finishDefinitions {simple : Bool} (h : ∀ d ∈ ds, f.Reads d) :
    f.FailsAs type text (finishDefinitions simple ds) :=
  fun d hd hinvalid => absurd hinvalid (reads_finishDefinitions h d hd).1.kind_ne

theorem FailsAs.map {g : Definition → Definition} (h : f.FailsAs type text ds)
    (hkind : ∀ d, (g d).kind = .invalid → d.kind = .invalid)
    (hreports : ∀ {d}, d.Reports f.name type text → (g d).Reports f.name type' text) :
    f.FailsAs type' text (ds.map g) := by
  intro d' hd' hinvalid
  obtain ⟨d, hd, rfl⟩ := List.mem_map.1 hd'
  obtain ⟨honly, hd⟩ := h d hd (hkind d hinvalid)
  rw [honly]
  exact ⟨rfl, hreports hd⟩

theorem failsAs_extract {s : ScriptSettings} {classify : List Element → List Definition}
    (h : ∀ es, ∀ d ∈ classify es, f.Reads d) :
    f.FailsAs (Path.typeLabel f.path (some "invalid")) f.text (f.extract s classify) := by
  unfold extract
  split
  · exact failsAs_finishDefinitions (h _)
  · exact failsAs_invalidDefinition

theorem failsAs_extractRoot {s : ScriptSettings} (hk : f.Keeps naming) :
    f.FailsAs (Path.typeLabel f.path (some "invalid")) f.text (f.extractRoot s naming) :=
  failsAs_extract fun _ _ => reads_rootDefinitions hk

theorem failsAs_extractSecondLevel {s : ScriptSettings} (hk : f.Keeps naming) :
    f.FailsAs (Path.typeLabel f.path (some "invalid")) f.text (f.extractSecondLevel s naming) :=
  failsAs_extract fun _ _ => reads_secondLevelDefinitions hk

theorem failsAs_whole {simple : Bool} {kind : Kind} (h : f.Makes kind d)
    (hkind : kind ≠ .invalid) : f.FailsAs type text (finishDefinitions simple [d]) := by
  refine failsAs_finishDefinitions fun d' hd => ?_
  rw [List.mem_singleton.1 hd]
  exact h.reads hkind

/-! ## Readers that do more -/

theorem failsAs_readScriptedVariables :
    f.FailsAs (Path.typeLabel f.path (some "invalid")) f.text (f.readScriptedVariables s) := by
  have h : f.FailsAs (Path.typeLabel f.path (some "invalid")) f.text
      (f.extractAllLeaves s.script {}) :=
    failsAs_extract fun _ _ => reads_rootDefinitions keeps_default
  refine h.map (fun d hinvalid => ?_) fun {d} hd => ?_
  · split at hinvalid
    · cases hinvalid
    · exact hinvalid
  · rw [if_neg (by simp [hd.kind])]
    exact hd

theorem failsAs_readGraphics :
    f.FailsAs (f.failureType .graphics) f.text (f.readGraphics s) := by
  have h : f.FailsAs (Path.typeLabel f.path (some "invalid")) f.text
      (f.extractSecondLevel s.script { childId := Element.nameValue }) :=
    failsAs_extractSecondLevel keeps_default
  unfold readGraphics failureType
  cases f.replacedDirectory? with
  | some target => exact h.map (fun _ => id) fun hd => { hd with type := rfl }
  | none => exact h

theorem failsAs_readDefines :
    f.FailsAs (Path.typeLabel f.path (some "invalid")) (f.failureText s .defines)
      (f.readDefines s) := by
  unfold readDefines
  extract_lets lua f'
  -- the file that is read, and what it says of itself
  have hname : f'.name = f.name ∧ f'.path = f.path ∧ f'.text = f.failureText s .defines := by
    unfold failureText
    have hlua : (BuiltIn.defines = .defines ∧ isLua f.path = true ∧ f.lines ≠ []) ↔ lua = true := by
      simp [lua]
    rw [if_congr hlua rfl rfl]
    by_cases hlua : lua = true
    · rw [if_pos hlua, show f' = _ from if_pos hlua]
      exact ⟨rfl, rfl, rfl⟩
    · rw [if_neg hlua, show f' = f from if_neg hlua]
      exact ⟨rfl, rfl, rfl⟩
  clear_value f'
  obtain ⟨hname, hpath, htext⟩ := hname
  have hinvalid {fault : Fault} : f.FailsAs (Path.typeLabel f.path (some "invalid"))
      (f.failureText s .defines) [f'.invalidDefinition fault] := by
    have h : f'.FailsAs _ _ [f'.invalidDefinition fault] := failsAs_invalidDefinition
    rwa [FailsAs, hname, hpath, htext] at h
  split
  · exact hinvalid
  split
  · exact hinvalid
  · intro d hd hkind
    refine absurd hkind (Reads.kind_ne (f := f') (reads_finishDefinitions (fun d hd => ?_) d hd).1)
    obtain ⟨e, -, he⟩ := List.mem_flatMap.1 hd
    exact reads_constants he

theorem failsAs_readLocalization :
    f.FailsAs (Path.typeLabel f.path (some "invalid")) f.text f.readLocalization := by
  unfold readLocalization
  dsimp only
  split
  · exact failsAs_finishDefinitions fun d hd => reads_of_mem_outcomes hd
  · exact failsAs_invalidDefinition

end SourceFile

/-! ## Every reader -/

open SourceFile

theorem BuiltIn.failsAs_read (s : ReaderSettings) (b : BuiltIn) (f : SourceFile) :
    f.FailsAs (f.failureType b) (f.failureText s b) (b.read s f) := by
  cases b with
  | stellarisOverwritten => exact failsAs_extractRoot fun h => h.reclassify (by decide)
  | stellarisKeptFileName => exact failsAs_extractRoot fun h => h.reclassify (by decide)
  | stellarisSingleFile =>
    exact (failsAs_extractRoot keeps_mergeObject).map (fun _ => id) fun hd => { hd with }
  | stellarisScriptedVariables => exact failsAs_readScriptedVariables
  | stellarisWholeFile => exact failsAs_whole makes_wholeDefinition (by decide)
  | stellarisFlags =>
    show f.FailsAs _ _ (f.readFlags s)
    unfold readFlags
    split
    · exact failsAs_whole makes_wholeDefinition (by decide)
    · exact failsAs_whole makes_binaryDefinition (by decide)
  | stellarisComponentTags =>
    refine failsAs_finishDefinitions fun d hd => ?_
    obtain ⟨tag, -, rfl⟩ := List.mem_map.1 hd
    exact Makes.reads makes_simpleDefinition (by decide)
  | stellarisTerraform => exact failsAs_extractRoot keeps_default
  | stellarisInitializers => exact failsAs_extractRoot keeps_default
  | hoi4Keyed => exact failsAs_extractSecondLevel keeps_default
  | hoi4InnerLayer => exact failsAs_extractSecondLevel keeps_default
  | hoi4KeyValues =>
    refine failsAs_extract fun es d hd => ?_
    obtain ⟨e, -, rfl⟩ := List.mem_map.1 hd
    exact Makes.reads (Makes.addGenericTags makes_simpleDefinition) (by decide)
  | hoi4WholeFile => exact failsAs_whole makes_wholeDefinition (by decide)
  | graphics => exact failsAs_readGraphics
  | defines => exact failsAs_readDefines
  | localization => exact failsAs_readLocalization
  | wholeFile => exact failsAs_whole makes_wholeDefinition (by decide)
  | binary => exact failsAs_whole makes_binaryDefinition (by decide)
  | keyed => exact failsAs_extractRoot keeps_default
  | fallback => exact failsAs_extractRoot keeps_default

/-- **A file that cannot be read is reported alike by every reader**, by one definition with the
name of the file as its id and a message. Its type is that of what is invalid in the directory of
the file, unless the graphics reader reads it in a `replace` folder; it has the text of the file, or
for defines in Lua the text that was made of it. -/
theorem BuiltIn.read_failed {s : ReaderSettings} {b : BuiltIn} {f : SourceFile} {d : Definition}
    (hd : d ∈ b.read s f) (hinvalid : d.kind = .invalid) :
    b.read s f = [d] ∧ d.id = f.name ∧ d.errorMessage.isSome ∧
      d.type = f.failureType b ∧ d.shownCode = f.failureText s b ∧
      (d.type = Path.typeLabel f.path (some "invalid") ↔
        ¬ (b = .graphics ∧ f.replacedDirectory?.isSome)) := by
  obtain ⟨honly, hreports⟩ := b.failsAs_read s f d hd hinvalid
  refine ⟨honly, hreports.id, hreports.errorMessage, hreports.type, hreports.shownCode, ?_⟩
  rw [hreports.type]
  unfold failureType
  split
  · next target htarget =>
    exact iff_of_false Path.typeLabel_ne_invalid fun h => h ⟨rfl, by rw [htarget]; rfl⟩
  · next hother =>
    refine iff_of_true rfl ?_
    rintro ⟨rfl, hsome⟩
    obtain ⟨target, htarget⟩ := Option.isSome_iff_exists.1 hsome
    exact hother target rfl htarget

def openWindow : SourceFile := { path := "interface/replace/main.gui", lines := ["windows = \x7b"] }

def bareDefines : SourceFile := { path := "common/defines/a.lua", lines := ["NGame, -- none"] }

theorem BuiltIn.read_failed_openWindow : ∃ d ∈ BuiltIn.graphics.read {} openWindow,
    d.kind = .invalid ∧ BuiltIn.graphics.read {} openWindow = [d] ∧ d.id = ("main.gui" : Text) ∧
      d.shownCode = openWindow.text := by
  have hany : (BuiltIn.graphics.read {} openWindow).any (·.kind = .invalid) = true := by
    decide +kernel
  obtain ⟨d, hd, hkind⟩ := List.any_eq_true.1 hany
  obtain ⟨honly, hid, -, -, htext, -⟩ := BuiltIn.read_failed hd (of_decide_eq_true hkind)
  exact ⟨d, hd, of_decide_eq_true hkind, honly, hid, htext⟩

/-- The type and the text are not always those of the file. -/
theorem BuiltIn.read_failed_not :
    (∃ d ∈ BuiltIn.graphics.read {} openWindow, d.kind = .invalid ∧
      d.type = ("interface/gui" : Text) ∧
      Path.typeLabel openWindow.path (some "invalid") = ("interface/replace/invalid" : Text)) ∧
    ∃ d ∈ BuiltIn.defines.read {} bareDefines, d.kind = .invalid ∧
      d.shownCode = ("NGame" : Text) ∧ bareDefines.text = ("NGame, -- none" : Text) := by
  have hwindow : (BuiltIn.graphics.read {} openWindow).any (fun d => d.kind = .invalid ∧
      d.type = ("interface/gui" : Text)) = true := by
    decide +kernel
  have hdefines : (BuiltIn.defines.read {} bareDefines).any (fun d => d.kind = .invalid ∧
      d.shownCode = ("NGame" : Text)) = true := by
    decide +kernel
  obtain ⟨d, hd, hfails⟩ := List.any_eq_true.1 hwindow
  obtain ⟨hkind, htype⟩ := of_decide_eq_true hfails
  obtain ⟨d', hd', hfails'⟩ := List.any_eq_true.1 hdefines
  obtain ⟨hkind', htext⟩ := of_decide_eq_true hfails'
  exact ⟨⟨d, hd, hkind, htype, by decide⟩, d', hd', hkind', htext, by decide⟩

end GameScript
