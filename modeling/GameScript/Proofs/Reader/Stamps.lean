import GameScript.Intake
import GameScript.Proofs.Extract.Provenance
import GameScript.Proofs.Path

/-!
# What readers stamp

Whatever a built-in reader does with a file, whether it splits it into objects, goes over its lines
or takes it as a whole, and whatever it does to the definitions afterwards, they are stamped
(`BuiltIn.stamped_read`). The standard registry selects one of these readers for every file, so
all that is taken in is stamped and has the name of its reader (`Registry.read_stamped`).
-/

namespace GameScript

open Text

namespace SourceFile

variable {s : ReaderSettings} {f : SourceFile} {naming : Naming} {d : Definition}
  {ds : List Definition}

/-! ## Readers of objects -/

theorem keeps_default {childId : Element → Option Text} {blockId : List Element → Text → Text} :
    f.Keeps { childId := childId, blockId := blockId } := id

theorem Reads.reclassify {target : Kind} (h : f.Reads d) (htarget : target ≠ .invalid) :
    f.Reads (d.reclassify target) := by
  unfold Definition.reclassify
  split
  · exact ⟨target, htarget, { h.isOf with }, rfl⟩
  · exact h

theorem keeps_mergeObject : f.Keeps { adjust := s.mergeObject f.directory } := by
  intro d e h
  show f.Reads (s.mergeObject f.directory d e)
  unfold ReaderSettings.mergeObject
  split
  · exact ⟨.overwrittenSingleFile, by decide, { h.isOf with }, rfl⟩
  · exact h

theorem stamped_extractRoot {s : ScriptSettings} (hk : f.Keeps naming) :
    f.Stamped (f.extractRoot s naming) :=
  stamped_extract fun _ _ => reads_rootDefinitions hk

theorem stamped_extractSecondLevel {s : ScriptSettings} (hk : f.Keeps naming) :
    f.Stamped (f.extractSecondLevel s naming) :=
  stamped_extract fun _ _ => reads_secondLevelDefinitions hk

theorem stamped_readOverwritten : f.Stamped (f.readOverwritten s) :=
  stamped_extractRoot fun h => h.reclassify (by decide)

theorem stamped_readKeptFileName : f.Stamped (f.readKeptFileName s) :=
  stamped_extractRoot fun h => h.reclassify (by decide)

theorem stamped_readSingleFile : f.Stamped (f.readSingleFile s) :=
  (stamped_extractRoot keeps_mergeObject).map (fun h => { h with }) (fun _ => rfl)
    (fun _ => rfl) (fun _ => id)

theorem stamped_readScriptedVariables : f.Stamped (f.readScriptedVariables s) := by
  have h : f.Stamped (f.extractAllLeaves s.script {}) :=
    stamped_extract fun _ _ => reads_rootDefinitions keeps_default
  refine h.map ?isOf ?order ?simplyChecked ?kind
  case isOf =>
    intro d hd
    split
    · exact { hd with }
    · exact hd
  case order =>
    intro d
    split <;> rfl
  case simplyChecked =>
    intro d
    split <;> rfl
  case kind =>
    intro d hinvalid
    split at hinvalid
    · cases hinvalid
    · exact hinvalid

theorem stamped_readKeyValues : f.Stamped (f.readKeyValues s) := by
  refine stamped_extract fun es d hd => ?_
  obtain ⟨e, -, rfl⟩ := List.mem_map.1 hd
  exact Makes.reads (Makes.addGenericTags makes_simpleDefinition) (by decide)

theorem stamped_readGraphics : f.Stamped (f.readGraphics s) := by
  have h : f.Stamped (f.extractSecondLevel s.script { childId := Element.nameValue }) :=
    stamped_extractSecondLevel keeps_default
  unfold readGraphics
  dsimp only
  split
  · refine h.map (fun {d} hd => ?_) (fun _ => rfl) (fun _ => rfl) fun _ => id
    have hmakes : f.Makes d.kind d := ⟨hd, rfl⟩
    exact hmakes.setVirtualPath.setType.isOf
  · exact h

/-! ## Readers of whole files and lists -/

theorem stamped_whole {simple : Bool} {kind : Kind} (h : f.Makes kind d)
    (hkind : kind ≠ .invalid) : f.Stamped (finishDefinitions simple [d]) := by
  refine stamped_finishDefinitions fun d' hd => ?_
  rw [List.mem_singleton.1 hd]
  exact h.reads hkind

theorem stamped_readFlags : f.Stamped (f.readFlags s) := by
  unfold readFlags
  split
  · exact stamped_whole makes_wholeDefinition (by decide)
  · exact stamped_whole makes_binaryDefinition (by decide)

theorem stamped_readComponentTags : f.Stamped (f.readComponentTags s) := by
  refine stamped_finishDefinitions fun d hd => ?_
  obtain ⟨tag, -, rfl⟩ := List.mem_map.1 hd
  exact Makes.reads makes_simpleDefinition (by decide)

/-! ## Defines -/

theorem makes_constant {group id : Text} :
    f.Makes .specialVariable (f.constant group id) := by
  have h : f.Makes .specialVariable (f.draft .specialVariable) := makes_draft
  exact h.setType.setId.addTag

theorem makes_itemConstant {group : Text} {item : Element} :
    f.Makes .specialVariable (f.itemConstant group item) :=
  Makes.annotate makes_constant

theorem reads_constants {lua : Bool} {e : Element} (hd : d ∈ f.constants lua e) : f.Reads d := by
  suffices hmakes : f.Makes .specialVariable d from hmakes.reads (by decide)
  unfold constants at hd
  split at hd
  · obtain ⟨⟨group, id⟩, -, rfl⟩ := Option.map_eq_some_iff.1 (Option.mem_toList.1 hd)
    exact Makes.annotate (Makes.setCode makes_constant)
  split at hd
  · obtain ⟨table, -, htable⟩ := List.mem_flatMap.1 hd
    obtain ⟨item, -, rfl⟩ := List.mem_map.1 htable
    exact Makes.addGenericTags (Makes.annotate (Makes.setCode makes_itemConstant))
  · obtain ⟨item, -, rfl⟩ := List.mem_map.1 hd
    exact Makes.addGenericTags (Makes.annotate (Makes.setCode makes_itemConstant))

/-- What is stamped does not depend on the lines or on how they are checked. -/
theorem Stamped.ofLines (lines : List Text) (checking : Checking)
    (h : { f with lines := lines, checking := checking }.Stamped ds) : f.Stamped ds :=
  ⟨h.order, fun d hd => { h.isOf d hd with }, h.simplyChecked, h.alone⟩

theorem stamped_readDefines : f.Stamped (f.readDefines s) := by
  unfold readDefines
  extract_lets lua f'
  have hlines : ∃ lines checking, f' = { f with lines := lines, checking := checking } := by
    cases hlua : lua with
    | true => exact ⟨_, _, if_pos hlua⟩
    | false => exact ⟨_, _, if_neg (by simp [hlua])⟩
  clear_value f'
  obtain ⟨lines, checking, rfl⟩ := hlines
  refine Stamped.ofLines lines checking ?_
  split
  · exact stamped_invalidDefinition
  split
  · exact stamped_invalidDefinition
  · refine stamped_finishDefinitions fun d hd => ?_
    obtain ⟨e, -, he⟩ := List.mem_flatMap.1 hd
    exact reads_constants he

/-! ## Localization -/

theorem makes_localized {locale code : Text} {version : Int} :
    f.Makes .specialVariable (f.localized locale code version) := by
  have h : f.Makes .specialVariable (f.draft .specialVariable) := makes_draft
  exact h.setType.setVirtualPath.setCode.setId.addTag.annotate

theorem reads_localizedLine {locale previous line : Text}
    (h : f.localizedLine locale previous line = .ok d) : f.Reads d := by
  unfold localizedLine at h
  split at h
  · cases h
  · cases hcode : Localization.codeAndVersion line with
    | error message => rw [hcode] at h; cases h
    | ok p =>
      rw [hcode] at h
      obtain rfl := Except.ok.inj h
      exact Makes.reads makes_localized (by decide)

theorem reads_localizedLines {lines : List Text} {locale : Option Text} {previous : Text}
    (hd : .ok d ∈ f.localizedLines locale previous lines) : f.Reads d := by
  induction lines generalizing locale previous with
  | nil => cases hd
  | cons raw rest ih =>
    unfold localizedLines at hd
    dsimp only at hd
    split at hd
    · exact ih hd
    split at hd
    · exact ih hd
    · exact ih hd
    split at hd
    · next hline =>
      rcases List.mem_cons.1 hd with hok | hrest
      · obtain rfl := Except.ok.inj hok
        exact reads_localizedLine hline
      · exact ih hrest
    · rcases List.mem_cons.1 hd with hok | hrest
      · cases hok
      · exact ih hrest

theorem reads_of_mem_outcomes {lines : List Text} {locale : Option Text} {previous : Text}
    (hd : d ∈ (f.localizedLines locale previous lines).filterMap Except.toOption) : f.Reads d := by
  obtain ⟨outcome, houtcome, hsome⟩ := List.mem_filterMap.1 hd
  cases outcome with
  | error message => cases hsome
  | ok d' =>
    obtain rfl := Option.some.inj hsome
    exact reads_localizedLines houtcome

theorem stamped_readLocalization : f.Stamped f.readLocalization := by
  unfold readLocalization
  dsimp only
  split
  · exact stamped_finishDefinitions fun d hd => reads_of_mem_outcomes hd
  · exact stamped_invalidDefinition

end SourceFile

/-! ## The built-in readers and their registry -/

open SourceFile

theorem BuiltIn.stamped_read (s : ReaderSettings) (b : BuiltIn) (f : SourceFile) :
    f.Stamped (b.read s f) := by
  cases b with
  | stellarisOverwritten => exact stamped_readOverwritten
  | stellarisKeptFileName => exact stamped_readKeptFileName
  | stellarisSingleFile => exact stamped_readSingleFile
  | stellarisScriptedVariables => exact stamped_readScriptedVariables
  | stellarisWholeFile => exact stamped_whole makes_wholeDefinition (by decide)
  | stellarisFlags => exact stamped_readFlags
  | stellarisComponentTags => exact stamped_readComponentTags
  | stellarisTerraform => exact stamped_extractRoot keeps_default
  | stellarisInitializers => exact stamped_extractRoot keeps_default
  | hoi4Keyed => exact stamped_extractSecondLevel keeps_default
  | hoi4InnerLayer => exact stamped_extractSecondLevel keeps_default
  | hoi4KeyValues => exact stamped_readKeyValues
  | hoi4WholeFile => exact stamped_whole makes_wholeDefinition (by decide)
  | graphics => exact stamped_readGraphics
  | defines => exact stamped_readDefines
  | localization => exact stamped_readLocalization
  | wholeFile => exact stamped_whole makes_wholeDefinition (by decide)
  | binary => exact stamped_whole makes_binaryDefinition (by decide)
  | keyed => exact stamped_extractRoot keeps_default
  | fallback => exact stamped_extractRoot keeps_default

namespace Registry

variable {r : Registry} {rs : List Reader} {best : Reader} {c : Candidate}

theorem mem_of_foremost (h : foremost rs = some best) : best ∈ rs := by
  induction rs generalizing best with
  | nil => cases h
  | cons r rs ih =>
    unfold foremost at h
    split at h
    · next other hother =>
      split at h
      · obtain rfl := Option.some.inj h
        exact List.mem_cons_of_mem _ (ih hother)
      · obtain rfl := Option.some.inj h
        exact List.mem_cons_self
    · obtain rfl := Option.some.inj h
      exact List.mem_cons_self

theorem mem_of_choose (h : choose rs c = some best) : best ∈ rs :=
  (List.mem_filter.1 (mem_of_foremost h)).1

theorem select_mem (r : Registry) (c : Candidate) : r.select c ∈ r.readers := by
  unfold select readers
  cases hgame : choose r.game c with
  | some best => exact List.mem_append_left _ (List.mem_append_left _ (mem_of_choose hgame))
  | none =>
    cases hgeneral : choose r.general c with
    | some best => exact List.mem_append_left _ (List.mem_append_right _ (mem_of_choose hgeneral))
    | none => exact List.mem_append_right _ List.mem_cons_self

theorem mem_readers_register {reader : Reader} (h : best ∈ (r.register reader).readers) :
    best ∈ r.readers ∨ best = reader := by
  unfold register at h
  split at h <;> simp only [readers, List.mem_append, List.mem_singleton] at h ⊢ <;> tauto

theorem mem_readers_standard {s : ReaderSettings} (h : best ∈ (standard s).readers) :
    ∃ b : BuiltIn, best = b.reader s := by
  have hfold : ∀ (bs : List BuiltIn) (r : Registry),
      (∀ x ∈ r.readers, ∃ b : BuiltIn, x = b.reader s) →
      ∀ x ∈ (bs.foldl (fun r b => r.register (b.reader s)) r).readers,
        ∃ b : BuiltIn, x = b.reader s := by
    intro bs
    induction bs with
    | nil => exact fun r hr => hr
    | cons b bs ih =>
      refine fun r hr => ih _ fun x hx => ?_
      rcases mem_readers_register hx with hx | rfl
      · exact hr x hx
      · exact ⟨b, rfl⟩
  refine hfold _ _ (fun x hx => ?_) best h
  exact ⟨.fallback, List.mem_singleton.1 hx⟩

/-- What is read by a built-in reader is stamped, and has the name of the reader. -/
theorem stamped_read {s : ReaderSettings} {f : GameFile} {b : BuiltIn}
    (hb : r.select f.candidate = b.reader s) :
    f.source.Stamped (r.read f) ∧ ∀ d ∈ r.read f, d.reader = some (b.reader s).name := by
  have hread : r.read f =
      (b.read s f.source).map ({ · with reader := some (b.reader s).name }) := by
    rw [read, hb]
    rfl
  rw [hread]
  refine ⟨?_, fun d hd => ?_⟩
  · exact (b.stamped_read s f.source).map (fun h => { h with }) (fun _ => rfl) (fun _ => rfl)
      fun _ => id
  · obtain ⟨d', -, rfl⟩ := List.mem_map.1 hd
    rfl

/-- **Every reader stamps its results consistently.** Whatever the settings, the game and the
file, which has a normalized path, one of the built-in readers is selected. Its definitions are
numbered in order, all of the file and checked alike, with the name of the reader, and one that
stands for a file that could not be read stands alone. -/
theorem read_stamped (s : ReaderSettings) (source : SourceFile) (path : Text) (game : Game) :
    let f : GameFile := ⟨{ source with path := Path.normalize path }, game⟩
    (∃ b : BuiltIn, (standard s).select f.candidate = b.reader s) ∧
      f.source.Stamped ((standard s).read f) ∧
      ∀ d ∈ (standard s).read f, d.file = f.source.path ∧
        d.reader = some ((standard s).select f.candidate).name := by
  intro f
  obtain ⟨b, hb⟩ := mem_readers_standard (select_mem (standard s) f.candidate)
  obtain ⟨hstamped, hname⟩ := stamped_read hb
  refine ⟨⟨b, hb⟩, hstamped, fun d hd => ⟨?_, ?_⟩⟩
  · exact (hstamped.isOf d hd).file.trans (Path.normalize_normalize path)
  · rw [hb]
    exact hname d hd

end Registry

end GameScript
