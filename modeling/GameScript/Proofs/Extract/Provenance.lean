import GameScript.Extract.Classify

/-!
# The provenance of definitions

`f.Makes kind d` says that `d` is a definition of a kind with the provenance of the file `f` and a
key that names its type and id. Setters keep this, so every builder makes such a definition. What
is classified was read and not made invalid (`f.Reads`), and once numbered it is stamped
(`f.Stamped`): `stamped_extract`.
-/

namespace GameScript

open Text

/-! ## Tags

Nothing but the tags changes when tags are added. -/

theorem Definition.addTag_eq (d : Definition) (t : Text) :
    d.addTag t = { d with tags := (d.addTag t).tags } := by
  unfold addTag
  dsimp only
  split <;> rfl

theorem Definition.addTags_eq (d : Definition) (ts : List Text) :
    d.addTags ts = { d with tags := (d.addTags ts).tags } := by
  induction ts generalizing d with
  | nil => rfl
  | cons t ts ih =>
    have hstep : d.addTags (t :: ts) = (d.addTag t).addTags ts := rfl
    rw [hstep, ih, d.addTag_eq]

/-! ## Of a file -/

structure Definition.IsOf (f : SourceFile) (d : Definition) : Prop where
  file : d.file = Path.normalize f.path
  modName : d.modName = f.modName
  dependencies : d.dependencies = f.dependencies
  contentHash : d.contentHash = f.contentHash
  isFromGame : d.isFromGame = f.isFromGame
  typeAndId : d.typeAndId = d.type ++ '-' :: d.id

namespace SourceFile

structure Makes (f : SourceFile) (kind : Kind) (d : Definition) : Prop where
  isOf : d.IsOf f
  kind : d.kind = kind

def Reads (f : SourceFile) (d : Definition) : Prop := ∃ kind, kind ≠ .invalid ∧ f.Makes kind d

/-- What a list of definitions has when a file was read: they are numbered in order, all of the
file and checked alike, and what could not be read stands alone. -/
structure Stamped (f : SourceFile) (ds : List Definition) : Prop where
  order : ds.map (·.order) = List.range ds.length
  isOf : ∀ d ∈ ds, d.IsOf f
  simplyChecked : ∃ simple, ∀ d ∈ ds, d.simplyChecked = simple
  alone : (∃ d ∈ ds, d.kind = .invalid) → ds.length = 1

variable {f : SourceFile} {kind : Kind} {d : Definition} {ds : List Definition} {t : Text}

theorem Makes.reads (h : f.Makes kind d) (hkind : kind ≠ .invalid) : f.Reads d := ⟨kind, hkind, h⟩

theorem Reads.isOf (h : f.Reads d) : d.IsOf f := h.elim fun _ h => h.2.isOf

theorem Reads.kind_ne (h : f.Reads d) : d.kind ≠ .invalid := by
  obtain ⟨kind, hkind, hmakes⟩ := h
  exact hmakes.kind ▸ hkind

/-! ## Setters -/

theorem Makes.setId (h : f.Makes kind d) : f.Makes kind (d.setId t) :=
  ⟨{ h.isOf with typeAndId := rfl }, h.kind⟩

theorem Makes.setType (h : f.Makes kind d) : f.Makes kind (d.setType t) :=
  ⟨{ h.isOf with typeAndId := rfl }, h.kind⟩

theorem Makes.setCode (h : f.Makes kind d) : f.Makes kind (d.setCode t) :=
  ⟨{ h.isOf with }, h.kind⟩

theorem Makes.setVirtualPath (h : f.Makes kind d) : f.Makes kind (d.setVirtualPath t) :=
  ⟨{ h.isOf with }, h.kind⟩

theorem Makes.addTag (h : f.Makes kind d) : f.Makes kind (d.addTag t) := by
  unfold Definition.addTag
  dsimp only
  split
  · exact h
  · exact ⟨{ h.isOf with }, h.kind⟩

/-- What is noted beside the code of a definition is no part of its provenance. -/
theorem Makes.annotate {shownCode : Text} {shownId codeTag codeSeparator errorMessage : Option Text}
    {hasInlineId : Bool} {version : Int} {errorLine errorColumn : Option Nat}
    (h : f.Makes kind d) : f.Makes kind
      { d with
        shownCode := shownCode, shownId := shownId, codeTag := codeTag
        codeSeparator := codeSeparator, hasInlineId := hasInlineId, version := version
        errorLine := errorLine, errorColumn := errorColumn, errorMessage := errorMessage } :=
  ⟨{ h.isOf with }, h.kind⟩

theorem Makes.foldl {α : Type} {as : List α} {g : Definition → α → Definition}
    (hg : ∀ {d a}, f.Makes kind d → f.Makes kind (g d a)) (h : f.Makes kind d) :
    f.Makes kind (as.foldl g d) := by
  induction as generalizing d with
  | nil => exact h
  | cons a as ih => exact ih (hg h)

theorem Makes.addGenericTags {es : List Element} (h : f.Makes kind d) :
    f.Makes kind (d.addGenericTags es) :=
  h.foldl Makes.addTag

/-! ## Builders -/

theorem makes_draft : f.Makes kind (f.draft kind) := ⟨⟨rfl, rfl, rfl, rfl, rfl, rfl⟩, rfl⟩

theorem makes_simpleDefinition {id code tag : Text} :
    f.Makes kind (f.simpleDefinition kind id code tag) := by
  have h : f.Makes kind (f.draft kind) := makes_draft
  exact h.setId.setCode.addTag.annotate

theorem makes_invalidDefinition {fault : Fault} :
    f.Makes .invalid (f.invalidDefinition fault) := by
  have h : f.Makes .invalid (f.draft .invalid) := makes_draft
  exact h.setType.setId.setCode.addTag.annotate

theorem makes_wholeDefinition {s : ScriptSettings} {tagged : Bool} :
    f.Makes .wholeFile (f.wholeDefinition s tagged) := by
  unfold wholeDefinition
  dsimp only
  split
  · split
    · exact Makes.foldl (fun h => h.addTag.addGenericTags) makes_simpleDefinition
    · exact makes_simpleDefinition
  · exact makes_simpleDefinition

theorem makes_binaryDefinition : f.Makes .binary f.binaryDefinition := by
  have h : f.Makes .binary (f.draft .binary) := makes_draft
  exact h.setType.setId.setCode.addTag

theorem makes_variableDefinition {e : Element} :
    f.Makes .plainVariable (f.variableDefinition e) :=
  makes_simpleDefinition

theorem makes_objectDefinition {naming : Naming} {e : Element} {parent : Option Text} :
    f.Makes .object (f.objectDefinition naming e parent) := by
  unfold objectDefinition
  extract_lets inlineId id id' d₁ d₂ d₃
  have h₁ : f.Makes .object d₁ := Makes.setId makes_draft
  have h₂ : f.Makes .object d₂ := by
    cases parent with
    | none => exact h₁
    | some key => exact h₁.setType.annotate
  have h₃ : f.Makes .object d₃ := h₂.setCode
  exact h₃.annotate.addTag.addGenericTags

/-! ## Classifying -/

def Keeps (f : SourceFile) (naming : Naming) : Prop :=
  ∀ {d e}, f.Reads d → f.Reads (naming.adjust d e)

variable {naming : Naming} {anyOperator : Bool} {e : Element} {es : List Element}
  {parent : Option Text}

theorem reads_leafDefinition (h : f.leafDefinition anyOperator e = some d) : f.Reads d := by
  unfold leafDefinition at h
  split at h
  · obtain rfl := Option.some.inj h
    exact Makes.reads makes_variableDefinition (by decide)
  split at h
  · obtain rfl := Option.some.inj h
    exact Makes.reads makes_simpleDefinition (by decide)
  split at h
  · obtain ⟨target, -, rfl⟩ := Option.map_eq_some_iff.1 h
    have h : f.Makes .object (f.simpleDefinition .object target e.format target) :=
      makes_simpleDefinition
    exact h.annotate.reads (by decide)
  split at h
  · obtain rfl := Option.some.inj h
    exact Makes.reads makes_variableDefinition (by decide)
  · cases h

theorem reads_leafDefinitions (hk : f.Keeps naming)
    (hd : d ∈ f.leafDefinitions naming anyOperator e) : f.Reads d := by
  obtain ⟨d', hd', rfl⟩ := Option.map_eq_some_iff.1 (Option.mem_toList.1 hd)
  exact hk (reads_leafDefinition hd')

theorem reads_objectDefinitions (hk : f.Keeps naming)
    (hd : d ∈ f.objectDefinitions naming parent e) : f.Reads d := by
  rcases List.mem_cons.1 hd with rfl | hd
  · exact hk (Makes.reads makes_objectDefinition (by decide))
  · obtain ⟨v, -, rfl⟩ := List.mem_map.1 hd
    have h : f.Makes .plainVariable (f.variableDefinition v) := makes_variableDefinition
    exact h.annotate.reads (by decide)

theorem reads_rootDefinitions (hk : f.Keeps naming)
    (hd : d ∈ f.rootDefinitions naming anyOperator es) : f.Reads d := by
  obtain ⟨e, -, he⟩ := List.mem_flatMap.1 hd
  split at he
  · exact reads_leafDefinitions hk he
  · exact reads_objectDefinitions hk he

theorem reads_secondLevelDefinitions (hk : f.Keeps naming)
    (hd : d ∈ f.secondLevelDefinitions naming es) : f.Reads d := by
  obtain ⟨e, -, he⟩ := List.mem_flatMap.1 hd
  split at he
  · exact reads_leafDefinitions hk he
  · obtain ⟨child, -, hchild⟩ := List.mem_flatMap.1 he
    unfold innerDefinitions at hchild
    split at hchild
    · obtain rfl := List.mem_singleton.1 hchild
      exact hk (Makes.reads makes_variableDefinition (by decide))
    split at hchild
    · cases hchild
    · exact reads_objectDefinitions hk hchild

/-! ## Stamping -/

/-- Numbering definitions that were read leaves them so. -/
theorem reads_finishDefinitions {simple : Bool} (h : ∀ d ∈ ds, f.Reads d) :
    ∀ d ∈ finishDefinitions simple ds, f.Reads d ∧ d.simplyChecked = simple := by
  intro d hd
  obtain ⟨i, hi, rfl⟩ := List.mem_mapIdx.1 hd
  obtain ⟨kind, hkind, hold⟩ := h _ (List.getElem_mem hi)
  generalize ds[i] = d at hold ⊢
  have hnumbered : f.Makes kind { d with order := i, simplyChecked := simple } :=
    ⟨{ hold.isOf with }, hold.kind⟩
  dsimp only
  split
  · exact ⟨hnumbered.setType.reads hkind, rfl⟩
  · exact ⟨hnumbered.reads hkind, rfl⟩

theorem stamped_finishDefinitions {simple : Bool} (h : ∀ d ∈ ds, f.Reads d) :
    f.Stamped (finishDefinitions simple ds) := by
  have hreads : ∀ d ∈ finishDefinitions simple ds, f.Reads d ∧ d.simplyChecked = simple :=
    reads_finishDefinitions h
  constructor
  case order =>
    refine List.ext_getElem (by simp) fun i h₁ h₂ => ?_
    rw [List.getElem_map, List.getElem_range]
    unfold finishDefinitions
    rw [List.getElem_mapIdx]
    dsimp only
    split <;> rfl
  case isOf => exact fun d hd => (hreads d hd).1.isOf
  case simplyChecked => exact ⟨simple, fun d hd => (hreads d hd).2⟩
  case alone =>
    rintro ⟨d, hd, hinvalid⟩
    exact absurd hinvalid (hreads d hd).1.kind_ne

theorem order_addTag : (d.addTag t).order = d.order := by
  unfold Definition.addTag
  dsimp only
  split <;> rfl

theorem order_invalidDefinition {fault : Fault} : (f.invalidDefinition fault).order = 0 := by
  unfold invalidDefinition
  dsimp only
  rw [order_addTag]
  rfl

theorem stamped_invalidDefinition {fault : Fault} : f.Stamped [f.invalidDefinition fault] where
  order := by rw [List.map_singleton, order_invalidDefinition]; rfl
  isOf d hd := by
    obtain rfl := List.mem_singleton.1 hd
    exact Makes.isOf makes_invalidDefinition
  simplyChecked := ⟨_, fun d hd => congrArg _ (List.mem_singleton.1 hd)⟩
  alone _ := rfl

/-- What is done to each definition of a stamped list, without touching the stamp, leaves it
stamped. -/
theorem Stamped.map {g : Definition → Definition} (h : f.Stamped ds)
    (hisOf : ∀ {d}, d.IsOf f → (g d).IsOf f) (horder : ∀ d, (g d).order = d.order)
    (hsimple : ∀ d, (g d).simplyChecked = d.simplyChecked)
    (hkind : ∀ d, (g d).kind = .invalid → d.kind = .invalid) : f.Stamped (ds.map g) where
  order := by
    rw [List.map_map, List.length_map, ← h.order]
    exact List.map_congr_left fun d _ => horder d
  isOf d hd := by
    obtain ⟨d', hd', rfl⟩ := List.mem_map.1 hd
    exact hisOf (h.isOf d' hd')
  simplyChecked := by
    obtain ⟨simple, hall⟩ := h.simplyChecked
    refine ⟨simple, fun d hd => ?_⟩
    obtain ⟨d', hd', rfl⟩ := List.mem_map.1 hd
    exact (hsimple d').trans (hall d' hd')
  alone := by
    rintro ⟨d, hd, hinvalid⟩
    obtain ⟨d', hd', rfl⟩ := List.mem_map.1 hd
    rw [List.length_map]
    exact h.alone ⟨d', hd', hkind d' hinvalid⟩

theorem stamped_extract {s : ScriptSettings} {classify : List Element → List Definition}
    (h : ∀ es, ∀ d ∈ classify es, f.Reads d) : f.Stamped (f.extract s classify) := by
  unfold extract
  split
  · exact stamped_finishDefinitions (h _)
  · exact stamped_invalidDefinition

end SourceFile

end GameScript
