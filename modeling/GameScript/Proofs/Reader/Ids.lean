import GameScript.Proofs.Extract.Checking
import GameScript.Proofs.Reader.Complaints
import GameScript.Proofs.Script.Brackets
import GameScript.Proofs.Script.Conservation

/-!
# Which definitions have an id

Objects without a name get that of their file, as whole files and files that cannot be read do. The
ids of variables, namespaces and inline scripts are never empty, since a word has a mark. Three
readers make ids without a fallback: a value of `id` may be blank, a block may lack a key, a dotted
key may end in its dot, and a line of a localization may begin with the colon. So a built-in reader
gives an id to all that it makes of a file exactly when nothing of this is in it
(`BuiltIn.allNamed_read_iff`).
-/

namespace GameScript

open Text Lexer GameScript.Localization

/-! ## Words of a file -/

namespace Element

variable {e c : Element} {es : List Element}

def IsMarked (e : Element) : Prop := ∀ w ∈ e.words, isBlank w = false

theorem IsMarked.of_mem_children (h : e.IsMarked) (hc : c ∈ e.children) : c.IsMarked := by
  cases e with
  | leaf k o v => cases hc
  | block k o es =>
    exact fun w hw => h w (List.mem_append_right _ (mem_wordsAll.2 ⟨c, hc, hw⟩))

theorem IsMarked.key_not_blank (h : e.IsMarked) (hkey : e.key ≠ []) : isBlank e.key = false := by
  cases e with
  | leaf k o v => exact h k List.mem_cons_self
  | block k o es =>
    have hk : k ≠ [] := hkey
    exact h k (by simp [Element.words, hk])

theorem IsMarked.key_ne_nil (h : e.IsMarked) (hleaf : e.isLeaf = true) : e.key ≠ [] := by
  cases e with
  | leaf k o v =>
    rintro rfl
    exact absurd (h [] List.mem_cons_self) (by decide)
  | block k o es => cases hleaf

end Element

open GameScript.Tree in
/-- Whatever is read, and however, its words are words of the source. -/
theorem mem_kinds_of_parse {r : Rigour} {m source w : Text} {es : List Element}
    (h : parse r m source = .ok es) (hw : w ∈ Element.wordsAll es) : .word w ∈ kinds m source := by
  have hread := parse_eq_ok.1 h
  rw [readFrom] at hread
  cases hrun : run r {} (tokens m source) with
  | error misplaced =>
    rw [hrun] at hread
    cases hread
  | ok s =>
    rw [hrun] at hread
    have hstart : State.marks {} = [] := rfl
    obtain ⟨ks, hks, hkept⟩ := run_conserves hrun (by simp [hstart])
      fun hmem => ne_nil_of_mem_kinds (.inl hmem) rfl
    have hmarks : Element.marksAll es = ks := (marks_finish hread).trans hks
    rw [Element.wordsAll_eq, hmarks, hkept.words] at hw
    obtain ⟨k, hk, hword⟩ := List.mem_filterMap.1 hw
    cases k with
    | word u => exact Option.some.inj hword ▸ hk
    | _ => cases hword

theorem SourceFile.isMarked_of_elements {s : ScriptSettings} {f : SourceFile} {tree : FileTree}
    {e : Element} (h : f.elements s = .ok tree) (he : e ∈ tree.elements) : e.IsMarked := by
  intro w hw
  obtain ⟨r, hcut⟩ := cutsOff_word_of_mem_kinds (mem_kinds_of_parse
    (SourceFile.elements_unchecked h) (Element.mem_wordsAll.2 ⟨e, he, hw⟩))
  exact hcut.not_blank

/-! ## Elements that give an id -/

namespace Element

/-- Whether an element gives an id that is not blank: the sorted locales of a block, else the first
value keyed `id` in it, else the key. -/
def givesId (e : Element) : Bool :=
  locales e.children ≠ [] ||
    match e.children.findSome? idValue with
    | some id => !isBlank id
    | none => e.key ≠ []

/-- Whether the constants that an element at the top level makes have ids: a dotted key says
something behind its last dot, and the items of groups give an id. -/
def givesConstantIds (lua : Bool) (e : Element) : Bool :=
  if e.isLeaf then (splitLast '.' e.key).all fun p => !isBlank p.2
  else if lua then (e.children.filter (!·.isLeaf)).all fun table => table.children.all givesId
  else e.children.all givesId

variable {e v : Element}

theorem trim_blockId_ne_nil (h : e.IsMarked) :
    trim (blockId idValue e.children e.key) ≠ [] ↔ e.givesId = true := by
  have hblank : isBlank (blockId idValue e.children e.key) = !e.givesId := by
    unfold blockId givesId
    cases locales e.children with
    | nil =>
      cases e.children.findSome? idValue with
      | some id => simp
      | none =>
        by_cases hkey : e.key = []
        · simp [hkey, isBlank]
        · simp [hkey, h.key_not_blank hkey]
    | cons l ls => simp [isBlank, show isBlankChar '-' = false by decide]
  rw [Ne, trim_eq_nil, hblank, Bool.not_eq_true', Bool.not_eq_false]

theorem isVariable_of_mem_nestedVariables (hv : v ∈ e.nestedVariables) : v.isVariable = true := by
  rw [nestedVariables_eq] at hv
  exact (List.mem_filter.1 hv).2

theorem key_ne_nil_of_isVariable (h : e.isVariable = true) : e.key ≠ [] := by
  intro hkey
  rw [isVariable, hkey] at h
  cases hleaf : e.isLeaf <;> rw [hleaf] at h <;> cases h

end Element

/-! ## Lists of definitions -/

/-- Whether every definition has an id. -/
def AllNamed (ds : List Definition) : Prop := ∀ d ∈ ds, d.id ≠ []

variable {d : Definition} {ds : List Definition}

theorem allNamed_iff : AllNamed ds ↔ [] ∉ ds.map (·.id) := by simp [AllNamed]

@[simp] theorem allNamed_singleton : AllNamed [d] ↔ d.id ≠ [] := List.forall_mem_singleton

theorem allNamed_map {α : Type} {as : List α} {g : α → Definition} :
    AllNamed (as.map g) ↔ ∀ a ∈ as, (g a).id ≠ [] := List.forall_mem_map

theorem allNamed_flatMap {α : Type} {as : List α} {g : α → List Definition} :
    AllNamed (as.flatMap g) ↔ ∀ a ∈ as, AllNamed (g a) := by
  refine ⟨fun h a ha d hd => h d (List.mem_flatMap.2 ⟨a, ha, hd⟩), fun h d hd => ?_⟩
  obtain ⟨a, ha, hd⟩ := List.mem_flatMap.1 hd
  exact h a ha d hd

theorem AllNamed.map {g : Definition → Definition} (h : AllNamed ds) (hid : ∀ d, (g d).id = d.id) :
    AllNamed (ds.map g) :=
  allNamed_map.2 fun d hd => (hid d).symm ▸ h d hd

theorem allNamed_finishDefinitions {simple : Bool} :
    AllNamed (finishDefinitions simple ds) ↔ AllNamed ds := by
  rw [allNamed_iff, allNamed_iff]
  suffices h : (finishDefinitions simple ds).map (·.id) = ds.map (·.id) by rw [h]
  unfold finishDefinitions
  refine List.ext_getElem (by simp) fun i h₁ h₂ => ?_
  simp only [List.getElem_map, List.getElem_mapIdx]
  split <;> rfl

/-- Whether a folder leaves ids as it adjusts definitions. -/
def Naming.KeepsIds (naming : Naming) : Prop := ∀ d e, (naming.adjust d e).id = d.id

namespace SourceFile

variable {s : ReaderSettings} {f : SourceFile} {naming : Naming} {kind : Kind} {e : Element}
  {parent : Option Text} {fault : Fault}

/-! ## What builders make -/

@[simp] theorem id_addGenericTags (es : List Element) : (d.addGenericTags es).id = d.id := by
  rw [Definition.addGenericTags, Definition.addTags_eq]

theorem id_invalidDefinition : (f.invalidDefinition fault).id = f.name := by
  rw [invalidDefinition, Definition.addTag_eq]
  rfl

theorem id_binaryDefinition : f.binaryDefinition.id = f.name := by
  rw [binaryDefinition, Definition.addTag_eq]
  rfl

theorem id_wholeDefinition {s : ScriptSettings} {tagged : Bool} :
    (f.wholeDefinition s tagged).id = f.name := by
  have htagged (es : List Element) (d : Definition) :
      (es.foldl (fun d e => (d.addTag (unquote e.key)).addGenericTags e.children) d).id = d.id := by
    induction es generalizing d with
    | nil => rfl
    | cons e es ih => rw [List.foldl_cons, ih, id_addGenericTags, Definition.addTag_eq]
  unfold wholeDefinition
  dsimp only
  split
  · split
    · rw [htagged, id_simpleDefinition]
    · exact id_simpleDefinition
  · exact id_simpleDefinition

theorem id_objectDefinition : (f.objectDefinition naming e parent).id =
    let id := e.inlineScriptId.getD (naming.blockId e.children e.key)
    if id = [] then f.name else id := by
  unfold objectDefinition
  extract_lets inlineId id id' d₁ d₂ d₃
  rw [id_addGenericTags, Definition.addTag_eq]
  show d₂.id = id'
  unfold d₂
  cases parent <;> rfl

theorem id_objectDefinition_ne_nil (hname : f.name ≠ []) :
    (f.objectDefinition naming e parent).id ≠ [] := by
  rw [id_objectDefinition]
  dsimp only
  split
  · exact hname
  · next hid => exact hid

theorem id_ne_nil_of_leafDefinition {anyOperator : Bool} (hmarked : e.IsMarked)
    (hleaf : e.isLeaf = true) (h : f.leafDefinition anyOperator e = some d) : d.id ≠ [] := by
  have hvariable : (f.variableDefinition e).id ≠ [] := by
    rw [variableDefinition, id_simpleDefinition]
    exact hmarked.key_ne_nil hleaf
  unfold leafDefinition at h
  split at h
  · exact Option.some.inj h ▸ hvariable
  split at h
  · obtain rfl := Option.some.inj h
    rw [namespaceDefinition, id_simpleDefinition]
    simp
  split at h
  · obtain ⟨target, htarget, rfl⟩ := Option.map_eq_some_iff.1 h
    dsimp only
    rw [id_simpleDefinition]
    exact of_decide_eq_true (Option.filter_eq_some_iff.1 htarget).2
  split at h
  · exact Option.some.inj h ▸ hvariable
  · cases h

/-! ## Classifying -/

theorem allNamed_liftedVariables : AllNamed (f.liftedVariables e parent) := by
  refine allNamed_map.2 fun v hv => ?_
  dsimp only
  rw [variableDefinition, id_simpleDefinition]
  exact Element.key_ne_nil_of_isVariable (Element.isVariable_of_mem_nestedVariables hv)

theorem allNamed_objectDefinitions (hname : f.name ≠ []) (hk : naming.KeepsIds) :
    AllNamed (f.objectDefinitions naming parent e) := by
  refine List.forall_mem_cons.2 ⟨?_, allNamed_liftedVariables⟩
  rw [hk]
  exact id_objectDefinition_ne_nil hname

theorem allNamed_leafDefinitions {anyOperator : Bool} (hk : naming.KeepsIds) (hmarked : e.IsMarked)
    (hleaf : e.isLeaf = true) : AllNamed (f.leafDefinitions naming anyOperator e) := by
  intro d' hd'
  obtain ⟨d, hd, rfl⟩ := Option.map_eq_some_iff.1 (Option.mem_toList.1 hd')
  rw [hk]
  exact id_ne_nil_of_leafDefinition hmarked hleaf hd

variable {es : List Element} (hname : f.name ≠ []) (hk : naming.KeepsIds)
  (hmarked : ∀ e ∈ es, e.IsMarked)

include hname hk hmarked

theorem allNamed_rootDefinitions {anyOperator : Bool} :
    AllNamed (f.rootDefinitions naming anyOperator es) := by
  refine allNamed_flatMap.2 fun e he => ?_
  split
  · next hleaf => exact allNamed_leafDefinitions hk (hmarked e he) hleaf
  · exact allNamed_objectDefinitions hname hk

theorem allNamed_secondLevelDefinitions : AllNamed (f.secondLevelDefinitions naming es) := by
  refine allNamed_flatMap.2 fun e he => ?_
  split
  · next hleaf => exact allNamed_leafDefinitions hk (hmarked e he) hleaf
  refine allNamed_flatMap.2 fun c hc => ?_
  unfold innerDefinitions
  split
  · next hvariable =>
    rw [allNamed_singleton, hk, variableDefinition, id_simpleDefinition]
    exact Element.key_ne_nil_of_isVariable hvariable
  split
  · exact fun d hd => absurd hd List.not_mem_nil
  · exact allNamed_objectDefinitions hname hk

omit hname hk hmarked

/-! ## Readers of objects -/

/-- Of a file that cannot be read one definition is made, which has the name of the file. -/
theorem allNamed_extract_iff {s : ScriptSettings} {classify : List Element → List Definition}
    (hname : f.name ≠ []) : AllNamed (f.extract s classify) ↔
      ∀ tree, f.elements s = .ok tree → AllNamed (classify tree.elements) := by
  unfold extract
  cases f.elements s with
  | ok tree =>
    dsimp only
    rw [allNamed_finishDefinitions]
    exact ⟨fun h _ htree => Except.ok.inj htree ▸ h, fun h => h tree rfl⟩
  | error failure =>
    dsimp only
    rw [allNamed_singleton, id_invalidDefinition]
    refine iff_of_true hname fun tree htree => ?_
    cases htree

theorem allNamed_extractRoot {s : ScriptSettings} (hname : f.name ≠ []) (hk : naming.KeepsIds) :
    AllNamed (f.extractRoot s naming) :=
  (allNamed_extract_iff hname).2 fun _ htree =>
    allNamed_rootDefinitions hname hk fun _ he => isMarked_of_elements htree he

theorem allNamed_extractSecondLevel {s : ScriptSettings} (hname : f.name ≠ [])
    (hk : naming.KeepsIds) : AllNamed (f.extractSecondLevel s naming) :=
  (allNamed_extract_iff hname).2 fun _ htree =>
    allNamed_secondLevelDefinitions hname hk fun _ he => isMarked_of_elements htree he

theorem keepsIds_default {childId : Element → Option Text} {blockId : List Element → Text → Text} :
    Naming.KeepsIds { childId := childId, blockId := blockId } := fun _ _ => rfl

theorem keepsIds_reclassify {childId : Element → Option Text} {target : Kind} :
    Naming.KeepsIds { childId := childId, adjust := fun d _ => d.reclassify target } := by
  intro d e
  show (d.reclassify target).id = d.id
  unfold Definition.reclassify
  split <;> rfl

theorem keepsIds_mergeObject {directory : Text} :
    Naming.KeepsIds { adjust := s.mergeObject directory } := by
  intro d e
  show (s.mergeObject directory d e).id = d.id
  unfold ReaderSettings.mergeObject
  split <;> rfl

theorem allNamed_readScriptedVariables (hname : f.name ≠ []) :
    AllNamed (f.readScriptedVariables s) := by
  have h : AllNamed (f.extractAllLeaves s.script {}) := (allNamed_extract_iff hname).2
    fun _ htree => allNamed_rootDefinitions hname keepsIds_default
      fun _ he => isMarked_of_elements htree he
  refine h.map fun d => ?_
  split <;> rfl

theorem allNamed_readGraphics (hname : f.name ≠ []) : AllNamed (f.readGraphics s) := by
  have h : AllNamed (f.extractSecondLevel s.script { childId := Element.nameValue }) :=
    allNamed_extractSecondLevel hname keepsIds_default
  unfold readGraphics
  dsimp only
  split
  · exact h.map fun _ => rfl
  · exact h

/-- Objects of elements are named if these give ids. -/
theorem allNamed_readKeyValues_iff (hname : f.name ≠ []) : AllNamed (f.readKeyValues s) ↔
    ∀ tree, f.elements s.script = .ok tree → ∀ e ∈ tree.elements, e.givesId = true := by
  rw [readKeyValues, allNamed_extract_iff hname]
  refine forall₂_congr fun tree htree => allNamed_map.trans (forall₂_congr fun e he => ?_)
  dsimp only
  rw [id_addGenericTags, id_simpleDefinition]
  exact Element.trim_blockId_ne_nil (isMarked_of_elements htree he)

/-! ## Readers of whole files and lists -/

theorem allNamed_whole {simple : Bool} (hname : f.name ≠ []) (hid : d.id = f.name) :
    AllNamed (finishDefinitions simple [d]) := by
  rw [allNamed_finishDefinitions, allNamed_singleton, hid]
  exact hname

theorem allNamed_readFlags (hname : f.name ≠ []) : AllNamed (f.readFlags s) := by
  unfold readFlags
  split
  · exact allNamed_whole hname id_wholeDefinition
  · exact allNamed_whole hname id_binaryDefinition

theorem allNamed_readComponentTags : AllNamed (f.readComponentTags s) := by
  refine allNamed_finishDefinitions.2 (allNamed_map.2 fun tag htag => ?_)
  rw [id_simpleDefinition]
  exact of_decide_eq_true (List.mem_filter.1 htag).2

/-! ## Defines -/

def hasLuaDefines (f : SourceFile) : Bool := isLua f.path && f.lines ≠ []

def definesSource (s : ScriptSettings) (f : SourceFile) : SourceFile :=
  if f.hasLuaDefines then
    { f with
      lines := Lua.clean s f
      checking := if f.checking = .full then .simple else f.checking }
  else f

theorem name_definesSource {s : ScriptSettings} : (f.definesSource s).name = f.name := by
  unfold definesSource
  split <;> rfl

theorem id_constant {group id : Text} : (f.constant group id).id = trim id := by
  rw [constant, Definition.addTag_eq]
  rfl

theorem id_itemConstant_ne_nil {group : Text} (h : e.IsMarked) :
    (f.itemConstant group e).id ≠ [] ↔ e.givesId = true := by
  rw [← Element.trim_blockId_ne_nil h]
  dsimp only [itemConstant]
  rw [id_constant]

theorem allNamed_tableConstants_iff (h : e.IsMarked) : AllNamed (f.tableConstants e) ↔
    ∀ table ∈ e.children.filter (!·.isLeaf), ∀ item ∈ table.children, item.givesId = true := by
  refine allNamed_flatMap.trans (forall₂_congr fun table htable => ?_)
  have hmarked := h.of_mem_children (List.mem_filter.1 htable).1
  refine allNamed_map.trans (forall₂_congr fun item hitem => ?_)
  rw [id_addGenericTags]
  dsimp only [Definition.setCode]
  exact id_itemConstant_ne_nil (hmarked.of_mem_children hitem)

theorem allNamed_blockConstants_iff (h : e.IsMarked) : AllNamed (f.blockConstants e) ↔
    ∀ item ∈ e.children, item.givesId = true := by
  refine allNamed_map.trans (forall₂_congr fun item hitem => ?_)
  rw [id_addGenericTags]
  dsimp only [Definition.setCode]
  exact id_itemConstant_ne_nil (h.of_mem_children hitem)

theorem allNamed_constants_iff {lua : Bool} (h : e.IsMarked) :
    AllNamed (f.constants lua e) ↔ e.givesConstantIds lua = true := by
  unfold constants Element.givesConstantIds
  split
  · rw [dottedConstant]
    cases splitLast '.' e.key with
    | none => simp [AllNamed]
    | some p =>
      obtain ⟨group, id⟩ := p
      rw [Option.map_some, Option.toList_some, allNamed_singleton]
      dsimp only [Definition.setCode]
      rw [id_constant, Ne, trim_eq_nil]
      simp
  split
  · simp only [allNamed_tableConstants_iff h, List.all_eq_true]
  · simp only [allNamed_blockConstants_iff h, List.all_eq_true]

theorem allNamed_readDefines_iff (hname : f.name ≠ []) : AllNamed (f.readDefines s) ↔
    ∀ tree, (f.definesSource s.script).elements s.script = .ok tree →
      (∀ e ∈ tree.elements, e.isLeaf = true → e.operator.isSome = true) →
        ∀ e ∈ tree.elements, e.givesConstantIds f.hasLuaDefines = true := by
  have hinvalid {fault : Fault} :
      AllNamed [(f.definesSource s.script).invalidDefinition fault] := by
    rw [allNamed_singleton, id_invalidDefinition, name_definesSource]
    exact hname
  unfold readDefines
  extract_lets lua f'
  have hsource : f' = f.definesSource s.script := rfl
  have hlua : lua = f.hasLuaDefines := rfl
  clear_value f' lua
  subst hsource hlua
  cases helements : (f.definesSource s.script).elements s.script with
  | error failure =>
    refine iff_of_true hinvalid fun tree htree => ?_
    cases htree
  | ok tree =>
    have hbare : (tree.elements.any fun e => e.isLeaf && e.operator.isNone) = true ↔
        ¬ ∀ e ∈ tree.elements, e.isLeaf = true → e.operator.isSome = true := by
      simp [List.any_eq_true]
    have hfinished : AllNamed (finishDefinitions tree.simple
        (tree.elements.flatMap ((f.definesSource s.script).constants f.hasLuaDefines))) ↔
          ∀ e ∈ tree.elements, e.givesConstantIds f.hasLuaDefines = true :=
      allNamed_finishDefinitions.trans (allNamed_flatMap.trans (forall₂_congr fun e he =>
        allNamed_constants_iff (isMarked_of_elements helements he)))
    dsimp only
    split
    · next hany =>
      refine iff_of_true hinvalid fun tree' htree' hall => ?_
      obtain rfl := Except.ok.inj htree'
      exact absurd hall (hbare.1 hany)
    · next hany =>
      rw [hfinished]
      refine ⟨fun h tree' htree' _ => Except.ok.inj htree' ▸ h, fun h => h tree rfl ?_⟩
      exact not_not.1 fun hall => hany (hbare.2 hall)

/-! ## Localization -/

/-- The key of a bare line is empty if the line begins with the colon. -/
theorem keyOf_eq_nil_iff {line : Text} (htrim : trim line = line) (hne : line ≠ []) :
    keyOf line = [] ↔ line.head? = some ':' := by
  have hbounded : Bounded line := htrim ▸ bounded_trim (by rwa [htrim])
  obtain ⟨c, cs, rfl, hc⟩ := hbounded.head
  rw [keyOf, List.head?_cons, Option.some.injEq]
  by_cases hcolon : c = ':'
  · rw [hcolon, List.takeWhile_cons_of_neg (by simp)]
    exact iff_of_true rfl rfl
  · rw [List.takeWhile_cons_of_pos (by simpa using hcolon), trim_cons hc]
    exact iff_of_false (List.cons_ne_nil _ _) hcolon

theorem keyOf_eq_nil_of_mem {lines : List Text} {line : Text} (h : line ∈ keyLines lines) :
    keyOf line = [] ↔ line.head? = some ':' := by
  obtain ⟨hline, hkey⟩ := List.mem_filter.1 h
  obtain ⟨raw, -, rfl⟩ := List.mem_map.1 ((List.dropWhile_suffix _).subset hline)
  refine keyOf_eq_nil_iff trim_bareLine fun hnil => ?_
  rw [hnil] at hkey
  exact absurd hkey (by decide)

theorem allNamed_readLocalization_good
    (hgood : ∀ line ∈ keyLines f.lines, isMalformed line = false) :
    AllNamed f.readLocalization ↔ ∀ line ∈ keyLines f.lines, keyOf line ≠ [] := by
  obtain ⟨ds, hds⟩ := localizedLines_good hgood
  have houtcomes : List.Forall₂ _ (keyLines f.lines) (f.localizedLines none [] f.lines) :=
    forall₂_localizedLines
  rw [hds, List.forall₂_map_right_iff] at houtcomes
  have hkeys : List.Forall₂ (fun line d => keyOf line = d.id) (keyLines f.lines) ds := by
    refine houtcomes.imp fun line d hline => ?_
    obtain ⟨l, previous, hline⟩ := hline
    obtain ⟨-, herror⟩ | ⟨-, d', hd', -, hid, -⟩ := f.localizedLine_cases l previous line
    · cases hline.trans herror
    · cases hline.trans hd'
      exact hid.symm
  have hids : (keyLines f.lines).map keyOf = ds.map (·.id) := by
    have heq : List.Forall₂ (· = ·) ((keyLines f.lines).map keyOf) (ds.map (·.id)) :=
      List.forall₂_map_left_iff.2 (List.forall₂_map_right_iff.2 hkeys)
    rwa [List.forall₂_eq_eq_eq] at heq
  rw [f.readLocalization_ok hds, allNamed_finishDefinitions, allNamed_iff, ← hids]
  simp

theorem allNamed_readLocalization_iff (hname : f.name ≠ []) : AllNamed f.readLocalization ↔
    ((∀ line ∈ keyLines f.lines, isMalformed line = false) →
      ∀ line ∈ keyLines f.lines, line.head? ≠ some ':') := by
  by_cases hgood : ∀ line ∈ keyLines f.lines, isMalformed line = false
  · rw [allNamed_readLocalization_good hgood, forall_prop_of_true hgood]
    exact forall₂_congr fun line hline => not_congr (keyOf_eq_nil_of_mem hline)
  · have hbad : ∃ line ∈ keyLines f.lines, isMalformed line = true := by simpa using hgood
    rw [readLocalization_malformed hbad, allNamed_singleton, id_invalidDefinition]
    exact iff_of_true hname fun h => absurd h hgood

end SourceFile

/-! ## Every reader -/

namespace BuiltIn

open SourceFile

/-- What a file must have for a reader to give every definition an id. Most ask for nothing. -/
def FindsIds (s : ReaderSettings) (f : SourceFile) : BuiltIn → Prop
  | hoi4KeyValues => ∀ tree, f.elements s.script = .ok tree →
      ∀ e ∈ tree.elements, e.givesId = true
  | defines => ∀ tree, (f.definesSource s.script).elements s.script = .ok tree →
      (∀ e ∈ tree.elements, e.isLeaf = true → e.operator.isSome = true) →
        ∀ e ∈ tree.elements, e.givesConstantIds f.hasLuaDefines = true
  | localization => (∀ line ∈ keyLines f.lines, isMalformed line = false) →
      ∀ line ∈ keyLines f.lines, line.head? ≠ some ':'
  | _ => True

/-- **Which definitions have an id.** Of a file with a name, whatever the settings are and whether
it can be read or not, a built-in reader gives every definition an id, with three exceptions: the
reader of pairs for an element that gives none, the reader of defines for a dotted key with nothing
behind its last dot and for an item of a group that gives none, and the reader of localizations for
a line that begins with its colon. -/
theorem allNamed_read_iff (s : ReaderSettings) (b : BuiltIn) (f : SourceFile)
    (hname : f.name ≠ []) : (∀ d ∈ b.read s f, d.id ≠ []) ↔ b.FindsIds s f := by
  show AllNamed (b.read s f) ↔ _
  cases b with
  | hoi4KeyValues => exact allNamed_readKeyValues_iff hname
  | defines => exact allNamed_readDefines_iff hname
  | localization => exact allNamed_readLocalization_iff hname
  | stellarisOverwritten => exact iff_true_intro (allNamed_extractRoot hname keepsIds_reclassify)
  | stellarisKeptFileName => exact iff_true_intro (allNamed_extractRoot hname keepsIds_reclassify)
  | stellarisSingleFile =>
    exact iff_true_intro ((allNamed_extractRoot hname keepsIds_mergeObject).map fun _ => rfl)
  | stellarisScriptedVariables => exact iff_true_intro (allNamed_readScriptedVariables hname)
  | stellarisFlags => exact iff_true_intro (allNamed_readFlags hname)
  | stellarisComponentTags => exact iff_true_intro allNamed_readComponentTags
  | stellarisTerraform => exact iff_true_intro (allNamed_extractRoot hname keepsIds_default)
  | stellarisInitializers => exact iff_true_intro (allNamed_extractRoot hname keepsIds_default)
  | hoi4Keyed => exact iff_true_intro (allNamed_extractSecondLevel hname keepsIds_default)
  | hoi4InnerLayer => exact iff_true_intro (allNamed_extractSecondLevel hname keepsIds_default)
  | graphics => exact iff_true_intro (allNamed_readGraphics hname)
  | keyed => exact iff_true_intro (allNamed_extractRoot hname keepsIds_default)
  | fallback => exact iff_true_intro (allNamed_extractRoot hname keepsIds_default)
  | binary => exact iff_true_intro (allNamed_whole hname id_binaryDefinition)
  | stellarisWholeFile | hoi4WholeFile | wholeFile =>
    exact iff_true_intro (allNamed_whole hname id_wholeDefinition)

def tagFile : SourceFile :=
  { path := "common/country_tags/a.txt", lines := ["GER = x", "\x7b id = FRA \x7d"] }

theorem allNamed_read_iff_tagFile : tagFile.name ≠ [] ∧ hoi4KeyValues.FindsIds {} tagFile := by
  have hname : tagFile.name ≠ [] := by decide +kernel
  refine ⟨hname, (allNamed_read_iff {} hoi4KeyValues tagFile hname).1 ?_⟩
  decide +kernel

def namelessTag : SourceFile :=
  { path := "common/country_tags/a.txt", lines := ["\x7b a = 1 \x7d"] }

def namelessConstant : SourceFile := { path := "common/defines/a.txt", lines := ["A. = 1"] }

def namelessText : SourceFile :=
  { path := "localisation/a_l_english.yml", lines := ["l_english:", ":0 \"x\""] }

/-- Ids are left empty. -/
theorem exists_id_nil :
    (namelessTag.name ≠ [] ∧ ∃ d ∈ hoi4KeyValues.read {} namelessTag, d.id = []) ∧
    (namelessConstant.name ≠ [] ∧ ∃ d ∈ defines.read {} namelessConstant, d.id = []) ∧
    (namelessText.name ≠ [] ∧ ∃ d ∈ localization.read {} namelessText, d.id = []) := by
  decide +kernel

end BuiltIn

end GameScript
