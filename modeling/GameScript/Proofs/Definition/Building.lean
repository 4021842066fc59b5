import GameScript.Definition.Basic
import GameScript.Proofs.Path
import GameScript.Proofs.Store.KeyCount

/-!
# How definitions are built

A definition begins empty and is changed by its setters. What has no setter of its own may be
anything. Whatever the setters are given, what is kept beside a field stays in step with it
(`IsBuilt.inStep`), and the paths of a definition are normalized (`IsBuilt.paths`).
-/

namespace GameScript.Definition

open Text

structure SameGuarded (d e : Definition) : Prop where
  id : e.id = d.id
  type : e.type = d.type
  typeAndId : e.typeAndId = d.typeAndId
  file : e.file = d.file
  fileKey : e.fileKey = d.fileKey
  directory : e.directory = d.directory
  directoryKey : e.directoryKey = d.directoryKey
  diskFile : e.diskFile = d.diskFile
  diskFileKey : e.diskFileKey = d.diskFileKey
  virtualPath : e.virtualPath = d.virtualPath
  virtualDirectory : e.virtualDirectory = d.virtualDirectory
  additionalNames : e.additionalNames = d.additionalNames
  generatedNames : e.generatedNames = d.generatedNames
  overwrittenNames : e.overwrittenNames = d.overwrittenNames
  code : e.code = d.code
  singleLine : e.singleLine = d.singleLine
  codeHash : e.codeHash = d.codeHash
  givenHash : e.givenHash = d.givenHash
  tags : e.tags = d.tags

/-- Whether a definition can be made with the setters. -/
inductive IsBuilt : Definition → Prop where
  | empty : IsBuilt {}
  | setId {d : Definition} (id : Text) : IsBuilt d → IsBuilt (d.setId id)
  | setType {d : Definition} (type : Text) : IsBuilt d → IsBuilt (d.setType type)
  | setFile {d : Definition} (file : Text) : IsBuilt d → IsBuilt (d.setFile file)
  | setDiskFile {d : Definition} (file : Option Text) :
    IsBuilt d → IsBuilt (d.setDiskFile file)
  | setVirtualPath {d : Definition} (path : Option Text) :
    IsBuilt d → IsBuilt (d.setVirtualPath path)
  | addAlias {d : Definition} (set : AliasSet) (name : Text) :
    IsBuilt d → IsBuilt (d.addAlias set name)
  | setCode {d : Definition} (code : Text) : IsBuilt d → IsBuilt (d.setCode code)
  | setHash {d : Definition} (hash : Option Text) :
    IsBuilt d → IsBuilt { d with givenHash := hash }
  | addTag {d : Definition} (tag : Text) : IsBuilt d → IsBuilt (d.addTag tag)
  | others {d e : Definition} : d.SameGuarded e → IsBuilt d → IsBuilt e

variable {d e : Definition}

/-! ## Fields in step -/

/-- Whether what is kept beside the fields follows from them. -/
structure InStep (d : Definition) : Prop where
  fileKey : d.fileKey = lower d.file
  directory : d.directory = Path.directory d.file
  directoryKey : d.directoryKey = lower d.directory
  diskFileKey : d.diskFileKey = d.diskFile.map lower
  virtualDirectory : d.virtualDirectory = d.virtualPath.map Path.directory
  singleLine : d.singleLine = Text.singleLine d.code

theorem inStep_empty : InStep {} := ⟨rfl, rfl, rfl, rfl, rfl, rfl⟩

theorem InStep.setFile (h : d.InStep) (file : Text) : (d.setFile file).InStep :=
  { h with fileKey := rfl, directory := rfl, directoryKey := rfl }

theorem InStep.setDiskFile (h : d.InStep) (file : Option Text) : (d.setDiskFile file).InStep :=
  { h with diskFileKey := rfl }

theorem InStep.setVirtualPath (h : d.InStep) (path : Option Text) :
    (d.setVirtualPath path).InStep :=
  { h with virtualDirectory := rfl }

theorem InStep.setCode (h : d.InStep) (code : Text) : (d.setCode code).InStep :=
  { h with singleLine := rfl }

theorem InStep.addAlias (h : d.InStep) (set : AliasSet) (name : Text) :
    (d.addAlias set name).InStep := by
  rw [Definition.addAlias.eq_def]
  dsimp only
  split
  · exact h
  · cases set <;> exact { h with }

theorem InStep.addTag (h : d.InStep) (tag : Text) : (d.addTag tag).InStep := by
  rw [Definition.addTag]
  split
  · exact h
  · exact { h with }

theorem InStep.of_same (h : d.InStep) (hsame : d.SameGuarded e) : e.InStep where
  fileKey := by rw [hsame.fileKey, hsame.file, h.fileKey]
  directory := by rw [hsame.directory, hsame.file, h.directory]
  directoryKey := by rw [hsame.directoryKey, hsame.directory, h.directoryKey]
  diskFileKey := by rw [hsame.diskFileKey, hsame.diskFile, h.diskFileKey]
  virtualDirectory := by rw [hsame.virtualDirectory, hsame.virtualPath, h.virtualDirectory]
  singleLine := by rw [hsame.singleLine, hsame.code, h.singleLine]

/-- No setter leaves a field behind, in whatever order they come. -/
theorem IsBuilt.inStep (h : IsBuilt d) : d.InStep := by
  induction h with
  | empty => exact inStep_empty
  | setId id _ ih => exact { ih with }
  | setType type _ ih => exact { ih with }
  | setFile file _ ih => exact ih.setFile file
  | setDiskFile file _ ih => exact ih.setDiskFile file
  | setVirtualPath path _ ih => exact ih.setVirtualPath path
  | addAlias set name _ ih => exact ih.addAlias set name
  | setCode code _ ih => exact ih.setCode code
  | setHash hash _ ih => exact { ih with }
  | addTag tag _ ih => exact ih.addTag tag
  | others hsame _ ih => exact ih.of_same hsame

/-! ## Paths -/

def AllNormal (paths : List Text) : Prop := ∀ path ∈ paths, Path.normalize path = path

theorem allNormal_map (path : Option Text) : AllNormal (path.map Path.normalize).toList := by
  intro p hp
  obtain ⟨q, -, rfl⟩ := Option.map_eq_some_iff.1 (Option.mem_toList.1 hp)
  exact Path.normalize_normalize q

theorem AllNormal.insert {names : SortedSet} (h : AllNormal names) (name : Text) :
    AllNormal (SortedSet.insert (Path.normalize name) names) := by
  intro n hn
  rcases SortedSet.mem_insert.1 hn with rfl | hn
  · exact Path.normalize_normalize name
  · exact h n hn

theorem AllNormal.erase {names : SortedSet} (h : AllNormal names) (name : Text) :
    AllNormal (SortedSet.erase name names) :=
  fun n hn => h n (List.mem_of_mem_filter hn)

structure NormalPaths (d : Definition) : Prop where
  file : Path.normalize d.file = d.file
  diskFile : AllNormal d.diskFile.toList
  virtualPath : AllNormal d.virtualPath.toList
  additionalNames : AllNormal d.additionalNames
  generatedNames : AllNormal d.generatedNames
  overwrittenNames : AllNormal d.overwrittenNames

theorem normalPaths_empty : NormalPaths {} where
  file := rfl
  diskFile := by rintro path ⟨⟩
  virtualPath := by rintro path ⟨⟩
  additionalNames := by rintro path ⟨⟩
  generatedNames := by rintro path ⟨⟩
  overwrittenNames := by rintro path ⟨⟩

theorem NormalPaths.addAlias (h : NormalPaths d) (set : AliasSet) (name : Text) :
    NormalPaths (d.addAlias set name) := by
  by_cases hself : Path.normalize name = d.file
  · rwa [show d.addAlias set name = d from if_pos hself]
  cases set with
  | additional =>
    have hset : d.addAlias .additional name = { d with
        additionalNames := SortedSet.insert (Path.normalize name) d.additionalNames } :=
      if_neg hself
    rw [hset]
    exact { h with additionalNames := h.additionalNames.insert name }
  | generated =>
    have hset : d.addAlias .generated name = { d with
        generatedNames := SortedSet.insert (Path.normalize name) d.generatedNames } :=
      if_neg hself
    rw [hset]
    exact { h with generatedNames := h.generatedNames.insert name }
  | overwritten =>
    have hset : d.addAlias .overwritten name = { d with
        overwrittenNames := SortedSet.insert (Path.normalize name) d.overwrittenNames } :=
      if_neg hself
    rw [hset]
    exact { h with overwrittenNames := h.overwrittenNames.insert name }

theorem NormalPaths.addTag (h : NormalPaths d) (tag : Text) : NormalPaths (d.addTag tag) := by
  rw [Definition.addTag]
  split
  · exact h
  · exact { h with }

theorem NormalPaths.of_same (h : NormalPaths d) (hsame : d.SameGuarded e) : NormalPaths e where
  file := hsame.file ▸ h.file
  diskFile := hsame.diskFile ▸ h.diskFile
  virtualPath := hsame.virtualPath ▸ h.virtualPath
  additionalNames := hsame.additionalNames ▸ h.additionalNames
  generatedNames := hsame.generatedNames ▸ h.generatedNames
  overwrittenNames := hsame.overwrittenNames ▸ h.overwrittenNames

/-- The setters normalize every path that they are given. -/
theorem IsBuilt.paths (h : IsBuilt d) : NormalPaths d := by
  induction h with
  | empty => exact normalPaths_empty
  | setId id _ ih => exact { ih with }
  | setType type _ ih => exact { ih with }
  | setFile file _ ih =>
    exact { ih with
      file := Path.normalize_normalize file
      additionalNames := ih.additionalNames.erase _
      generatedNames := ih.generatedNames.erase _
      overwrittenNames := ih.overwrittenNames.erase _ }
  | setDiskFile file _ ih => exact { ih with diskFile := allNormal_map file }
  | setVirtualPath path _ ih => exact { ih with virtualPath := allNormal_map path }
  | addAlias set name _ ih => exact ih.addAlias set name
  | setCode code _ ih => exact { ih with }
  | setHash hash _ ih => exact { ih with }
  | addTag tag _ ih => exact ih.addTag tag
  | others hsame _ ih => exact ih.of_same hsame

theorem NormalPaths.aliases (h : NormalPaths d) (set : AliasSet) : AllNormal (d.aliases set) := by
  have hadded : AllNormal (d.addedNames set) := by
    cases set with
    | additional => exact h.additionalNames
    | generated => exact h.generatedNames
    | overwritten => exact h.overwrittenNames
  rw [Definition.aliases]
  split
  · exact hadded
  · have hinsert := hadded.insert d.file
    rwa [h.file] at hinsert

end GameScript.Definition
