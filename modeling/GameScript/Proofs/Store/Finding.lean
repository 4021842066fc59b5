import GameScript.Proofs.Definition.Building
import GameScript.Proofs.Store.Listing

/-!
# Definitions under their own keys

A definition that was built with its setters is found under its own file, disk file, type and
`typeAndId`, as far as the indexes list it. Under its own directory it is found unless that ends
in a separator, which a look-up drops (`performAll_finds`): then the directory is among the known
ones, and what is known leads nowhere (`performAll_finds_not`).
-/

namespace GameScript

open Text

variable {path : Text} {d : Definition} {ds : List Definition}

/-- The key of a path is its small form only if it is normalized. -/
theorem pathKey_eq_lower_iff : pathKey path = lower path ↔ Path.normalize path = path := by
  constructor
  · intro h
    have hlower := Path.normalize_lower_iff.2 (Path.normalize_normalize path)
    rw [pathKey] at h
    rw [h] at hlower
    exact Path.normalize_lower_iff.1 hlower
  · intro h
    rw [pathKey, h]

theorem pathKey_ne_nil (hpath : Path.normalize path = path) (hne : path ≠ []) :
    pathKey path ≠ [] := by
  rw [pathKey_eq_lower_iff.2 hpath, Ne, lower_eq_nil]
  exact hne

/-- A directory is looked up by its key, unless it ends in a separator. -/
theorem pathKey_directory_iff (hd : d.InStep) :
    pathKey d.directory = d.directoryKey ↔ d.directory.getLast? ≠ some '/' := by
  rw [hd.directoryKey, hd.directory]
  exact pathKey_eq_lower_iff.trans Path.normalize_directory_iff

/-- So is the key of a directory itself. -/
theorem pathKey_directoryKey_iff (hd : d.InStep) :
    pathKey d.directoryKey = d.directoryKey ↔ d.directoryKey.getLast? ≠ some '/' := by
  have hslash : Caseless '/' := caseless_of_ascii (by decide) (by decide) (by decide)
  have hkey := @pathKey_eq_lower_iff d.directoryKey
  rw [hd.directoryKey, lower_lower] at hkey
  rw [hd.directoryKey, hkey, Path.normalize_lower_iff, Ne, hslash.getLast?_lower, hd.directory]
  exact Path.normalize_directory_iff

/-! ## What is found -/

/-- A definition is found under its own keys, when it is one of `ds`. -/
structure Store.Finds (s : Store) (ds : List Definition) (d : Definition) : Prop where
  byFile : d ∈ s.byFile d.file ↔ d ∈ ds
  byDirectory : d ∈ s.byDirectory d.directory ↔ d ∈ ds ∧ d.directory.getLast? ≠ some '/'
  byType : d ∈ s.byType d.type ↔ d ∈ ds
  byTypeAndId : d ∈ s.byTypeAndId d.typeAndId ↔ d ∈ ds
  byDiskFile : ∀ file ∈ d.diskFile, (d ∈ s.byDiskFile file ↔ d ∈ ds)
  hasFile : ∀ name ∈ d.file :: d.diskFile.toList ++ d.aliases .overwritten, name ≠ [] →
    s.hasFile name = true

namespace Catalog

variable {c : Catalog} {k : Stock}

theorem Tidy.hasFile_iff (hc : Tidy c) (file : Text) :
    Store.hasFile ⟨some c⟩ file = true ↔
      pathKey file ≠ [] ∧ ∃ d ∈ c.definitions, d.IsKnownAs (pathKey file) := by
  simp only [← Definition.mem_fileKeys, ← List.mem_flatMap]
  exact hc.files.contains_iff

theorem Holds.finds (hc : Holds c k) (ht : Tidy c) (hd : d ∈ c.definitions) (hbuilt : d.IsBuilt) :
    Store.Finds ⟨some c⟩ k.found d := by
  have hpaths := hbuilt.paths
  have hstep := hbuilt.inStep
  have hfileKey : d.fileKey = pathKey d.file := by
    rw [hstep.fileKey, pathKey_eq_lower_iff.2 hpaths.file]
  have hdiskFileKey : ∀ file ∈ d.diskFile, d.diskFileKey = some (pathKey file) := by
    intro file hfile
    have hnormal := hpaths.diskFile file (Option.mem_toList.2 hfile)
    rw [hstep.diskFileKey, Option.mem_def.1 hfile, pathKey_eq_lower_iff.2 hnormal]
    rfl
  constructor
  case byFile =>
    rw [hc.byFile_eq, List.mem_filter, decide_eq_true_iff]
    exact and_iff_left hfileKey
  case byDirectory =>
    rw [hc.byDirectory_eq, List.mem_filter, decide_eq_true_iff, eq_comm,
      pathKey_directory_iff hstep]
  case byType =>
    rw [hc.byType_eq, List.mem_filter, decide_eq_true_iff]
    exact and_iff_left rfl
  case byTypeAndId =>
    rw [hc.byTypeAndId_eq, List.mem_filter, decide_eq_true_iff]
    exact and_iff_left rfl
  case byDiskFile =>
    intro file hfile
    rw [hc.byDiskFile_eq, List.mem_filter, decide_eq_true_iff]
    exact and_iff_left (hdiskFileKey file hfile)
  case hasFile =>
    intro name hname hne
    rw [ht.hasFile_iff]
    rw [List.mem_append, List.mem_cons] at hname
    rcases hname with (rfl | hdisk) | halias
    · exact ⟨pathKey_ne_nil hpaths.file hne, d, hd, .inl hfileKey⟩
    · have hkey := hdiskFileKey name (Option.mem_toList.1 hdisk)
      exact ⟨pathKey_ne_nil (hpaths.diskFile name hdisk) hne, d, hd, .inr (.inl hkey)⟩
    · have hnormal := hpaths.aliases .overwritten name halias
      exact ⟨pathKey_ne_nil hnormal hne, d, hd, .inr (.inr ⟨name, halias, rfl⟩)⟩

theorem Holds.directory_leads (hc : Holds c k) {e : Definition} (he : e.InStep) :
    (∃ d ∈ Store.byDirectory ⟨some c⟩ e.directoryKey, d.directoryKey = e.directoryKey) ↔
      (∃ d ∈ k.found, d.directoryKey = e.directoryKey) ∧
        e.directoryKey.getLast? ≠ some '/' := by
  rw [← pathKey_directoryKey_iff he]
  constructor
  · rintro ⟨d, hd, hde⟩
    rw [hc.byDirectory_eq, List.mem_filter, decide_eq_true_iff] at hd
    exact ⟨⟨d, hd.1, hde⟩, hd.2.symm.trans hde⟩
  · rintro ⟨⟨d, hd, hde⟩, hpath⟩
    refine ⟨d, ?_, hde⟩
    rw [hc.byDirectory_eq, List.mem_filter, decide_eq_true_iff]
    exact ⟨hd, hde.trans hpath.symm⟩

end Catalog

/-- **A definition is found under its own keys**, after every run: under its file, its disk file,
its type and its `typeAndId` if the indexes list it, which they do for all that is stored unless an
object was removed while it was stored more than once. By its directory it is found unless that
ends in a separator, and likewise the key of a known directory of such definitions leads to the
ones in it. -/
theorem performAll_finds {ops : List Operation} (hfits : Stock.Throughout Stock.Fits {} ops) :
    ∃ s, Store.performAll {} ops = .ok s ∧
      (∀ d ∈ s.definitions, d.IsBuilt → s.Finds (Stock.afterAll {} ops).found d) ∧
      (∀ key ∈ s.directories, (∃ d ∈ s.definitions, d.IsBuilt ∧ d.directoryKey = key) →
        ((∃ d ∈ s.byDirectory key, d.directoryKey = key) ↔
          (∃ d ∈ (Stock.afterAll {} ops).found, d.directoryKey = key) ∧
            key.getLast? ≠ some '/')) ∧
      ((Stock.afterAll {} ops).found = s.definitions ↔
        Stock.Throughout Stock.TakesLast {} ops) := by
  obtain ⟨c, hrun, ht, hc, -, hall⟩ := performAll_stock hfits
  refine ⟨⟨some c⟩, hrun, fun d hd hbuilt => hc.finds ht hd hbuilt, ?_, hall⟩
  rintro _ - ⟨d, -, hbuilt, rfl⟩
  exact hc.directory_leads hbuilt.inStep

def plainFile : Definition := (({} : Definition).setFile "Common\\Ships\\A.txt\\").setId "x"

theorem performAll_finds_plainFile :
    ∃ s, Store.performAll {} [.change (.add plainFile false)] = .ok s ∧
      plainFile ∈ s.byFile plainFile.file ∧ plainFile ∈ s.byDirectory plainFile.directory := by
  have hfits : Stock.Throughout Stock.Fits {} [.change (.add plainFile false)] := by decide +kernel
  obtain ⟨s, hrun, hfinds, -, hall⟩ := performAll_finds hfits
  obtain rfl := Except.ok.inj (show Except.ok _ = Except.ok s from hrun)
  have hbuilt : plainFile.IsBuilt := .setId _ (.setFile _ .empty)
  obtain ⟨hfile, hdirectory, -, -, -, -⟩ := hfinds plainFile List.mem_cons_self hbuilt
  refine ⟨_, hrun, hfile.2 ?_, hdirectory.2 ⟨?_, ?_⟩⟩
  · decide +kernel
  · decide +kernel
  · decide +kernel

def doubledFile : Definition := (({} : Definition).setFile "a//b.txt").setId "x"

/-- A file behind a doubled separator is not found by its directory, which is known but leads
nowhere. -/
theorem performAll_finds_not :
    doubledFile.IsBuilt ∧ ∃ s, Store.performAll {} [.change (.add doubledFile false)] = .ok s ∧
      s.definitions = [doubledFile] ∧ s.byDirectory doubledFile.directory = [] ∧
      s.directories = ["a/"] ∧ s.byDirectory "a/" = [] := by
  refine ⟨.setId _ (.setFile _ .empty), _, rfl, ?_, ?_, ?_, ?_⟩
  · decide +kernel
  · decide +kernel
  · decide +kernel
  · decide +kernel

end GameScript
