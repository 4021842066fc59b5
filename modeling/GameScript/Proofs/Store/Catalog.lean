import GameScript.Proofs.Store.Index
import GameScript.Proofs.Store.KeyCount
import GameScript.Store.Catalog

/-!
# The parts of a catalog are in step

`c.InStep` says that every index, every count of keys and the number of definitions from the game
are what the entries of `c` make them. It holds of the empty catalog, and adding and removing
keep it. Of the tags and the outline it says nothing.
-/

namespace GameScript.Catalog

variable {c : Catalog} {h : Handle} {d : Definition} {e : Entry} {l₁ l₂ : List Entry}
  {hidden : Bool}

def handles (c : Catalog) : List Handle := c.entries.map (·.handle)

structure InStep (c : Catalog) : Prop where
  distinct : (c.handles.map (·.number)).Nodup
  fresh : ∀ h ∈ c.handles, h.number < c.next
  byFile : c.byFile.Lists (fun d => some d.fileKey) c.handles
  byDiskFile : c.byDiskFile.Lists Definition.diskFileKey c.handles
  byDirectory : c.byDirectory.Lists (fun d => some d.directoryKey) c.handles
  byType : c.byType.Lists (fun d => some d.typeKey) c.handles
  byTypeAndId : c.byTypeAndId.Lists (fun d => some d.typeAndId) c.handles
  byKind : c.byKind.Lists (fun d => some d.kind) c.handles
  files : c.files.Counts (c.definitions.flatMap Definition.fileKeys)
  types : c.types.Counts (c.definitions.flatMap fun d => [d.typeKey])
  typeAndIds : c.typeAndIds.Counts (c.definitions.flatMap fun d => [d.typeAndId])
  directories : c.directories.Counts (c.definitions.flatMap fun d => [d.directoryKey])
  fromGame : c.fromGame = c.definitions.countP (·.isFromGame)

theorem definitions_eq : c.definitions = c.handles.map (·.definition) := by
  rw [definitions, handles, List.map_map]
  rfl

theorem inStep_empty : InStep {} where
  distinct := List.nodup_nil
  fresh := by rintro h ⟨⟩
  byFile := Index.lists_nil
  byDiskFile := Index.lists_nil
  byDirectory := Index.lists_nil
  byType := Index.lists_nil
  byTypeAndId := Index.lists_nil
  byKind := Index.lists_nil
  files := KeySet.counts_nil
  types := KeySet.counts_nil
  typeAndIds := KeySet.counts_nil
  directories := KeySet.counts_nil
  fromGame := rfl

/-! ## Adding -/

@[simp] theorem handles_insert : (c.insert h hidden).handles = c.handles ++ [h] := by
  simp [handles, insert]

@[simp]
theorem definitions_insert : (c.insert h hidden).definitions = c.definitions ++ [h.definition] := by
  simp [definitions, insert]

/-- Numbers stay below the next one. -/
theorem fresh_insert (hfresh : ∀ g ∈ c.handles, g.number < c.next) :
    ∀ g ∈ (c.insert h hidden).handles, g.number < (c.insert h hidden).next := by
  intro g hg
  rw [handles_insert, List.mem_append, List.mem_singleton] at hg
  show g.number < max c.next (h.number + 1)
  rcases hg with hg | rfl
  · have := hfresh g hg
    omega
  · omega

theorem fromGame_insert (hgame : c.fromGame = c.definitions.countP (·.isFromGame)) :
    (c.insert h hidden).fromGame = (c.insert h hidden).definitions.countP (·.isFromGame) := by
  rw [definitions_insert, List.countP_append, List.countP_singleton, ← hgame]
  cases hg : h.definition.isFromGame <;> simp [Catalog.insert, hg]

theorem InStep.insert (hc : InStep c) (hn : c.next ≤ h.number) : InStep (c.insert h hidden) where
  distinct := by
    rw [handles_insert, List.map_append, List.map_singleton, List.nodup_append]
    refine ⟨hc.distinct, List.pairwise_singleton .., ?_⟩
    intro n hmem m hm
    obtain ⟨g, hg, rfl⟩ := List.mem_map.1 hmem
    have := hc.fresh g hg
    have := List.mem_singleton.1 hm
    omega
  fresh := fresh_insert hc.fresh
  byFile := handles_insert ▸ hc.byFile.insert
  byDiskFile := handles_insert ▸ hc.byDiskFile.insert
  byDirectory := handles_insert ▸ hc.byDirectory.insert
  byType := handles_insert ▸ hc.byType.insert
  byTypeAndId := handles_insert ▸ hc.byTypeAndId.insert
  byKind := handles_insert ▸ hc.byKind.insert
  files := definitions_insert ▸ hc.files.insert
  types := definitions_insert ▸ hc.types.insert
  typeAndIds := definitions_insert ▸ hc.typeAndIds.insert
  directories := definitions_insert ▸ hc.directories.insert
  fromGame := fromGame_insert hc.fromGame

/-! ## Removing -/

theorem definitions_entries (hl : c.entries = l₁ ++ e :: l₂) :
    c.definitions = l₁.map (·.handle.definition) ++
      e.handle.definition :: l₂.map (·.handle.definition) := by
  rw [definitions, hl, List.map_append, List.map_cons]

theorem handles_entries (hl : c.entries = l₁ ++ e :: l₂) :
    c.handles = l₁.map (·.handle) ++ e.handle :: l₂.map (·.handle) := by
  rw [handles, hl, List.map_append, List.map_cons]

/-- Dropping takes the first entry with the number of an entry. -/
theorem entries_drop_of_first (hl : c.entries = l₁ ++ e :: l₂)
    (hfirst : ∀ x ∈ l₁, x.handle.number ≠ e.handle.number) :
    (c.drop e).entries = l₁ ++ l₂ := by
  show c.entries.eraseP (·.handle.number = e.handle.number) = l₁ ++ l₂
  have hbefore : ∀ x ∈ l₁, ¬ decide (x.handle.number = e.handle.number) = true := by
    intro x hx
    simpa using hfirst x hx
  rw [hl, List.eraseP_append_right _ hbefore, List.eraseP_cons_of_pos (by simp)]

section

variable (hl : c.entries = l₁ ++ e :: l₂) (hfirst : ∀ x ∈ l₁, x.handle.number ≠ e.handle.number)
include hl hfirst

theorem handles_drop_of_first :
    (c.drop e).handles = l₁.map (·.handle) ++ l₂.map (·.handle) := by
  rw [handles, entries_drop_of_first hl hfirst, List.map_append]

theorem definitions_drop_of_first : (c.drop e).definitions =
    l₁.map (·.handle.definition) ++ l₂.map (·.handle.definition) := by
  rw [definitions, entries_drop_of_first hl hfirst, List.map_append]

theorem fresh_drop (hfresh : ∀ g ∈ c.handles, g.number < c.next) :
    ∀ g ∈ (c.drop e).handles, g.number < (c.drop e).next := by
  rw [handles_drop_of_first hl hfirst]
  intro g hg
  refine hfresh g ?_
  rw [handles_entries hl, List.mem_append, List.mem_cons]
  exact (List.mem_append.1 hg).imp_right .inr

theorem fromGame_drop (hgame : c.fromGame = c.definitions.countP (·.isFromGame)) :
    (c.drop e).fromGame = (c.drop e).definitions.countP (·.isFromGame) := by
  rw [definitions_drop_of_first hl hfirst, List.countP_append]
  rw [definitions_entries hl, List.countP_append, List.countP_cons] at hgame
  cases hg : e.handle.definition.isFromGame
  · simp [Catalog.drop, hg] at hgame ⊢
    omega
  · simp [Catalog.drop, hg] at hgame ⊢
    omega

end

theorem InStep.before_ne (hc : InStep c) (hl : c.entries = l₁ ++ e :: l₂) :
    ∀ x ∈ l₁, x.handle.number ≠ e.handle.number := by
  intro x hx
  have hd := hc.distinct
  rw [handles_entries hl, List.map_append, List.map_cons, List.nodup_append] at hd
  exact hd.2.2 _ (List.mem_map_of_mem (List.mem_map_of_mem hx)) _ List.mem_cons_self

theorem InStep.entries_drop (hc : InStep c) (hl : c.entries = l₁ ++ e :: l₂) :
    (c.drop e).entries = l₁ ++ l₂ :=
  entries_drop_of_first hl (hc.before_ne hl)

theorem InStep.drop (hc : InStep c) (hl : c.entries = l₁ ++ e :: l₂) : InStep (c.drop e) := by
  have hfirst := hc.before_ne hl
  have hhandles := handles_drop_of_first hl hfirst
  have hdefinitions := definitions_drop_of_first hl hfirst
  obtain ⟨hdistinct, hfresh, hfile, hdisk, hdir, htype, hid, hkind, hfiles, htypes, hids, hdirs,
    hgame⟩ := hc
  rw [handles_entries hl] at hdistinct hfile hdisk hdir htype hid hkind
  rw [definitions_entries hl] at hfiles htypes hids hdirs
  constructor
  case distinct =>
    rw [hhandles]
    refine hdistinct.sublist (List.Sublist.map _ ?_)
    exact (List.Sublist.refl _).append (List.sublist_cons_self ..)
  case fresh => exact fresh_drop hl hfirst hfresh
  case byFile => exact hhandles ▸ hfile.erase hdistinct
  case byDiskFile => exact hhandles ▸ hdisk.erase hdistinct
  case byDirectory => exact hhandles ▸ hdir.erase hdistinct
  case byType => exact hhandles ▸ htype.erase hdistinct
  case byTypeAndId => exact hhandles ▸ hid.erase hdistinct
  case byKind => exact hhandles ▸ hkind.erase hdistinct
  case files => exact hdefinitions ▸ hfiles.remove
  case types => exact hdefinitions ▸ htypes.remove
  case typeAndIds => exact hdefinitions ▸ hids.remove
  case directories => exact hdefinitions ▸ hdirs.remove
  case fromGame => exact fromGame_drop hl hfirst hgame

/-- What is looked up for a removal is the first entry with an equal definition. -/
theorem InStep.find?_under (hc : InStep c) (d : Definition) :
    (c.byTypeAndId.under d.typeAndId).find? (·.definition = d) =
      (c.entries.find? (·.handle.definition = d)).map (·.handle) := by
  rw [hc.byTypeAndId.find?_under rfl, handles, List.find?_map]
  rfl

/-- A definition that is not stored cannot be removed; of one that is, the first entry is
dropped. -/
theorem InStep.erase?_cases (hc : InStep c) (d : Definition) :
    (d ∉ c.definitions ∧ c.erase? d = none) ∨
      ∃ l₁ e l₂, c.entries = l₁ ++ e :: l₂ ∧ e.handle.definition = d ∧
        d ∉ l₁.map (·.handle.definition) ∧ c.erase? d = some (c.drop e) := by
  cases hf : c.entries.find? (·.handle.definition = d) with
  | none =>
    refine .inl ⟨?_, ?_⟩
    · intro hd
      obtain ⟨e, he, hed⟩ := List.mem_map.1 hd
      exact List.find?_eq_none.1 hf e he (decide_eq_true hed)
    · rw [erase?, hc.find?_under, hf]
      rfl
  | some e =>
    obtain ⟨hed, l₁, l₂, hl, hbefore⟩ := List.find?_eq_some_iff_append.1 hf
    refine .inr ⟨l₁, e, l₂, hl, by simpa using hed, ?_, ?_⟩
    · intro hd
      obtain ⟨x, hx, hxd⟩ := List.mem_map.1 hd
      simpa [hxd] using hbefore x hx
    · have hnumber : c.entries.find? (·.handle.number = e.handle.number) = some e := by
        refine List.find?_eq_some_iff_append.2 ⟨by simp, l₁, l₂, hl, ?_⟩
        intro x hx
        simpa using hc.before_ne hl x hx
      rw [erase?, hc.find?_under, hf]
      show (c.entries.find? (·.handle.number = e.handle.number)).bind _ = _
      rw [hnumber]
      rfl

/-- Removing takes the first definition equal to `d` out of the stored ones. -/
theorem InStep.definitions_drop (hc : InStep c) (hl : c.entries = l₁ ++ e :: l₂)
    (hfirst : e.handle.definition ∉ l₁.map (·.handle.definition)) :
    (c.drop e).definitions = c.definitions.erase e.handle.definition := by
  rw [definitions_entries hl, List.erase_append_right _ hfirst, List.erase_cons_head,
    definitions_drop_of_first hl (hc.before_ne hl)]

/-! ## What is not indexed here -/

theorem InStep.withOutline (hc : InStep c) (o : Outline) : InStep { c with outline := o } :=
  { hc with }

theorem InStep.withTags (hc : InStep c) (n : Option TagTrie) : InStep { c with tags := n } :=
  { hc with }

theorem InStep.withKeepsOutline (hc : InStep c) (b : Bool) :
    InStep { c with keepsOutline := b } :=
  { hc with }

end GameScript.Catalog
