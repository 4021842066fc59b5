import GameScript.Proofs.Store.Runs
import GameScript.Proofs.Store.Outline
import GameScript.Proofs.Store.TagTrie

/-!
# Runs that store an object again

An object may be added again while it is stored. Removing it then takes one of its entries, but
takes it out of every index, so that an index may list less than is stored. What holds after every
such run is `Catalog.Tidy`: the indexes list nothing but stored objects, each under its keys, and
the counts and the outline go by all entries (`Operation.performAll_tidy`).
-/

namespace GameScript

inductive Operation where
  | change (c : Change)
  /-- Adds an object, which may be stored already. -/
  | share (h : Handle) (hidden : Bool)

def Operation.perform (s : Store) : Operation → Except Fault Store
  | change c => c.apply s
  | share h hidden => s.insert h hidden

def Store.performAll (s : Store) : List Operation → Except Fault Store
  | [] => .ok s
  | op :: ops => (op.perform s).bind (·.performAll ops)

namespace Catalog

variable {c : Catalog} {h : Handle} {e : Entry} {l₁ l₂ : List Entry} {hidden : Bool}

def outlined (c : Catalog) : List Definition :=
  (c.entries.filter (·.outlined)).map (·.handle.definition)

structure Tidy (c : Catalog) : Prop where
  fresh : ∀ h ∈ c.handles, h.number < c.next
  byFile : c.byFile.Within (fun d => some d.fileKey) c.handles
  byDiskFile : c.byDiskFile.Within Definition.diskFileKey c.handles
  byDirectory : c.byDirectory.Within (fun d => some d.directoryKey) c.handles
  byType : c.byType.Within (fun d => some d.typeKey) c.handles
  byTypeAndId : c.byTypeAndId.Within (fun d => some d.typeAndId) c.handles
  byKind : c.byKind.Within (fun d => some d.kind) c.handles
  tags : ∀ n ∈ c.tags, ∃ i, n.Represents i ∧ TagIndex.Within i c.handles
  files : c.files.Counts (c.definitions.flatMap Definition.fileKeys)
  types : c.types.Counts (c.definitions.flatMap fun d => [d.typeKey])
  typeAndIds : c.typeAndIds.Counts (c.definitions.flatMap fun d => [d.typeAndId])
  directories : c.directories.Counts (c.definitions.flatMap fun d => [d.directoryKey])
  fromGame : c.fromGame = c.definitions.countP (·.isFromGame)
  groups : c.outline.Groups c.outlined

theorem tidy_empty : Tidy {} where
  fresh := by rintro h ⟨⟩
  byFile := Index.within_nil
  byDiskFile := Index.within_nil
  byDirectory := Index.within_nil
  byType := Index.within_nil
  byTypeAndId := Index.within_nil
  byKind := Index.within_nil
  tags := by rintro n ⟨⟩
  files := KeySet.counts_nil
  types := KeySet.counts_nil
  typeAndIds := KeySet.counts_nil
  directories := KeySet.counts_nil
  fromGame := rfl
  groups := grouped_nil

/-! ## Adding -/

theorem outlined_insert : (c.insert h hidden).outlined =
    c.outlined ++ if c.keepsOutline && !hidden then [h.definition] else [] := by
  rw [outlined, insert, List.filter_append, List.map_append]
  cases hout : c.keepsOutline && !hidden with
  | true => simp [outlined]
  | false => simp [outlined]

theorem Tidy.insert (hc : Tidy c) : Tidy (c.insert h hidden) where
  fresh := fresh_insert hc.fresh
  byFile := handles_insert ▸ hc.byFile.insert
  byDiskFile := handles_insert ▸ hc.byDiskFile.insert
  byDirectory := handles_insert ▸ hc.byDirectory.insert
  byType := handles_insert ▸ hc.byType.insert
  byTypeAndId := handles_insert ▸ hc.byTypeAndId.insert
  byKind := handles_insert ▸ hc.byKind.insert
  tags := TagTrie.represents_map_insert
    (fun _ hwithin => handles_insert ▸ hwithin.insert) hc.tags
  files := definitions_insert ▸ hc.files.insert
  types := definitions_insert ▸ hc.types.insert
  typeAndIds := definitions_insert ▸ hc.typeAndIds.insert
  directories := definitions_insert ▸ hc.directories.insert
  fromGame := fromGame_insert hc.fromGame
  groups := by
    rw [outlined_insert]
    show (if c.keepsOutline && !hidden then c.outline.insert h.definition else c.outline).Groups _
    cases c.keepsOutline && !hidden with
    | true => exact hc.groups.insert
    | false => exact (List.append_nil c.outlined).symm ▸ hc.groups

/-! ## Removing -/

theorem Tidy.drop (hc : Tidy c) (hl : c.entries = l₁ ++ e :: l₂)
    (hfirst : ∀ x ∈ l₁, x.handle.number ≠ e.handle.number) : Tidy (c.drop e) := by
  have hentries := entries_drop_of_first hl hfirst
  have hdefinitions := definitions_drop_of_first hl hfirst
  have hstay : ∀ g ∈ c.handles, g ≠ e.handle → g ∈ (c.drop e).handles := by
    intro g hg hne
    rw [handles_entries hl, List.mem_append, List.mem_cons] at hg
    rw [handles_drop_of_first hl hfirst, List.mem_append]
    exact hg.imp_right fun hg => hg.resolve_left hne
  obtain ⟨hfresh, hfile, hdisk, hdir, htype, hid, hkind, htags, hfiles, htypes, hids, hdirs, hgame,
    hgroups⟩ := hc
  rw [definitions_entries hl] at hfiles htypes hids hdirs
  constructor
  case fresh => exact fresh_drop hl hfirst hfresh
  case byFile => exact hfile.erase hstay
  case byDiskFile => exact hdisk.erase hstay
  case byDirectory => exact hdir.erase hstay
  case byType => exact htype.erase hstay
  case byTypeAndId => exact hid.erase hstay
  case byKind => exact hkind.erase hstay
  case tags => exact TagTrie.represents_map_erase (fun _ hwithin => hwithin.erase hstay) htags
  case files => exact hdefinitions ▸ hfiles.remove
  case types => exact hdefinitions ▸ htypes.remove
  case typeAndIds => exact hdefinitions ▸ hids.remove
  case directories => exact hdefinitions ▸ hdirs.remove
  case fromGame => exact fromGame_drop hl hfirst hgame
  case groups =>
    show (if e.outlined then (c.outline.erase? e.handle.definition).getD c.outline
      else c.outline).Groups _
    rw [outlined, hl, List.filter_append, List.map_append] at hgroups
    rw [outlined, hentries, List.filter_append, List.map_append]
    cases he : e.outlined with
    | false =>
      rw [List.filter_cons_of_neg (by simp [he])] at hgroups
      exact hgroups
    | true =>
      rw [List.filter_cons_of_pos (by simp [he]), List.map_cons] at hgroups
      obtain ⟨o, ho, hrest⟩ := Outline.Groups.erase hgroups
      rw [if_pos rfl, ho]
      exact hrest

/-- What is removed is the first entry with some number. -/
theorem erase?_eq_some {c' : Catalog} {d : Definition} (h : c.erase? d = some c') :
    ∃ l₁ e l₂, c.entries = l₁ ++ e :: l₂ ∧ (∀ x ∈ l₁, x.handle.number ≠ e.handle.number) ∧
      c' = c.drop e := by
  obtain ⟨g, -, hg⟩ := Option.bind_eq_some_iff.1 h
  obtain ⟨e, he, hdrop⟩ := Option.bind_eq_some_iff.1 hg
  obtain ⟨hnumber, l₁, l₂, hl, hfirst⟩ := List.find?_eq_some_iff_append.1 he
  have hnumber : e.handle.number = g.number := of_decide_eq_true hnumber
  refine ⟨l₁, e, l₂, hl, fun x hx => ?_, (Option.some.inj hdrop).symm⟩
  rw [hnumber]
  simpa using hfirst x hx

/-! ## Other changes -/

theorem Tidy.addAll (hc : Tidy c) (ds : List Definition) : Tidy (ds.foldl (·.add · false) c) :=
  foldl_add_keeps (P := fun c _ => Tidy c) (fun h => h.insert) hc ds

theorem Tidy.withKeepsOutline (hc : Tidy c) (b : Bool) : Tidy { c with keepsOutline := b } :=
  { hc with }

theorem within_foldl {es : List Entry} {n : TagTrie} {i : TagIndex} {hs : List Handle}
    (hn : n.Represents i) (hi : TagIndex.Within i hs) :
    ∃ j, (es.foldl (fun n e => n.insert e.handle) n).Represents j ∧
      TagIndex.Within j (hs ++ es.map (·.handle)) := by
  induction es generalizing n i hs with
  | nil => exact ⟨i, hn, by simpa using hi⟩
  | cons e es ih =>
    have hassoc : hs ++ (e :: es).map (·.handle) = hs ++ [e.handle] ++ es.map (·.handle) := by simp
    rw [hassoc]
    exact ih hn.insert hi.insert

theorem Tidy.indexTags (hc : Tidy c) : Tidy c.indexTags :=
  { hc with
    tags := by
      rintro n ⟨⟩
      exact within_foldl TagTrie.represents_empty TagIndex.within_nil }

theorem Tidy.setReset {d : Definition} {o : Outline} (hc : Tidy c)
    (ho : c.outline.setReset? d d.reset = some o) : Tidy { c with outline := o } :=
  { hc with groups := hc.groups.setReset ho }

end Catalog

/-! ## Runs -/

theorem Change.apply_tidy {c : Catalog} (hc : c.Tidy) (change : Change) :
    ∃ c' : Catalog, change.apply ⟨some c⟩ = .ok ⟨some c'⟩ ∧ c'.Tidy := by
  cases change with
  | addAll ds keepsOutline => exact ⟨_, rfl, (hc.withKeepsOutline keepsOutline).addAll ds⟩
  | add d hidden => exact ⟨_, rfl, hc.insert⟩
  | remove d =>
    rw [apply, Store.remove, Store.changeIf]
    cases ho : c.erase? d with
    | none => exact ⟨c, by simp only [ho]; rfl, hc⟩
    | some c' =>
      obtain ⟨l₁, e, l₂, hl, hfirst, rfl⟩ := Catalog.erase?_eq_some ho
      exact ⟨c.drop e, by simp only [ho]; rfl, hc.drop hl hfirst⟩
  | startSearch => exact ⟨_, rfl, hc.indexTags⟩
  | setReset d =>
    rw [apply, Store.setReset, Store.changeIf]
    cases ho : c.outline.setReset? d d.reset with
    | none => exact ⟨c, by simp only [ho]; rfl, hc⟩
    | some o => exact ⟨_, by simp only [ho]; rfl, hc.setReset ho⟩

theorem Operation.perform_tidy {c : Catalog} (hc : c.Tidy) (op : Operation) :
    ∃ c' : Catalog, op.perform ⟨some c⟩ = .ok ⟨some c'⟩ ∧ c'.Tidy := by
  cases op with
  | change c => exact Change.apply_tidy hc c
  | share h hidden => exact ⟨_, rfl, hc.insert⟩

/-- No run fails, and every run leaves a tidy catalog. -/
theorem Store.performAll_tidy {c : Catalog} (hc : c.Tidy) (ops : List Operation) :
    ∃ c' : Catalog, Store.performAll ⟨some c⟩ ops = .ok ⟨some c'⟩ ∧ c'.Tidy := by
  induction ops generalizing c with
  | nil => exact ⟨c, rfl, hc⟩
  | cons op ops ih =>
    obtain ⟨c', hperform, hc'⟩ := op.perform_tidy hc
    obtain ⟨c'', hrun, hc''⟩ := ih hc'
    refine ⟨c'', ?_, hc''⟩
    rw [Store.performAll, hperform]
    exact hrun

end GameScript
