import GameScript.Proofs.Store.Stock
import Mathlib.Data.List.Perm.Basic

/-!
# What the look-ups list together

Asked for every file, for every type or for every type and id, a store gives the same definitions,
in some order: those that its stock lists, which are some of the stored ones
(`performAll_unions`). An object that was added several times and removed once is no longer among
them, while it is still stored (`performAll_loses`).
-/

namespace GameScript

open Text

def Stock.found (k : Stock) : List Definition := k.listed.map (·.definition)

section

variable {κ : Type} [DecidableEq κ] {hs : List Handle}

theorem Store.under_lists {i : Index κ} {key : Definition → Option κ} (hi : i.Lists key hs)
    (k : κ) : under i k = (hs.map (·.definition)).filter (key · = some k) := by
  rw [under, hi k, List.filter_map]
  rfl

theorem Store.under_lists_of_key {i : Index κ} {key : Definition → κ}
    (hi : i.Lists (fun d => some (key d)) hs) (k : κ) :
    under i k = (hs.map (·.definition)).filter (key · = k) := by
  simp only [under_lists hi, Option.some.injEq]

/-- The members of a list by their keys, for different keys that make up all. -/
theorem flatMap_filter_perm {α : Type} {key : α → κ} {ks : List κ} {l : List α} (hks : ks.Nodup)
    (hl : ∀ a ∈ l, key a ∈ ks) : (ks.flatMap fun k => l.filter (key · = k)).Perm l := by
  induction ks generalizing l with
  | nil =>
    have hnil : l = [] := List.eq_nil_iff_forall_not_mem.2 fun a ha => List.not_mem_nil (hl a ha)
    rw [hnil]
    exact List.Perm.refl _
  | cons k ks ih =>
    obtain ⟨hk, hks⟩ := List.nodup_cons.1 hks
    -- the other keys pick from the members without this key
    have hothers : (ks.flatMap fun k' => l.filter (key · = k')) =
        ks.flatMap fun k' => (l.filter fun a => !decide (key a = k)).filter (key · = k') := by
      refine List.flatMap_congr fun k' hk' => ?_
      rw [List.filter_filter]
      refine List.filter_congr fun a _ => ?_
      by_cases ha : key a = k'
      · have hne : k' ≠ k := fun h => hk (h ▸ hk')
        simp [ha, hne]
      · simp [ha]
    have hrest : (ks.flatMap fun k' => l.filter (key · = k')).Perm
        (l.filter fun a => !decide (key a = k)) := by
      rw [hothers]
      refine ih hks fun a ha => ?_
      obtain ⟨hmem, hne⟩ := List.mem_filter.1 ha
      exact (List.mem_cons.1 (hl a hmem)).resolve_left (by simpa using hne)
    rw [List.flatMap_cons]
    exact (hrest.append_left _).trans (List.filter_append_perm _ l)

end

/-! ## The unions of the look-ups -/

/-- The look-ups by file, by type and by type and id each give the definitions `ds`, when they are
asked for keys that make up those of `ds`, and for none twice. A definition that is none of `ds`
cannot be removed. -/
structure Store.Unions (s : Store) (ds : List Definition) : Prop where
  byFile : ∀ files : List Text, (files.map pathKey).Nodup →
    (∀ d ∈ ds, d.fileKey ∈ files.map pathKey) → (files.flatMap s.byFile).Perm ds
  byType : ∀ types : List Text, (types.map lower).Nodup →
    (∀ d ∈ ds, lower d.type ∈ types.map lower) → (types.flatMap s.byType).Perm ds
  byTypeAndId : ∀ keys : List Text, keys.Nodup →
    (∀ d ∈ ds, d.typeAndId ∈ keys) → (keys.flatMap s.byTypeAndId).Perm ds
  remove : ∀ d, ∃ s', s.remove d = .ok (s', decide (d ∈ ds))

namespace Catalog

variable {c : Catalog} {k : Stock}

theorem Holds.definitions (hc : Holds c k) : c.definitions = k.stored.map (·.definition) := by
  rw [definitions_eq, hc.stored]

theorem Holds.byFile_eq (hc : Holds c k) (file : Text) :
    Store.byFile ⟨some c⟩ file = k.found.filter (·.fileKey = pathKey file) :=
  Store.under_lists_of_key hc.byFile (pathKey file)

theorem Holds.byDirectory_eq (hc : Holds c k) (path : Text) :
    Store.byDirectory ⟨some c⟩ path = k.found.filter (·.directoryKey = pathKey path) :=
  Store.under_lists_of_key hc.byDirectory (pathKey path)

theorem Holds.byDiskFile_eq (hc : Holds c k) (file : Text) :
    Store.byDiskFile ⟨some c⟩ file = k.found.filter (·.diskFileKey = some (pathKey file)) :=
  Store.under_lists hc.byDiskFile (pathKey file)

theorem Holds.byType_eq (hc : Holds c k) (type : Text) :
    Store.byType ⟨some c⟩ type = k.found.filter fun d => lower d.type = lower type :=
  Store.under_lists_of_key hc.byType (lower type)

theorem Holds.byTypeAndId_eq (hc : Holds c k) (key : Text) :
    Store.byTypeAndId ⟨some c⟩ key = k.found.filter (·.typeAndId = key) :=
  Store.under_lists_of_key hc.byTypeAndId key

theorem Holds.remove_eq (hc : Holds c k) (hk : k.Sound) (d : Definition) :
    ∃ s', Store.remove ⟨some c⟩ d = .ok (s', decide (d ∈ k.found)) := by
  rw [Store.remove, Store.changeIf]
  rcases hc.erase?_eq hk d with ⟨ht, hnone⟩ | ⟨e, ht, hsome⟩
  · have hd : d ∉ k.found := by
      intro hd
      obtain ⟨h, hh, hhd⟩ := List.mem_map.1 hd
      exact List.find?_eq_none.1 ht h hh (decide_eq_true hhd)
    refine ⟨⟨some c⟩, ?_⟩
    simp only [hnone, decide_eq_false hd]
  · obtain ⟨hmem, hd⟩ := Stock.mem_of_target? ht
    have hd : d ∈ k.found := List.mem_map.2 ⟨e.handle, hmem, hd⟩
    refine ⟨⟨some (c.drop e)⟩, ?_⟩
    simp only [hsome, decide_eq_true hd]

theorem Holds.unions (hc : Holds c k) (hk : k.Sound) : Store.Unions ⟨some c⟩ k.found where
  byFile files hfiles hall := by
    simp only [funext hc.byFile_eq]
    have hperm := flatMap_filter_perm hfiles hall
    rwa [List.flatMap_map] at hperm
  byType types htypes hall := by
    simp only [funext hc.byType_eq]
    have hperm := flatMap_filter_perm htypes hall
    rwa [List.flatMap_map] at hperm
  byTypeAndId keys hkeys hall := by
    simp only [funext hc.byTypeAndId_eq]
    exact flatMap_filter_perm hkeys hall
  remove := hc.remove_eq hk

end Catalog

/-- What is found is what is stored just when the stock lists all that is stored. -/
theorem Stock.Sound.found_eq_iff {k : Stock} (hk : k.Sound) :
    k.found = k.stored.map (·.definition) ↔ k.listed = k.stored := by
  refine ⟨fun h => hk.eq_iff_length.2 ?_, fun h => by rw [found, h]⟩
  have hlength := congrArg List.length h
  rwa [found, List.length_map, List.length_map] at hlength

/-- What a run leaves: a catalog that holds the stock of the run. It finds all that is stored,
unless an object was removed while it was stored more than once. -/
theorem performAll_stock {ops : List Operation} (hfits : Stock.Throughout Stock.Fits {} ops) :
    ∃ c : Catalog, Store.performAll {} ops = .ok ⟨some c⟩ ∧ c.Tidy ∧
      c.Holds (Stock.afterAll {} ops) ∧ (Stock.afterAll {} ops).Sound ∧
      ((Stock.afterAll {} ops).found = c.definitions ↔
        Stock.Throughout Stock.TakesLast {} ops) := by
  obtain ⟨c, hrun, hc⟩ := Store.performAll_holds Catalog.holds_empty Stock.sound_empty hfits
  obtain ⟨c', hrun', ht⟩ := Store.performAll_tidy Catalog.tidy_empty ops
  obtain rfl : c = c' :=
    Option.some.inj (Store.mk.inj (Except.ok.inj (hrun.symm.trans hrun')))
  have hk := Stock.sound_empty.afterAll hfits
  refine ⟨c, hrun, ht, hc, hk, ?_⟩
  rw [hc.definitions, hk.found_eq_iff, Stock.sound_empty.afterAll_eq_iff hfits]
  exact and_iff_right rfl

/-- **Every look-up lists the same definitions**, after any run in which an object may be added
again while it is stored. They are all that is stored, unless an object was removed while it was
stored more than once. -/
theorem performAll_unions {ops : List Operation} (hfits : Stock.Throughout Stock.Fits {} ops) :
    ∃ s, Store.performAll {} ops = .ok s ∧ s.Unions (Stock.afterAll {} ops).found ∧
      (Stock.afterAll {} ops).found.Sublist s.definitions ∧
      ((Stock.afterAll {} ops).found = s.definitions ↔
        Stock.Throughout Stock.TakesLast {} ops) := by
  obtain ⟨c, hrun, -, hc, hk, hall⟩ := performAll_stock hfits
  refine ⟨⟨some c⟩, hrun, hc.unions hk, ?_, hall⟩
  show List.Sublist _ c.definitions
  rw [hc.definitions]
  exact hk.sublist.map _

def sharedDefinition : Definition :=
  ((({} : Definition).setFile "a.txt").setType "t").setId "x"

def sharedTwice : List Operation :=
  [.share ⟨0, sharedDefinition⟩ false, .share ⟨0, sharedDefinition⟩ false,
    .change (.remove sharedDefinition)]

/-- Added a third time, the object is found once, and stored twice. -/
theorem performAll_unions_again :
    ∃ s, Store.performAll {} (sharedTwice ++ [.share ⟨0, sharedDefinition⟩ false]) = .ok s ∧
      s.Unions [sharedDefinition] ∧ s.definitions = [sharedDefinition, sharedDefinition] := by
  have hfits : Stock.Throughout Stock.Fits {}
      (sharedTwice ++ [.share ⟨0, sharedDefinition⟩ false]) := by decide +kernel
  obtain ⟨s, hrun, hunions, -, -⟩ := performAll_unions hfits
  obtain rfl := Except.ok.inj (show Except.ok _ = Except.ok s from hrun)
  exact ⟨_, hrun, hunions, by decide +kernel⟩

/-- Removing an object that was added twice leaves it stored, and no look-up finds it. -/
theorem performAll_loses :
    Stock.Throughout Stock.Fits {} sharedTwice ∧
    ∃ s, Store.performAll {} sharedTwice = .ok s ∧ s.definitions = [sharedDefinition] ∧
      s.byFile sharedDefinition.file = [] ∧ s.byType sharedDefinition.type = [] ∧
      s.byTypeAndId sharedDefinition.typeAndId = [] ∧
      s.remove sharedDefinition = .ok (s, false) := by
  refine ⟨by decide +kernel, _, rfl, ?_, ?_, ?_, ?_, rfl⟩
  · decide +kernel
  · decide +kernel
  · decide +kernel
  · decide +kernel

end GameScript
