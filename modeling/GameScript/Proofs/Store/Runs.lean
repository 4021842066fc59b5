import GameScript.Proofs.Store.Catalog
import GameScript.Store.Basic
import Mathlib.Data.List.Induction

/-!
# Runs of a store

A run is a list of changes made to a new store, and `Change.stored` says what each of them does
to the list of stored definitions. No run fails, and after every run each look-up answers from
that list (`Store.Agrees`): the parts of the catalog are in step after each change.
-/

namespace GameScript

open Text

inductive Change where
  | addAll (ds : List Definition) (keepsOutline : Bool)
  | add (d : Definition) (hidden : Bool)
  | remove (d : Definition)
  | startSearch
  | setReset (d : Definition)

namespace Change

def apply (s : Store) : Change → Except Fault Store
  | addAll ds keepsOutline => s.addAll ds keepsOutline
  | add d hidden => s.add d hidden
  | remove d => (s.remove d).map (·.1)
  | startSearch => s.startSearch
  | setReset d => (s.setReset d).map (·.1)

/-- The stored definitions after a change. Of equal ones, the first is removed. -/
def stored (ds : List Definition) : Change → List Definition
  | addAll es _ => ds ++ es
  | add d _ => ds ++ [d]
  | remove d => ds.erase d
  | startSearch => ds
  | setReset _ => ds

end Change

def Store.run (s : Store) : List Change → Except Fault Store
  | [] => .ok s
  | change :: changes => (change.apply s).bind (·.run changes)

/-! ## What is looked up -/

/-- Whether a definition makes the file key `k` known. -/
def Definition.IsKnownAs (d : Definition) (k : Text) : Prop :=
  d.fileKey = k ∨ d.diskFileKey = some k ∨ ∃ name ∈ d.aliases .overwritten, pathKey name = k

theorem Definition.mem_fileKeys {d : Definition} {k : Text} : k ∈ d.fileKeys ↔ d.IsKnownAs k := by
  rw [fileKeys, SortedSet.mem_ofList, List.mem_append, List.mem_cons, List.mem_map,
    Option.mem_toList, IsKnownAs, or_assoc, eq_comm]

/-- Every look-up answers from the list `ds` of stored definitions. -/
structure Store.Agrees (s : Store) (ds : List Definition) : Prop where
  definitions : s.definitions = ds
  remove : ∀ d, ∃ s', s.remove d = .ok (s', decide (d ∈ ds)) ∧ (d ∉ ds → s' = s)
  byFile : ∀ file, s.byFile file = ds.filter (·.fileKey = pathKey file)
  byDiskFile : ∀ file, s.byDiskFile file = ds.filter (·.diskFileKey = some (pathKey file))
  byDirectory : ∀ path, s.byDirectory path = ds.filter (·.directoryKey = pathKey path)
  byType : ∀ type, s.byType type = ds.filter fun d => lower d.type = lower type
  byTypeAndId : ∀ key, s.byTypeAndId key = ds.filter (·.typeAndId = key)
  byKind : ∀ kind, s.byKind kind = ds.filter (·.kind = kind)
  files : ∀ k, k ∈ s.files ↔ k ≠ [] ∧ ∃ d ∈ ds, d.IsKnownAs k
  types : ∀ k, k ∈ s.types ↔ k ≠ [] ∧ ∃ d ∈ ds, lower d.type = k
  typeAndIds : ∀ k, k ∈ s.typeAndIds ↔ k ≠ [] ∧ ∃ d ∈ ds, d.typeAndId = k
  directories : ∀ k, k ∈ s.directories ↔ k ≠ [] ∧ ∃ d ∈ ds, d.directoryKey = k
  hasFile : ∀ file, s.hasFile file = true ↔
    pathKey file ≠ [] ∧ ∃ d ∈ ds, d.IsKnownAs (pathKey file)
  hasGameDefinitions : s.hasGameDefinitions = true ↔ ∃ d ∈ ds, d.isFromGame = true

theorem Store.under_eq {κ : Type} [DecidableEq κ] {i : Index κ} {key : Definition → Option κ}
    {c : Catalog} (h : i.Lists key c.handles) (k : κ) :
    under i k = c.definitions.filter (key · = some k) := by
  rw [under, h k, Catalog.definitions_eq, List.filter_map]
  rfl

theorem Store.under_of_key {κ : Type} [DecidableEq κ] {i : Index κ} {key : Definition → κ}
    {c : Catalog} (h : i.Lists (fun d => some (key d)) c.handles) (k : κ) :
    under i k = c.definitions.filter (key · = k) := by
  simp only [under_eq h, Option.some.injEq]

theorem Store.mem_known {s : KeySet} {keys : Definition → List Text} {ds : List Definition}
    (h : s.Counts (ds.flatMap keys)) (k : Text) :
    k ∈ s.known ↔ k ≠ [] ∧ ∃ d ∈ ds, k ∈ keys d := by
  rw [h.mem_known, List.mem_flatMap]

theorem Store.mem_known_of_key {s : KeySet} {key : Definition → Text} {ds : List Definition}
    (h : s.Counts (ds.flatMap fun d => [key d])) (k : Text) :
    k ∈ s.known ↔ k ≠ [] ∧ ∃ d ∈ ds, key d = k := by
  simp only [mem_known h, List.mem_singleton, eq_comm]

theorem Catalog.InStep.remove_eq {c : Catalog} (hc : c.InStep) (d : Definition) :
    ∃ s', Store.remove ⟨some c⟩ d = .ok (s', decide (d ∈ c.definitions)) ∧
      (d ∉ c.definitions → s' = ⟨some c⟩) := by
  rw [Store.remove, Store.changeIf]
  rcases hc.erase?_cases d with ⟨hd, hnone⟩ | ⟨l₁, e, l₂, hl, rfl, -, hsome⟩
  · refine ⟨⟨some c⟩, ?_, fun _ => rfl⟩
    simp only [hnone, decide_eq_false hd]
  · have hmem : e.handle.definition ∈ c.definitions := by
      rw [definitions_entries hl]
      simp
    refine ⟨⟨some (c.drop e)⟩, ?_, fun hd => absurd hmem hd⟩
    simp only [hsome, decide_eq_true hmem]

theorem Catalog.InStep.agrees {c : Catalog} (hc : c.InStep) :
    Store.Agrees ⟨some c⟩ c.definitions where
  definitions := rfl
  remove := hc.remove_eq
  byFile _ := Store.under_of_key hc.byFile _
  byDiskFile _ := Store.under_eq hc.byDiskFile _
  byDirectory _ := Store.under_of_key hc.byDirectory _
  byType _ := Store.under_of_key hc.byType _
  byTypeAndId _ := Store.under_of_key hc.byTypeAndId _
  byKind _ := Store.under_of_key hc.byKind _
  files k := by
    simp only [← Definition.mem_fileKeys]
    exact Store.mem_known hc.files k
  types := Store.mem_known_of_key hc.types
  typeAndIds := Store.mem_known_of_key hc.typeAndIds
  directories := Store.mem_known_of_key hc.directories
  hasFile file := by
    simp only [← Definition.mem_fileKeys, ← List.mem_flatMap]
    exact hc.files.contains_iff
  hasGameDefinitions := by
    rw [← List.countP_pos_iff, ← hc.fromGame]
    exact decide_eq_true_iff

/-! ## What a run does -/

/-- What adding one definition keeps, given the list of those added so far, adding several
keeps. -/
theorem Catalog.foldl_add_keeps {P : Catalog → List Definition → Prop}
    (hP : ∀ {c ds d}, P c ds → P (c.add d false) (ds ++ [d])) {c : Catalog} (hc : P c [])
    (ds : List Definition) : P (ds.foldl (·.add · false) c) ds := by
  induction ds using List.reverseRecOn with
  | nil => exact hc
  | append_singleton ds d ih =>
    rw [List.foldl_append]
    exact hP ih

theorem Catalog.InStep.addAll {c : Catalog} (hc : c.InStep) (ds : List Definition) :
    (ds.foldl (·.add · false) c).InStep ∧
      (ds.foldl (·.add · false) c).definitions = c.definitions ++ ds := by
  refine foldl_add_keeps (P := fun c' ds => c'.InStep ∧ c'.definitions = c.definitions ++ ds)
    ?_ ⟨hc, (List.append_nil _).symm⟩ ds
  rintro c' ds d ⟨hc', hdefinitions⟩
  refine ⟨hc'.insert (Nat.le_refl _), ?_⟩
  rw [add, definitions_insert, hdefinitions, List.append_assoc]

/-- What a change does to a catalog whose parts are in step. -/
def Change.Does (c c' : Catalog) : Change → Prop
  | addAll ds keepsOutline => c' = ds.foldl (·.add · false) { c with keepsOutline := keepsOutline }
  | add d hidden => c' = c.add d hidden
  | remove d => (d ∉ c.definitions ∧ c' = c) ∨
    ∃ l₁ e l₂, c.entries = l₁ ++ e :: l₂ ∧ e.handle.definition = d ∧
      d ∉ l₁.map (·.handle.definition) ∧ c' = c.drop e
  | startSearch => c' = c.indexTags
  | setReset d => c' = c ∨
    ∃ o, c.outline.setReset? d d.reset = some o ∧ c' = { c with outline := o }

theorem Change.apply_does {c : Catalog} (hc : c.InStep) (change : Change) :
    ∃ c' : Catalog, change.apply ⟨some c⟩ = .ok ⟨some c'⟩ ∧ change.Does c c' := by
  cases change with
  | addAll ds keepsOutline => exact ⟨_, rfl, rfl⟩
  | add d hidden => exact ⟨_, rfl, rfl⟩
  | remove d =>
    rw [apply, Store.remove, Store.changeIf]
    rcases hc.erase?_cases d with ⟨hd, hnone⟩ | ⟨l₁, e, l₂, hl, hed, hfirst, hsome⟩
    · exact ⟨c, by simp only [hnone]; rfl, .inl ⟨hd, rfl⟩⟩
    · exact ⟨c.drop e, by simp only [hsome]; rfl, .inr ⟨l₁, e, l₂, hl, hed, hfirst, rfl⟩⟩
  | startSearch => exact ⟨_, rfl, rfl⟩
  | setReset d =>
    rw [apply, Store.setReset, Store.changeIf]
    cases ho : c.outline.setReset? d d.reset with
    | none => exact ⟨c, by simp only [ho]; rfl, .inl rfl⟩
    | some o => exact ⟨_, by simp only [ho]; rfl, .inr ⟨o, ho, rfl⟩⟩

/-- A change keeps the catalog in step, and changes the stored definitions as it should. -/
theorem Change.Does.inStep {c c' : Catalog} (hc : c.InStep) {change : Change}
    (h : change.Does c c') : c'.InStep ∧ c'.definitions = change.stored c.definitions := by
  cases change with
  | addAll ds keepsOutline =>
    subst h
    exact (hc.withKeepsOutline keepsOutline).addAll ds
  | add d hidden =>
    subst h
    exact ⟨hc.insert (Nat.le_refl _), Catalog.definitions_insert⟩
  | remove d =>
    rcases h with ⟨hd, rfl⟩ | ⟨l₁, e, l₂, hl, rfl, hfirst, rfl⟩
    · exact ⟨hc, (List.erase_of_not_mem hd).symm⟩
    · exact ⟨hc.drop hl, hc.definitions_drop hl hfirst⟩
  | startSearch =>
    subst h
    exact ⟨hc.withTags _, rfl⟩
  | setReset d =>
    rcases h with rfl | ⟨o, -, rfl⟩
    · exact ⟨hc, rfl⟩
    · exact ⟨hc.withOutline o, rfl⟩

/-- What every change keeps, with a record `x` of the changes so far, every run keeps. -/
theorem run_keeps {σ : Type} {f : σ → Change → σ} {P : Catalog → σ → Prop}
    (hkeeps : ∀ {c c' x change}, c.InStep → P c x → change.Does c c' → P c' (f x change))
    {c : Catalog} {x : σ} (hc : c.InStep) (hx : P c x) (changes : List Change) :
    ∃ c' : Catalog, Store.run ⟨some c⟩ changes = .ok ⟨some c'⟩ ∧ c'.InStep ∧
      P c' (changes.foldl f x) := by
  induction changes generalizing c x with
  | nil => exact ⟨c, rfl, hc, hx⟩
  | cons change changes ih =>
    obtain ⟨c', hchange, hdoes⟩ := change.apply_does hc
    obtain ⟨c'', hrun, hc'', hx''⟩ := ih (hdoes.inStep hc).1 (hkeeps hc hx hdoes)
    refine ⟨c'', ?_, hc'', hx''⟩
    rw [Store.run, hchange]
    exact hrun

theorem run_inStep {c : Catalog} (hc : c.InStep) (changes : List Change) :
    ∃ c' : Catalog, Store.run ⟨some c⟩ changes = .ok ⟨some c'⟩ ∧ c'.InStep ∧
      c'.definitions = changes.foldl Change.stored c.definitions :=
  run_keeps (P := fun c ds => c.definitions = ds)
    (fun hc hds hdoes => hds ▸ (hdoes.inStep hc).2) hc rfl changes

/-- **Every index agrees with the stored list**, whatever was added and removed before. -/
theorem run_agrees (changes : List Change) :
    ∃ s, Store.run {} changes = .ok s ∧ s.Agrees (changes.foldl Change.stored []) := by
  obtain ⟨c, hrun, hc, hdefinitions⟩ := run_inStep Catalog.inStep_empty changes
  refine ⟨⟨some c⟩, hrun, ?_⟩
  have hagrees := hc.agrees
  rw [hdefinitions] at hagrees
  exact hagrees

end GameScript
