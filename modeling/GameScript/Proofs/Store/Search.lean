import GameScript.Proofs.Store.Runs
import GameScript.Proofs.Store.TagTrie

/-!
# Search over whole runs

Once a search was started, the trie of tags stands for a table that lists what is stored, whatever
is added and removed afterwards (`Change.Does.tagsInStep`). So a search ranks the stored definitions
(`search_ranks`).
-/

namespace GameScript

open Text

namespace Catalog

variable {c : Catalog} {h : Handle} {e : Entry} {l₁ l₂ : List Entry} {hidden : Bool}

/-- Whether the tags of a catalog, if there are any, are those of what is stored. -/
def TagsInStep (c : Catalog) : Prop :=
  ∀ n ∈ c.tags, ∃ i, n.Represents i ∧ TagIndex.ListsTags i c.handles

theorem TagsInStep.insert (ht : c.TagsInStep) (hc : c.InStep) (hn : c.next ≤ h.number) :
    (c.insert h hidden).TagsInStep := by
  refine TagTrie.represents_map_insert (fun i hlists => ?_) ht
  rw [handles_insert]
  refine hlists.insert fun g hg => ?_
  have := hc.fresh g hg
  omega

theorem TagsInStep.addAll (ht : c.TagsInStep) (hc : c.InStep) (ds : List Definition) :
    (ds.foldl (·.add · false) c).TagsInStep :=
  (foldl_add_keeps (P := fun c _ => c.InStep ∧ c.TagsInStep)
    (fun h => ⟨h.1.insert (Nat.le_refl _), h.2.insert h.1 (Nat.le_refl _)⟩) ⟨hc, ht⟩ ds).2

theorem TagsInStep.drop (ht : c.TagsInStep) (hc : c.InStep) (hl : c.entries = l₁ ++ e :: l₂) :
    (c.drop e).TagsInStep := by
  refine TagTrie.represents_map_erase (fun i hlists => ?_) ht
  have hdistinct := hc.distinct
  rw [handles_entries hl] at hdistinct hlists
  rw [handles_drop_of_first hl (hc.before_ne hl)]
  exact hlists.erase hdistinct

theorem listsTags_foldl {es : List Entry} {n : TagTrie} {i : TagIndex} {hs : List Handle}
    (hn : n.Represents i) (hi : TagIndex.ListsTags i hs)
    (hd : ((hs ++ es.map (·.handle)).map (·.number)).Nodup) :
    ∃ j, (es.foldl (fun n e => n.insert e.handle) n).Represents j ∧
      TagIndex.ListsTags j (hs ++ es.map (·.handle)) := by
  induction es generalizing n i hs with
  | nil => exact ⟨i, hn, by simpa using hi⟩
  | cons e es ih =>
    have hassoc : hs ++ (e :: es).map (·.handle) = hs ++ [e.handle] ++ es.map (·.handle) := by simp
    rw [hassoc] at hd ⊢
    refine ih hn.insert (hi.insert fun g hg hge => ?_) hd
    rw [List.map_append, List.map_append] at hd
    have hleft := (List.nodup_append.1 hd).1
    exact (List.nodup_append.1 hleft).2.2 _ (List.mem_map_of_mem hg) _ List.mem_cons_self hge

theorem InStep.tagsInStep_indexTags (hc : c.InStep) : c.indexTags.TagsInStep := by
  rintro n ⟨⟩
  exact listsTags_foldl TagTrie.represents_empty TagIndex.listsTags_nil hc.distinct

end Catalog

/-! ## Changes and runs -/

/-- Whether a search was started after a change, given whether it was before. -/
def Change.searchable (started : Bool) : Change → Bool
  | startSearch => true
  | _ => started

theorem isSome_tags_addAll (c : Catalog) (ds : List Definition) :
    (ds.foldl (·.add · false) c).tags.isSome = c.tags.isSome :=
  Catalog.foldl_add_keeps (P := fun c' _ => c'.tags.isSome = c.tags.isSome)
    (fun h => Option.isSome_map.trans h) rfl ds

/-- The tags stay in step, and once there are any they stay. -/
theorem Change.Does.tagsInStep {c c' : Catalog} {change : Change} (hc : c.InStep)
    (ht : c.TagsInStep) (h : change.Does c c') :
    c'.TagsInStep ∧ c'.tags.isSome = change.searchable c.tags.isSome := by
  cases change with
  | addAll ds keepsOutline =>
    subst h
    have hkept : { c with keepsOutline := keepsOutline }.TagsInStep := ht
    exact ⟨hkept.addAll (hc.withKeepsOutline keepsOutline) ds, isSome_tags_addAll _ ds⟩
  | add d hidden =>
    subst h
    exact ⟨ht.insert hc (Nat.le_refl _), Option.isSome_map⟩
  | remove d =>
    rcases h with ⟨-, rfl⟩ | ⟨l₁, e, l₂, hl, -, -, rfl⟩
    · exact ⟨ht, rfl⟩
    · exact ⟨ht.drop hc hl, Option.isSome_map⟩
  | startSearch =>
    subst h
    exact ⟨hc.tagsInStep_indexTags, rfl⟩
  | setReset d =>
    rcases h with rfl | ⟨o, -, rfl⟩
    · exact ⟨ht, rfl⟩
    · exact ⟨ht, rfl⟩

theorem searchable_of_mem {changes : List Change} {started : Bool}
    (h : started = true ∨ .startSearch ∈ changes) :
    changes.foldl Change.searchable started = true := by
  induction changes generalizing started with
  | nil => simpa using h
  | cons change changes ih =>
    refine ih ?_
    rcases h with rfl | h
    · exact .inl (by cases change <;> rfl)
    · rcases List.mem_cons.1 h with rfl | h
      · exact .inl rfl
      · exact .inr h

/-- What is found in a catalog whose tags are in step. -/
theorem Catalog.TagsInStep.ranks {c : Catalog} (hc : c.InStep) (ht : c.TagsInStep)
    (hsome : c.tags.isSome = true) {term : Text} (hterm : lower (trim term) ≠ []) :
    Ranks (lower (trim term)) c.definitions (Store.search ⟨some c⟩ term) := by
  obtain ⟨n, hn⟩ := Option.isSome_iff_exists.1 hsome
  obtain ⟨i, hi, hlists⟩ := ht n hn
  have hfound : Store.search ⟨some c⟩ term =
      (TagIndex.headTags (lower (trim term)) i).flatMap fun t =>
        c.definitions.filter (·.firstTag? (lower (trim term)) = some t) := by
    show ((c.tags.elim [] (·.search term)).map (·.definition)) = _
    rw [hn, Option.elim, hi.search_eq, hlists.search_eq hc.distinct hterm, List.map_flatMap,
      definitions_eq]
    simp only [List.filter_map]
    rfl
  rw [hfound]
  refine ranks_flatMap (TagIndex.pairwise_headTags hlists.keys) fun d hd t hdt => ?_
  obtain ⟨⟨hmem, hhead⟩, -⟩ := TagIndex.firstTag?_eq_some.1 hdt
  rw [definitions_eq] at hd
  obtain ⟨h, hh, rfl⟩ := List.mem_map.1 hd
  exact TagIndex.mem_headTags.2 ⟨hlists.mem_keys hh hmem, hhead⟩

/-- After a search was started, every run has its tags in step. -/
theorem run_tagsInStep {changes : List Change} (h : .startSearch ∈ changes) :
    ∃ c : Catalog, Store.run {} changes = .ok ⟨some c⟩ ∧ c.InStep ∧ c.TagsInStep ∧
      c.tags.isSome = true ∧ c.definitions = changes.foldl Change.stored [] := by
  obtain ⟨c, hrun, hc, ht, hsome⟩ :=
    run_keeps (f := Change.searchable) (P := fun c b => c.TagsInStep ∧ c.tags.isSome = b)
      (fun hc hx hdoes => hx.2 ▸ hdoes.tagsInStep hc hx.1)
      Catalog.inStep_empty ⟨by rintro n ⟨⟩, rfl⟩ changes
  obtain ⟨c', hrun', -, hdefinitions⟩ := run_inStep Catalog.inStep_empty changes
  obtain rfl : c = c' := by
    have hsame := hrun.symm.trans hrun'
    simpa using hsame
  exact ⟨c, hrun, hc, ht, hsome.trans (searchable_of_mem (.inr h)), hdefinitions⟩

/-- **Search is exact over whole runs.** After a search was started, a blank term finds nothing,
and every other one ranks the stored definitions by their tags that begin with it, lowercased and
trimmed. So what is found depends on what is stored, and not on when or how often a search was
started. -/
theorem search_ranks (changes : List Change) (h : .startSearch ∈ changes) :
    ∃ s, Store.run {} changes = .ok s ∧
      (∀ term, trim term = [] → s.search term = []) ∧
      (∀ term, trim term ≠ [] →
        Ranks (lower (trim term)) (changes.foldl Change.stored []) (s.search term)) ∧
      ∀ changes' s', .startSearch ∈ changes' → Store.run {} changes' = .ok s' →
        changes'.foldl Change.stored [] = changes.foldl Change.stored [] →
          ∀ term, s'.search term = s.search term := by
  have hblank {c : Catalog} {term : Text} (hterm : trim term = []) :
      Store.search ⟨some c⟩ term = [] := by
    show (c.tags.elim [] (·.search term)).map (·.definition) = []
    cases c.tags with
    | none => rfl
    | some n =>
      have hlower : lower (trim term) = [] := lower_eq_nil.2 hterm
      show (n.search term).map (·.definition) = []
      rw [TagTrie.search, if_pos hlower, List.map_nil]
  obtain ⟨c, hrun, hc, ht, hsome, hdefinitions⟩ := run_tagsInStep h
  have hranks {term : Text} (hterm : trim term ≠ []) :
      Ranks (lower (trim term)) (changes.foldl Change.stored []) (Store.search ⟨some c⟩ term) :=
    hdefinitions ▸ ht.ranks hc hsome (mt lower_eq_nil.1 hterm)
  refine ⟨⟨some c⟩, hrun, fun term => hblank, fun term => hranks, ?_⟩
  intro changes' s' h' hrun' hstored term
  obtain ⟨c', hrun'', hc', ht', hsome', hdefinitions'⟩ := run_tagsInStep h'
  obtain rfl := Except.ok.inj (hrun'.symm.trans hrun'')
  by_cases hterm : trim term = []
  · rw [hblank hterm, hblank hterm]
  · have hranks' := ht'.ranks hc' hsome' (mt lower_eq_nil.1 hterm)
    rw [hdefinitions', hstored] at hranks'
    exact hranks'.unique (hranks hterm)

def taggedFleet : Definition :=
  (({} : Definition).setId "fleet").addTags ["Navy", "Naval yard"]

/-- Found once, though two tags match, and listed after the search was started. -/
theorem search_ranks_taggedFleet :
    .startSearch ∈ [Change.startSearch, .add taggedFleet false] ∧
      ∃ s, Store.run {} [.startSearch, .add taggedFleet false] = .ok s ∧
        Ranks "na" [taggedFleet] (s.search " NA") := by
  have hmem : .startSearch ∈ [Change.startSearch, .add taggedFleet false] := List.mem_cons_self
  have hterm : trim (" NA" : Text) ≠ [] ∧ lower (trim " NA") = "na" := by decide +kernel
  obtain ⟨s, hrun, -, hranks, -⟩ := search_ranks _ hmem
  exact ⟨hmem, s, hrun, hterm.2 ▸ hranks _ hterm.1⟩

end GameScript
