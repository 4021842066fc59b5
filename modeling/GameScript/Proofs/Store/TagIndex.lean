import GameScript.Proofs.Store.Index
import GameScript.Proofs.Store.Table
import GameScript.Proofs.Text.Ordering
import GameScript.Store.TagTrie
import Mathlib.Data.List.Induction

/-!
# What a search by tags finds

Tags can be listed in one table, from which a search takes the part that begins with the term, in
order. That is what a trie stands for (`TagTrie.Represents`), and what a search finds is shown of
the table.

`i.ListsTags hs` says that under each tag `i` has the handles of `hs` with that tag, in the order
of `hs`; adding and removing a handle keep it (`ListsTags.insert`, `ListsTags.erase`). A search
goes over the tags that begin with the term in order, and takes each handle at the first of
them: `ListsTags.search_eq`. So what is found is ranked by that tag (`ListsTags.ranks`).

`i.Within hs` says less, and of every index in use: `i` has none but handles of `hs`, under their
own tags, and no tag without one. What a search finds then goes by what is under each tag
(`Within.search_eq`).
-/

namespace GameScript

open Text
open TagTrie (take)

abbrev TagIndex := Index Text

namespace TagIndex

/-- Lists an object under a tag, unless it is listed there. -/
def addTag (h : Handle) (i : TagIndex) (tag : Text) : TagIndex :=
  if (i.under tag).any (·.number = h.number) then i else Index.insert tag h i

def insert (h : Handle) (i : TagIndex) : TagIndex := h.definition.tags.foldl (addTag h) i

def erase (h : Handle) (i : TagIndex) : TagIndex :=
  h.definition.tags.foldl (fun i tag => Index.erase tag h i) i

/-- The first of every object in a list. -/
def distinct (hs : List Handle) : List Handle := hs.foldl take []

/-- What the trie is to find: the objects with a tag that begins with the term, each once, in the
order of the first such tag. -/
def search (term : Text) (i : TagIndex) : List Handle :=
  let term := lower (trim term)
  if term = [] then []
  else distinct ((sortBy (·.1) (i.filter fun e => term.isPrefixOf e.1)).flatMap (·.2))

end TagIndex

/-- The least tag of a definition that begins with `head`. -/
def Definition.firstTag? (d : Definition) (head : Text) : Option Text :=
  (d.tags.filter (head.isPrefixOf ·)).min?

/-- The list `found` has those of `ds` with a tag that begins with `head`, each once. They are
ordered by the least such tag, and those with the same one stand in the order of `ds`. -/
structure Ranks (head : Text) (ds found : List Definition) : Prop where
  perm : found.Perm (ds.filter (·.tags.any (head.isPrefixOf ·)))
  ordered : found.Pairwise fun a b => ∀ s ∈ a.firstTag? head, ∀ t ∈ b.firstTag? head, s ≤ t
  stable : ∀ t, found.filter (·.firstTag? head = some t) = ds.filter (·.firstTag? head = some t)

namespace TagIndex

/-! ## What is listed -/

structure ListsTags (i : TagIndex) (hs : List Handle) : Prop where
  keys : (Table.keys i).Nodup
  under : ∀ t, Index.under t i = hs.filter (t ∈ ·.definition.tags)

variable {i j : TagIndex} {h g : Handle} {hs hs₁ hs₂ : List Handle} {t u : Text} {tags : List Text}

theorem listsTags_nil : ListsTags [] [] := ⟨List.nodup_nil, fun _ => rfl⟩

theorem keys_foldl {f : TagIndex → Text → TagIndex}
    (hf : ∀ i t, (Table.keys i).Nodup → (Table.keys (f i t)).Nodup)
    (hi : (Table.keys i).Nodup) : (Table.keys (tags.foldl f i)).Nodup := by
  induction tags generalizing i with
  | nil => exact hi
  | cons t tags ih => exact ih (hf i t hi)

theorem keys_addTag (hi : (Table.keys i).Nodup) : (Table.keys (addTag h i t)).Nodup := by
  rw [addTag]
  split
  · exact hi
  · exact Table.nodup_keys_alter hi

@[simp] theorem under_addTag :
    Index.under t (addTag h i u) = if u = t then take (Index.under t i) h else Index.under t i := by
  rw [addTag, take]
  by_cases hut : u = t
  · subst hut
    split
    · simp [*]
    · simp [*]
  · rw [if_neg hut]
    split
    · rfl
    · rw [Index.under_insert, if_neg hut]

/-- A handle that is not listed yet is listed once under each of the tags. -/
theorem under_addTags (hfresh : ∀ t, ∀ g ∈ Index.under t i, g.number ≠ h.number) :
    Index.under t (tags.foldl (addTag h) i) =
      Index.under t i ++ if t ∈ tags then [h] else [] := by
  induction tags using List.reverseRecOn generalizing t with
  | nil => simp
  | append_singleton tags u ih =>
    rw [List.foldl_append, List.foldl_cons, List.foldl_nil, addTag]
    have hany : ((Index.under u (tags.foldl (addTag h) i)).any fun g => g.number = h.number) =
        decide (u ∈ tags) := by
      have hnone : (Index.under u i).any (fun g => g.number = h.number) = false := by
        simpa using hfresh u
      rw [ih, List.any_append, hnone]
      by_cases hu : u ∈ tags <;> simp [hu]
    rw [hany]
    by_cases hu : u ∈ tags
    · have hmem : t ∈ tags ++ [u] ↔ t ∈ tags := by
        rw [List.mem_append, List.mem_singleton, or_iff_left_of_imp]
        rintro rfl
        exact hu
      simp only [hu, decide_true, if_true, ih, hmem]
    · simp only [hu, decide_false, Bool.false_eq_true, if_false, Index.under_insert, ih]
      by_cases hut : u = t
      · subst hut
        simp [hu]
      · simp [hut, Ne.symm hut]

theorem ListsTags.insert (hi : ListsTags i hs) (hfresh : ∀ g ∈ hs, g.number ≠ h.number) :
    ListsTags (TagIndex.insert h i) (hs ++ [h]) where
  keys := keys_foldl (fun _ _ => keys_addTag) hi.keys
  under t := by
    have hunder : ∀ t, ∀ g ∈ Index.under t i, g.number ≠ h.number := by
      intro t g hg
      rw [hi.under t] at hg
      exact hfresh g (List.mem_filter.1 hg).1
    rw [TagIndex.insert, under_addTags hunder, hi.under, List.filter_append, List.filter_singleton]
    simp

theorem under_eraseTags :
    Index.under t (tags.foldl (fun i t => Index.erase t h i) i) =
      if t ∈ tags then (Index.under t i).filter (·.number ≠ h.number) else Index.under t i := by
  induction tags generalizing i with
  | nil => simp
  | cons u tags ih =>
    rw [List.foldl_cons, ih, Index.under_erase]
    by_cases hut : u = t
    · subst hut
      simp
    · simp [hut, Ne.symm hut]

theorem ListsTags.erase (hi : ListsTags i (hs₁ ++ h :: hs₂))
    (hd : ((hs₁ ++ h :: hs₂).map (·.number)).Nodup) :
    ListsTags (TagIndex.erase h i) (hs₁ ++ hs₂) where
  keys := keys_foldl (fun _ _ => Table.nodup_keys_alter) hi.keys
  under t := by
    rw [TagIndex.erase, under_eraseTags, hi.under]
    by_cases ht : t ∈ h.definition.tags
    · rw [if_pos ht, ← Index.filter_number hd, List.filter_filter, List.filter_filter]
      simp only [Bool.and_comm]
    · rw [if_neg ht, List.filter_append, List.filter_append,
        List.filter_cons_of_neg (by simpa using ht)]

/-! ## Objects that are listed again -/

/-- No tag is kept without a handle. -/
def Filled (i : TagIndex) : Prop := ∀ t, Table.get? t i ≠ some []

/-- What is listed under a tag is a handle of `hs` with that tag. -/
structure Within (i : TagIndex) (hs : List Handle) : Prop where
  keys : (Table.keys i).Nodup
  filled : Filled i
  under : ∀ t, ∀ g ∈ Index.under t i, t ∈ g.definition.tags ∧ g ∈ hs

theorem within_nil : Within [] [] where
  keys := List.nodup_nil
  filled := by rintro t ⟨⟩
  under := by rintro t g ⟨⟩

theorem Filled.addTag (hi : Filled i) : Filled (addTag h i t) := by
  intro u
  rw [TagIndex.addTag]
  split
  · exact hi u
  · rw [Index.insert, Table.get?_alter]
    split
    · simp
    · exact hi u

theorem Filled.erase (hi : Filled i) : Filled (Index.erase t h i) := by
  intro u
  rw [Index.erase, Table.get?_alter]
  split
  · cases hf : ((Table.get? t i).getD []).filter (·.number ≠ h.number) <;> simp
  · exact hi u

theorem mem_under_addTags (hg : g ∈ Index.under t (tags.foldl (addTag h) i)) :
    g ∈ Index.under t i ∨ g = h ∧ t ∈ tags := by
  induction tags generalizing i with
  | nil => exact .inl hg
  | cons u tags ih =>
    rcases ih hg with hu | ⟨rfl, ht⟩
    · rw [addTag] at hu
      split at hu
      · exact .inl hu
      · rw [Index.under_insert] at hu
        split at hu
        · next hut =>
          subst hut
          rw [List.mem_append, List.mem_singleton] at hu
          exact hu.imp_right fun h => ⟨h, List.mem_cons_self⟩
        · exact .inl hu
    · exact .inr ⟨rfl, List.mem_cons_of_mem _ ht⟩

theorem Within.insert (hi : Within i hs) : Within (TagIndex.insert h i) (hs ++ [h]) where
  keys := keys_foldl (fun _ _ => keys_addTag) hi.keys
  filled := List.foldlRecOn (motive := Filled) _ _ hi.filled fun _ hj _ _ => hj.addTag
  under t g hg := by
    rcases mem_under_addTags hg with hg | ⟨rfl, ht⟩
    · exact ⟨(hi.under t g hg).1, List.mem_append_left _ (hi.under t g hg).2⟩
    · exact ⟨ht, List.mem_append_right _ List.mem_cons_self⟩

theorem Within.erase (hi : Within i hs₁) (hstay : ∀ g ∈ hs₁, g ≠ h → g ∈ hs₂) :
    Within (TagIndex.erase h i) hs₂ where
  keys := keys_foldl (fun _ _ => Table.nodup_keys_alter) hi.keys
  filled := List.foldlRecOn (motive := Filled) _ _ hi.filled fun _ hj _ _ => hj.erase
  under t g hg := by
    rw [TagIndex.erase, under_eraseTags] at hg
    split at hg
    · obtain ⟨hold, hne⟩ := List.mem_filter.1 hg
      obtain ⟨htag, hmem⟩ := hi.under t g hold
      refine ⟨htag, hstay g hmem ?_⟩
      rintro rfl
      simp at hne
    · next hnt =>
      obtain ⟨htag, hmem⟩ := hi.under t g hg
      refine ⟨htag, hstay g hmem ?_⟩
      rintro rfl
      exact hnt htag

/-- A tag index without empty entries is known by what it lists. -/
theorem Filled.get? (hi : Filled i) :
    Table.get? t i = if Index.under t i = [] then none else some (Index.under t i) := by
  have hfilled := hi t
  rw [Index.under]
  cases hget : Table.get? t i with
  | none => simp
  | some gs =>
    have hne : gs ≠ [] := fun h => hfilled (hget.trans (congrArg some h))
    simp [hne]

/-- A search goes by what is listed under each tag. -/
theorem Within.search_eq (hi : Within i hs₁) (hj : Within j hs₂)
    (h : ∀ t, Index.under t i = Index.under t j) (term : Text) :
    search term i = search term j := by
  have hperm : List.Perm i j :=
    Table.perm_of_get?_eq hi.keys hj.keys fun t => by rw [hi.filled.get?, hj.filled.get?, h t]
  have hkeys (head : Text) : ((i.filter fun e => head.isPrefixOf e.1).map (·.1)).Nodup :=
    hi.keys.sublist (List.filter_sublist.map _)
  simp only [search, sortBy_eq_of_perm (hperm.filter _) (hkeys _)]

theorem under_erase_insert (hnew : ∀ t, ∀ g ∈ Index.under t i, g.number ≠ h.number) :
    Index.under t (TagIndex.erase h (TagIndex.insert h i)) = Index.under t i := by
  rw [TagIndex.erase, under_eraseTags, TagIndex.insert, under_addTags hnew]
  split
  · rw [List.filter_append, List.filter_eq_self.2 fun g hg => decide_eq_true (hnew t g hg)]
    simp
  · rw [List.append_nil]

/-! ## Each object once -/

/-- Of different objects, those that are new are added. -/
theorem foldl_take {seen : List Handle} (hd : (hs.map (·.number)).Nodup) :
    hs.foldl take seen = seen ++ hs.filter fun h => !seen.any (·.number = h.number) := by
  induction hs generalizing seen with
  | nil => simp
  | cons h hs ih =>
    rw [List.map_cons, List.nodup_cons] at hd
    rw [List.foldl_cons, ih hd.2, take]
    by_cases hseen : seen.any (·.number = h.number) = true
    · rw [if_pos hseen, List.filter_cons_of_neg (by simp [hseen])]
    · rw [if_neg hseen, List.filter_cons_of_pos (by simpa using hseen), List.append_assoc,
        List.singleton_append]
      have hother : ∀ g ∈ hs, ((seen ++ [h]).any fun x => x.number = g.number) =
          seen.any fun x => x.number = g.number := by
        intro g hg
        have hne : h.number ≠ g.number := fun hn => hd.1 (hn ▸ List.mem_map_of_mem hg)
        simp [hne]
      rw [List.filter_congr fun g hg => congrArg not (hother g hg)]

theorem any_flatMap_find? {ts : List Text} (hd : (hs.map (·.number)).Nodup) (hh : h ∈ hs) :
    (ts.flatMap fun t => hs.filter fun g => ts.find? (· ∈ g.definition.tags) = some t).any
      (·.number = h.number) = (ts.find? (· ∈ h.definition.tags)).isSome := by
  rw [Bool.eq_iff_iff, List.any_eq_true, Option.isSome_iff_exists]
  constructor
  · rintro ⟨g, hg, hn⟩
    obtain ⟨t, -, hgt⟩ := List.mem_flatMap.1 hg
    obtain ⟨hgs, hfind⟩ := List.mem_filter.1 hgt
    obtain rfl := List.inj_on_of_nodup_map hd hgs hh (by simpa using hn)
    exact ⟨t, by simpa using hfind⟩
  · rintro ⟨t, hfind⟩
    refine ⟨h, List.mem_flatMap.2 ⟨t, List.mem_of_find?_eq_some hfind, ?_⟩, by simp⟩
    exact List.mem_filter.2 ⟨hh, by simpa using hfind⟩

/-- Going over lists of handles by tag, each handle is taken at its first tag. -/
theorem foldl_take_flatMap {ts : List Text} (hd : (hs.map (·.number)).Nodup) (hts : ts.Nodup) :
    (ts.flatMap fun t => hs.filter (t ∈ ·.definition.tags)).foldl take [] =
      ts.flatMap fun t => hs.filter fun h => ts.find? (· ∈ h.definition.tags) = some t := by
  induction ts using List.reverseRecOn with
  | nil => rfl
  | append_singleton ts u ih =>
    rw [List.nodup_append] at hts
    have hne {t : Text} (ht : t ∈ ts) : t ≠ u := hts.2.2 t ht u List.mem_cons_self
    rw [List.flatMap_append, List.flatMap_singleton, List.foldl_append, ih hts.1,
      foldl_take (hd.sublist (List.filter_sublist.map _)), List.flatMap_append,
      List.flatMap_singleton]
    congr 1
    · refine List.flatMap_congr fun t ht => List.filter_congr fun h _ => ?_
      rw [List.find?_append]
      cases hf : ts.find? (· ∈ h.definition.tags) with
      | some s => simp
      | none => by_cases hu : u ∈ h.definition.tags <;> simp [hu, (hne ht).symm]
    · rw [List.filter_filter]
      refine List.filter_congr fun h hh => ?_
      rw [any_flatMap_find? hd hh, List.find?_append]
      cases hf : ts.find? (· ∈ h.definition.tags) with
      | some s => simp [hne (List.mem_of_find?_eq_some hf)]
      | none => by_cases hu : u ∈ h.definition.tags <;> simp [hu]

/-! ## What is found -/

theorem firstTag?_eq_some {d : Definition} {head m : Text} :
    d.firstTag? head = some m ↔ (m ∈ d.tags ∧ head.isPrefixOf m = true) ∧
      ∀ t ∈ d.tags, head.isPrefixOf t = true → m ≤ t := by
  rw [Definition.firstTag?, List.min?_eq_some_iff, List.mem_filter]
  simp only [List.mem_filter, and_imp]

theorem firstTag?_isSome {d : Definition} {head : Text} :
    (d.firstTag? head).isSome = d.tags.any (head.isPrefixOf ·) := by
  rw [Bool.eq_iff_iff, Definition.firstTag?, List.isSome_min?_iff, Ne, List.filter_eq_nil_iff,
    List.any_eq_true]
  simp

/-- In a sorted list of tags that begin with `head`, the first one that a definition has is its
least, when none of its tags is missing from the list. -/
theorem find?_eq_firstTag? {ts : List Text} {d : Definition} {head : Text}
    (hsorted : ts.Pairwise (· < ·)) (hhead : ∀ t ∈ ts, head.isPrefixOf t = true)
    (hall : ∀ t ∈ d.tags, head.isPrefixOf t = true → t ∈ ts) :
    ts.find? (· ∈ d.tags) = d.firstTag? head := by
  cases hm : d.firstTag? head with
  | none =>
    have hany : d.tags.any (head.isPrefixOf ·) = false := by rw [← firstTag?_isSome, hm]; rfl
    refine List.find?_eq_none.2 fun t ht htags => ?_
    have := List.any_eq_false.1 hany t (by simpa using htags)
    exact this (hhead t ht)
  | some m =>
    obtain ⟨⟨hmem, hprefix⟩, hleast⟩ := firstTag?_eq_some.1 hm
    obtain ⟨l, r, rfl⟩ := List.append_of_mem (hall m hmem hprefix)
    refine List.find?_eq_some_iff_append.2 ⟨by simpa using hmem, l, r, rfl, fun t ht => ?_⟩
    have hlt : t < m := (List.pairwise_append.1 hsorted).2.2 t ht m List.mem_cons_self
    have hnot : t ∉ d.tags := fun htags =>
      absurd hlt (not_lt.2 (hleast t htags (hhead t (List.mem_append_left _ ht))))
    simpa using hnot

/-- The tags in an index that begin with `head`, in order. -/
def headTags (head : Text) (i : TagIndex) : List Text :=
  (sortBy (·.1) (i.filter fun e => head.isPrefixOf e.1)).map (·.1)

theorem mem_headTags {head : Text} :
    t ∈ headTags head i ↔ t ∈ Table.keys i ∧ head.isPrefixOf t = true := by
  rw [headTags, (sortBy_perm.map _).mem_iff]
  simp [Table.keys]

theorem pairwise_headTags {head : Text} (hi : (Table.keys i).Nodup) :
    (headTags head i).Pairwise (· < ·) := by
  have hd : ((i.filter fun e => head.isPrefixOf e.1).map (·.1)).Nodup :=
    hi.sublist (List.filter_sublist.map _)
  exact List.pairwise_map.2 (pairwise_lt_sortBy hd)

/-- Every tag of a listed handle is in the index. -/
theorem ListsTags.mem_keys (hi : ListsTags i hs) (hh : h ∈ hs) (ht : t ∈ h.definition.tags) :
    t ∈ Table.keys i := by
  have hunder : h ∈ Index.under t i := by
    rw [hi.under]
    exact List.mem_filter.2 ⟨hh, by simpa using ht⟩
  rw [Index.under] at hunder
  rw [Table.mem_keys]
  cases hg : Table.get? t i with
  | none => rw [hg] at hunder; cases hunder
  | some a => rfl

/-- A search takes, tag by tag, the handles that have the tag as their least one. -/
theorem ListsTags.search_eq (hi : ListsTags i hs) (hd : (hs.map (·.number)).Nodup) {term : Text}
    (hterm : lower (trim term) ≠ []) :
    i.search term = (headTags (lower (trim term)) i).flatMap fun t =>
      hs.filter (·.definition.firstTag? (lower (trim term)) = some t) := by
  rw [search, if_neg hterm]
  generalize lower (trim term) = head
  have hsorted : (headTags head i).Pairwise (· < ·) := pairwise_headTags hi.keys
  -- the entries under the tags hold what is listed there
  have hentries : (sortBy (·.1) (i.filter fun e => head.isPrefixOf e.1)).flatMap (·.2) =
      (headTags head i).flatMap fun t => hs.filter (t ∈ ·.definition.tags) := by
    rw [headTags, List.flatMap_map]
    refine List.flatMap_congr fun e he => ?_
    have hmem : e ∈ i := (List.mem_filter.1 (sortBy_perm.mem_iff.1 he)).1
    rw [← hi.under, Index.under, (Table.mem_iff hi.keys).1 hmem, Option.getD_some]
  rw [hentries]
  refine (foldl_take_flatMap hd (hsorted.imp ne_of_lt)).trans ?_
  refine List.flatMap_congr fun t _ => List.filter_congr fun h hh => ?_
  rw [find?_eq_firstTag? hsorted (fun u hu => (mem_headTags.1 hu).2)]
  exact fun u hu hprefix => mem_headTags.2 ⟨hi.mem_keys hh hu, hprefix⟩

end TagIndex

/-! ## Ranking -/

variable {head : Text} {ds found found' : List Definition} {d : Definition}

theorem Ranks.isSome_firstTag? (h : Ranks head ds found) (hd : d ∈ found) :
    (d.firstTag? head).isSome = true := by
  rw [TagIndex.firstTag?_isSome]
  exact (List.mem_filter.1 (h.perm.mem_iff.1 hd)).2

/-- There is one ranking of a list. -/
theorem Ranks.unique (h : Ranks head ds found) (h' : Ranks head ds found') : found = found' := by
  have hsorted {l : List Definition} (hl : Ranks head ds l) :
      l.Pairwise fun a b => (a.firstTag? head).getD [] ≤ (b.firstTag? head).getD [] := by
    refine hl.ordered.imp_of_mem fun {a b} ha hb hab => ?_
    obtain ⟨s, hs⟩ := Option.isSome_iff_exists.1 (hl.isSome_firstTag? ha)
    obtain ⟨t, ht⟩ := Option.isSome_iff_exists.1 (hl.isSome_firstTag? hb)
    rw [hs, ht]
    exact hab s hs t ht
  have hfilter {l : List Definition} (hl : Ranks head ds l) (k : Text) :
      l.filter (fun d => (d.firstTag? head).getD [] = k) =
        ds.filter fun d => d.firstTag? head = some k := by
    rw [← hl.stable]
    refine List.filter_congr fun d hd => ?_
    obtain ⟨t, ht⟩ := Option.isSome_iff_exists.1 (hl.isSome_firstTag? hd)
    simp [ht]
  exact eq_of_filter_eq (hsorted h) (hsorted h') fun k => (hfilter h k).trans (hfilter h' k).symm

theorem filter_firstTag?_of_ne {s t : Text} (hst : s ≠ t) :
    (ds.filter (·.firstTag? head = some s)).filter (·.firstTag? head = some t) = [] := by
  rw [List.filter_filter, List.filter_eq_nil_iff]
  intro d _ h
  simp only [Bool.and_eq_true, decide_eq_true_eq] at h
  exact hst (Option.some.inj (h.2.symm.trans h.1))

/-- Definitions that were taken by their least tag, each tag once, stand with the others of their
tag as they stood before. -/
theorem filter_flatMap_firstTag? {ts : List Text} (hts : ts.Nodup)
    (hall : ∀ d ∈ ds, ∀ t ∈ d.firstTag? head, t ∈ ts) (t : Text) :
    (ts.flatMap fun t => ds.filter (·.firstTag? head = some t)).filter
      (·.firstTag? head = some t) = ds.filter (·.firstTag? head = some t) := by
  rw [List.filter_flatMap]
  by_cases ht : t ∈ ts
  · obtain ⟨l, r, rfl⟩ := List.append_of_mem ht
    rw [List.nodup_middle, List.nodup_cons, List.mem_append, not_or] at hts
    have hbefore : ∀ s ∈ l, s ≠ t := fun s hs hst => hts.1.1 (hst ▸ hs)
    have hafter : ∀ s ∈ r, s ≠ t := fun s hs hst => hts.1.2 (hst ▸ hs)
    rw [List.flatMap_append, List.flatMap_cons,
      List.flatMap_eq_nil_iff.2 fun s hs => filter_firstTag?_of_ne (hbefore s hs),
      List.flatMap_eq_nil_iff.2 fun s hs => filter_firstTag?_of_ne (hafter s hs),
      List.filter_filter]
    simp
  · have hnone : ds.filter (·.firstTag? head = some t) = [] := by
      refine List.filter_eq_nil_iff.2 fun d hd h => ht (hall d hd t ?_)
      simpa using h
    rw [hnone]
    exact List.flatMap_eq_nil_iff.2 fun s hs => filter_firstTag?_of_ne fun hst => ht (hst ▸ hs)

/-- Taking definitions by their least tag, in the order of tags, ranks them. -/
theorem ranks_flatMap {ts : List Text} (hsorted : ts.Pairwise (· < ·))
    (hall : ∀ d ∈ ds, ∀ t ∈ d.firstTag? head, t ∈ ts) :
    Ranks head ds (ts.flatMap fun t => ds.filter (·.firstTag? head = some t)) := by
  have hstable := filter_flatMap_firstTag? (hsorted.imp ne_of_lt) hall
  refine ⟨?perm, ?ordered, hstable⟩
  case perm =>
    refine List.perm_iff_count.2 fun d => ?_
    cases hd : d.firstTag? head with
    | none =>
      have hany : d.tags.any (head.isPrefixOf ·) = false := by
        rw [← TagIndex.firstTag?_isSome, hd]
        rfl
      rw [List.count_eq_zero.2, List.count_eq_zero.2]
      · simp [hany]
      · simp [hd]
    | some t =>
      have hany : d.tags.any (head.isPrefixOf ·) = true := by
        rw [← TagIndex.firstTag?_isSome, hd]
        rfl
      have hcount := congrArg (List.count d) (hstable t)
      rw [List.count_filter (by simpa using hd), List.count_filter (by simpa using hd)] at hcount
      exact hcount.trans
        (List.count_filter (p := fun d : Definition => d.tags.any (head.isPrefixOf ·)) hany).symm
  case ordered =>
    refine List.pairwise_flatMap.2 ⟨fun t _ => ?_, hsorted.imp fun {s t} hst a ha b hb => ?_⟩
    · refine List.pairwise_of_forall_mem_list fun a ha b hb => ?_
      simp only [List.mem_filter, decide_eq_true_eq] at ha hb
      simp [ha.2, hb.2]
    · simp only [List.mem_filter, decide_eq_true_eq] at ha hb
      simp [ha.2, hb.2, hst.le]

end GameScript
