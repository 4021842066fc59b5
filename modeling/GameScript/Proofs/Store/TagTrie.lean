import GameScript.Proofs.Store.TagIndex

/-!
# What a trie of tags stands for

A trie is kept tidy: the branches of a node are in order, and none of them is empty. Read off in
that order, it is a table of tags (`TagTrie.table`), and what `collect` finds below a node is what
is listed in the part of the table that begins with its path. `n.Represents i` says that the trie
`n` lists under each tag what the table `i` lists. Adding and removing an object keep that
(`Represents.insert`, `Represents.erase`), and so both answer every search alike
(`Represents.search_eq`). Since nothing empty is kept, the trie is empty again once every object is
removed (`Represents.isEmpty_eq`).
-/

namespace GameScript.TagTrie

open Text

variable {n m : TagTrie} {i : TagIndex} {h : Handle} {hs : List Handle} {c d : Char}
  {t u v : Text} {bs : List (Char × TagTrie)}

/-! ## Branches -/

@[simp] theorem get?_setBranch :
    Table.get? d (setBranch c n bs) = if c = d then some n else Table.get? d bs := by
  induction bs with
  | nil => simp [setBranch, Table.get?]
  | cons e bs ih =>
    obtain ⟨b, m⟩ := e
    rw [setBranch]
    split
    · next hcb =>
      subst hcb
      by_cases hcd : c = d <;> simp [Table.get?, hcd]
    · next hcb =>
      split
      · simp [Table.get?]
      · rw [Table.get?, ih, Table.get?]
        by_cases hcd : c = d
        · simp [hcd, show b ≠ d from fun hbd => hcb (hcd.trans hbd.symm)]
        · simp [hcd]

theorem mem_setBranch {e : Char × TagTrie} (he : e ∈ setBranch c n bs) : e = (c, n) ∨ e ∈ bs := by
  induction bs with
  | nil => exact .inl (List.mem_singleton.1 he)
  | cons b bs ih =>
    rw [setBranch] at he
    split at he
    · exact (List.mem_cons.1 he).imp_right (List.mem_cons_of_mem _)
    · split at he
      · exact List.mem_cons.1 he
      · rcases List.mem_cons.1 he with rfl | he
        · exact .inr List.mem_cons_self
        · exact (ih he).imp_right (List.mem_cons_of_mem _)

theorem pairwise_setBranch (hbs : bs.Pairwise fun a b => a.1 < b.1) :
    (setBranch c n bs).Pairwise fun a b => a.1 < b.1 := by
  induction bs with
  | nil => exact List.pairwise_singleton ..
  | cons e bs ih =>
    obtain ⟨b, m⟩ := e
    obtain ⟨hall, hbs⟩ := List.pairwise_cons.1 hbs
    rw [setBranch]
    split
    · next hcb => exact List.pairwise_cons.2 ⟨hcb ▸ hall, hbs⟩
    · next hcb =>
      split
      · next hlt =>
        refine List.pairwise_cons.2 ⟨fun f hf => ?_, List.pairwise_cons.2 ⟨hall, hbs⟩⟩
        rcases List.mem_cons.1 hf with rfl | hf
        · exact hlt
        · exact hlt.trans (hall f hf)
      · next hlt =>
        have hbc : b < c := lt_of_le_of_ne (not_lt.1 hlt) (Ne.symm hcb)
        refine List.pairwise_cons.2 ⟨fun f hf => ?_, ih hbs⟩
        rcases mem_setBranch hf with rfl | hf
        · exact hbc
        · exact hall f hf

/-! ## Tidy tries -/

/-- Whether branches are in order at every node, and none of them is empty. -/
inductive IsTidy : TagTrie → Prop where
  | node {hs : List Handle} {bs : List (Char × TagTrie)} :
    (bs.Pairwise fun a b => a.1 < b.1) → (∀ e ∈ bs, e.2.isEmpty = false) →
      (∀ e ∈ bs, IsTidy e.2) → IsTidy (.node hs bs)

theorem isTidy_empty : IsTidy empty := .node .nil (by rintro e ⟨⟩) (by rintro e ⟨⟩)

theorem IsTidy.of_get? (hn : n.IsTidy) (hm : n.branches.get? c = some m) : m.IsTidy := by
  obtain ⟨-, -, htidy⟩ := hn
  exact htidy _ (Table.mem_of_get? hm)

theorem IsTidy.withEntries (hn : n.IsTidy) (hs : List Handle) : IsTidy (.node hs n.branches) := by
  obtain ⟨hsorted, hfilled, htidy⟩ := hn
  exact .node hsorted hfilled htidy

theorem IsTidy.withBranch (hn : n.IsTidy) (hm : m.IsTidy) (hfilled : m.isEmpty = false) :
    IsTidy (.node n.entries (setBranch c m n.branches)) := by
  obtain ⟨hsorted, hall, htidy⟩ := hn
  refine .node (pairwise_setBranch hsorted) (fun e he => ?_) fun e he => ?_
  · rcases mem_setBranch he with rfl | he
    · exact hfilled
    · exact hall e he
  · rcases mem_setBranch he with rfl | he
    · exact hm
    · exact htidy e he

theorem IsTidy.withoutBranch (hn : n.IsTidy) (c : Char) :
    IsTidy (.node n.entries (n.branches.erase c)) := by
  obtain ⟨hsorted, hall, htidy⟩ := hn
  exact .node (hsorted.filter _) (fun e he => hall e (List.mem_of_mem_filter he))
    fun e he => htidy e (List.mem_of_mem_filter he)

@[simp] theorem setBranch_ne_nil : setBranch c n bs ≠ [] := by
  cases bs with
  | nil => simp [setBranch]
  | cons e bs =>
    rw [setBranch]
    split
    · simp
    · split <;> simp

@[simp] theorem take_ne_nil : take hs h ≠ [] := by
  rw [take]
  split
  · rintro rfl
    simp_all
  · simp

@[simp] theorem isEmpty_addAt : (n.addAt h t).isEmpty = false := by
  cases t with
  | nil => simp [addAt, isEmpty, entries]
  | cons c cs => simp [addAt, isEmpty, branches]

theorem IsTidy.addAt (hn : n.IsTidy) : (n.addAt h t).IsTidy := by
  induction t generalizing n with
  | nil => exact hn.withEntries _
  | cons c cs ih =>
    refine hn.withBranch (ih ?_) isEmpty_addAt
    cases hget : n.branches.get? c with
    | none => exact isTidy_empty
    | some m => exact hn.of_get? hget

/-- Removing an object leaves no empty branch behind. -/
theorem IsTidy.eraseAt (hn : n.IsTidy) : (n.eraseAt h t).IsTidy := by
  induction t generalizing n with
  | nil => exact hn.withEntries _
  | cons c cs ih =>
    rw [TagTrie.eraseAt]
    cases hget : n.branches.get? c with
    | none => exact hn
    | some m =>
      dsimp only
      split
      · exact hn.withoutBranch c
      · next hfilled => exact hn.withBranch (ih (hn.of_get? hget)) (by simpa using hfilled)

/-! ## What is listed at a path -/

def under (t : Text) (n : TagTrie) : List Handle := (n.node? t).elim [] entries

@[simp] theorem under_nil : n.under [] = n.entries := rfl

theorem under_cons : n.under (c :: t) = (n.branches.get? c).elim [] (under t) := by
  rw [under, node?]
  cases n.branches.get? c <;> rfl

@[simp] theorem under_empty : empty.under t = [] := by
  cases t <;> rfl

@[simp] theorem under_addAt :
    (n.addAt h u).under t = if u = t then take (n.under t) h else n.under t := by
  induction u generalizing n t with
  | nil =>
    cases t with
    | nil => rfl
    | cons d ds => simp [under_cons, addAt, branches]
  | cons c cs ih =>
    cases t with
    | nil => rfl
    | cons d ds =>
      rw [under_cons, addAt, branches, get?_setBranch, under_cons]
      by_cases hcd : c = d
      · subst hcd
        cases hget : n.branches.get? c with
        | none => simp [ih]
        | some m => simp [ih]
      · simp [hcd]

theorem under_of_isEmpty (hn : n.isEmpty = true) : n.under t = [] := by
  obtain ⟨hs, bs⟩ := n
  obtain ⟨rfl, rfl⟩ : hs = [] ∧ bs = [] := by simpa [isEmpty, entries, branches] using hn
  exact under_empty

@[simp] theorem under_eraseAt : (n.eraseAt h u).under t =
    if u = t then (n.under t).filter (·.number ≠ h.number) else n.under t := by
  induction u generalizing n t with
  | nil =>
    cases t with
    | nil => rfl
    | cons d ds => simp [under_cons, eraseAt, branches]
  | cons c cs ih =>
    cases t with
    | nil =>
      rw [eraseAt]
      split <;> rfl
    | cons d ds =>
      rw [eraseAt, under_cons]
      cases hget : n.branches.get? c with
      | none =>
        by_cases hcd : c = d
        · subst hcd
          simp [hget, under_cons]
        · simp [hcd, under_cons]
      | some m =>
        have hbranch : (Table.get? d (if (eraseAt h cs m).isEmpty then n.branches.erase c
            else setBranch c (eraseAt h cs m) n.branches)).elim [] (under ds) =
              if c = d then (eraseAt h cs m).under ds else n.under (d :: ds) := by
          split
          · next hempty =>
            rw [Table.get?_erase, under_cons]
            split
            · exact (under_of_isEmpty hempty).symm
            · rfl
          · rw [get?_setBranch, under_cons]
            split <;> rfl
        refine hbranch.trans ?_
        by_cases hcd : c = d
        · subst hcd
          simp [ih, under_cons, hget]
        · simp [hcd]

theorem IsTidy.exists_under (hn : n.IsTidy) (hfilled : n.isEmpty = false) :
    ∃ t, n.under t ≠ [] := by
  induction hn with
  | @node hs bs _ hall _ ih =>
    cases hs with
    | cons h hs => exact ⟨[], List.cons_ne_nil h hs⟩
    | nil =>
      cases bs with
      | nil => cases hfilled
      | cons e bs =>
        obtain ⟨t, ht⟩ := ih e List.mem_cons_self (hall e List.mem_cons_self)
        refine ⟨e.1 :: t, ?_⟩
        rw [under_cons, branches, Table.get?, if_pos rfl]
        exact ht

/-- A tidy trie that lists nothing is empty: cut back to the root. -/
theorem IsTidy.isEmpty_iff (hn : n.IsTidy) : n.isEmpty = true ↔ ∀ t, n.under t = [] := by
  refine ⟨fun h t => under_of_isEmpty h, fun h => ?_⟩
  by_contra hfilled
  obtain ⟨t, ht⟩ := hn.exists_under (Bool.not_eq_true _ ▸ hfilled)
  exact ht (h t)

/-! ## The table of a trie -/

mutual

/-- What is listed in a trie, in the order of its paths. -/
def table : TagTrie → TagIndex
  | node hs bs => (if hs = [] then [] else [([], hs)]) ++ tableAll bs

def tableAll : List (Char × TagTrie) → TagIndex
  | [] => []
  | (c, n) :: bs => (table n).map (fun e => (c :: e.1, e.2)) ++ tableAll bs

end

mutual

theorem collect_eq (seen : List Handle) : (n : TagTrie) →
    n.collect seen = (n.table.flatMap (·.2)).foldl take seen
  | node hs bs => by
    rw [collect, collectAll_eq (hs.foldl take seen) bs, table, List.flatMap_append,
      List.foldl_append]
    congr
    split
    · next hnone => simp [hnone]
    · simp

theorem collectAll_eq (seen : List Handle) : (bs : List (Char × TagTrie)) →
    collectAll seen bs = ((tableAll bs).flatMap (·.2)).foldl take seen
  | [] => rfl
  | (c, n) :: bs => by
    rw [collectAll, collectAll_eq (n.collect seen) bs, collect_eq seen n, tableAll,
      List.flatMap_append, List.foldl_append, List.flatMap_map]

end

theorem tableAll_eq : tableAll bs =
    bs.flatMap fun b => b.2.table.map fun e => (b.1 :: e.1, e.2) := by
  induction bs with
  | nil => rfl
  | cons b bs ih => rw [tableAll, ih, List.flatMap_cons]

/-- The table holds what is listed at each path, where something is. -/
theorem IsTidy.mem_table (hn : n.IsTidy) : (t, hs) ∈ n.table ↔ hs ≠ [] ∧ n.under t = hs := by
  induction hn generalizing t hs with
  | @node gs bs hsorted _ _ ih =>
    have hkeys : (Table.keys bs).Nodup := List.pairwise_map.2 (hsorted.imp ne_of_lt)
    rw [table, List.mem_append, tableAll_eq, List.mem_flatMap]
    cases t with
    | nil =>
      rw [under_nil, entries, or_iff_left (by simp)]
      split
      · next hnone => simp [hnone, eq_comm]
      · next hsome =>
        simp only [List.mem_singleton, Prod.mk.injEq, true_and]
        exact ⟨fun h => ⟨h ▸ hsome, h.symm⟩, fun h => h.2.symm⟩
    | cons c cs =>
      rw [or_iff_right (by split <;> simp), under_cons, branches]
      constructor
      · rintro ⟨⟨b, m⟩, hb, hmapped⟩
        obtain ⟨⟨u, gs⟩, he, heq⟩ := List.mem_map.1 hmapped
        simp only [Prod.mk.injEq, List.cons.injEq] at heq
        obtain ⟨⟨rfl, rfl⟩, rfl⟩ := heq
        rw [(Table.mem_iff hkeys).1 hb]
        exact (ih _ hb).1 he
      · rintro ⟨hne, hunder⟩
        cases hget : Table.get? c bs with
        | none =>
          rw [hget] at hunder
          exact absurd hunder.symm hne
        | some m =>
          rw [hget] at hunder
          have hmem := Table.mem_of_get? hget
          exact ⟨(c, m), hmem, List.mem_map.2 ⟨(cs, hs), (ih _ hmem).2 ⟨hne, hunder⟩, rfl⟩⟩

theorem IsTidy.pairwise_table (hn : n.IsTidy) : n.table.Pairwise fun a b => a.1 < b.1 := by
  induction hn with
  | @node gs bs hsorted _ _ ih =>
    rw [table, List.pairwise_append, tableAll_eq, List.pairwise_flatMap]
    refine ⟨?_, ⟨fun b hb => ?_, hsorted.imp fun {a b} hab e he f hf => ?_⟩, fun e he f hf => ?_⟩
    · split <;> simp
    · exact List.pairwise_map.2 ((ih b hb).imp fun {e f} h =>
        List.cons_lt_cons_iff.2 (.inr ⟨rfl, h⟩))
    · obtain ⟨e, -, rfl⟩ := List.mem_map.1 he
      obtain ⟨f, -, rfl⟩ := List.mem_map.1 hf
      exact List.cons_lt_cons_iff.2 (.inl hab)
    · obtain ⟨b, -, hf⟩ := List.mem_flatMap.1 hf
      obtain ⟨f, -, rfl⟩ := List.mem_map.1 hf
      split at he
      · cases he
      · rw [List.mem_singleton.1 he]
        exact List.nil_lt_cons ..

/-! ## Searching -/

theorem IsTidy.of_node? (hn : n.IsTidy) (hm : n.node? t = some m) : m.IsTidy := by
  induction t generalizing n with
  | nil => exact Option.some.inj hm ▸ hn
  | cons c cs ih =>
    obtain ⟨k, hk, hm⟩ := Option.bind_eq_some_iff.1 hm
    exact ih (hn.of_get? hk) hm

theorem under_append : n.under (t ++ u) = (n.node? t).elim [] (under u) := by
  induction t generalizing n with
  | nil => rfl
  | cons c cs ih =>
    rw [List.cons_append, under_cons, node?]
    cases n.branches.get? c with
    | none => rfl
    | some m => exact ih

theorem append_lt_append : t ++ u < t ++ v ↔ u < v := by
  induction t with
  | nil => rfl
  | cons c cs ih => rw [List.cons_append, List.cons_append, List.cons_lt_cons_self, ih]

/-- Below the node of a path is what the table lists of the tags that begin with it. -/
theorem IsTidy.table_below (hn : n.IsTidy) (head : Text) :
    n.table.filter (head.isPrefixOf ·.1) =
      (n.node? head).elim [] fun m => m.table.map fun e => (head ++ e.1, e.2) := by
  refine eq_of_pairwise_lt (hn.pairwise_table.filter _) ?sorted fun ⟨t, hs⟩ => ?mem
  case sorted =>
    cases hm : n.node? head with
    | none => exact .nil
    | some m =>
      exact List.pairwise_map.2 ((hn.of_node? hm).pairwise_table.imp append_lt_append.2)
  case mem =>
    rw [List.mem_filter, hn.mem_table, List.isPrefixOf_iff_prefix]
    constructor
    · rintro ⟨⟨hne, hunder⟩, u, rfl⟩
      rw [under_append] at hunder
      cases hm : n.node? head with
      | none =>
        rw [hm] at hunder
        exact absurd hunder.symm hne
      | some m =>
        rw [hm] at hunder
        exact List.mem_map.2 ⟨(u, hs), (hn.of_node? hm).mem_table.2 ⟨hne, hunder⟩, rfl⟩
    · intro hmem
      cases hm : n.node? head with
      | none => rw [hm] at hmem; cases hmem
      | some m =>
        rw [hm] at hmem
        obtain ⟨⟨u, gs⟩, he, heq⟩ := List.mem_map.1 hmem
        obtain ⟨rfl, rfl⟩ := Prod.mk.inj heq
        obtain ⟨hne, hunder⟩ := (hn.of_node? hm).mem_table.1 he
        refine ⟨⟨hne, ?_⟩, List.prefix_append head u⟩
        rw [under_append, hm]
        exact hunder

/-! ## Tries for tables -/

/-- Lists under every tag what the table does. -/
structure Represents (n : TagTrie) (i : TagIndex) : Prop where
  tidy : n.IsTidy
  keys : (Table.keys i).Nodup
  filled : TagIndex.Filled i
  under : ∀ t, n.under t = Index.under t i

theorem represents_empty : Represents empty [] where
  tidy := isTidy_empty
  keys := List.nodup_nil
  filled := by rintro t ⟨⟩
  under t := under_empty

theorem Represents.addAt (hn : n.Represents i) :
    (n.addAt h t).Represents (TagIndex.addTag h i t) where
  tidy := hn.tidy.addAt
  keys := TagIndex.keys_addTag hn.keys
  filled := hn.filled.addTag
  under u := by
    rw [under_addAt, TagIndex.under_addTag, hn.under]

theorem Represents.eraseAt (hn : n.Represents i) :
    (n.eraseAt h t).Represents (Index.erase t h i) where
  tidy := hn.tidy.eraseAt
  keys := Table.nodup_keys_alter hn.keys
  filled := hn.filled.erase
  under u := by
    rw [under_eraseAt, Index.under_erase, hn.under]
    split
    · next htu => rw [htu]
    · rfl

/-- What stays in step over one tag stays so over a list of them. -/
theorem Represents.foldl {f : TagTrie → Text → TagTrie} {g : TagIndex → Text → TagIndex}
    (hfg : ∀ n i t, Represents n i → Represents (f n t) (g i t)) (hn : n.Represents i)
    (tags : List Text) : (tags.foldl f n).Represents (tags.foldl g i) := by
  induction tags generalizing n i with
  | nil => exact hn
  | cons t tags ih => exact ih (hfg n i t hn)

theorem Represents.insert (hn : n.Represents i) :
    (n.insert h).Represents (TagIndex.insert h i) :=
  hn.foldl (f := fun n t => n.addAt h t) (fun _ _ _ hn => hn.addAt) _

theorem Represents.erase (hn : n.Represents i) : (n.erase h).Represents (TagIndex.erase h i) :=
  hn.foldl (f := fun n t => n.eraseAt h t) (fun _ _ _ hn => hn.eraseAt) _

section

variable {tags : Option TagTrie} {P Q : TagIndex → Prop}

/-- A trie that is kept stands for a table with some property, and still does when both change. -/
theorem represents_map {f : TagTrie → TagTrie} {g : TagIndex → TagIndex}
    (hfg : ∀ n i, Represents n i → Represents (f n) (g i)) (hPQ : ∀ i, P i → Q (g i))
    (htags : ∀ n ∈ tags, ∃ i, n.Represents i ∧ P i) :
    ∀ n ∈ tags.map f, ∃ i, n.Represents i ∧ Q i := by
  intro n hn
  obtain ⟨m, hm, rfl⟩ := Option.map_eq_some_iff.1 hn
  obtain ⟨i, hi, hP⟩ := htags m hm
  exact ⟨g i, hfg m i hi, hPQ i hP⟩

theorem represents_map_insert (hPQ : ∀ i, P i → Q (TagIndex.insert h i)) :
    (∀ n ∈ tags, ∃ i, n.Represents i ∧ P i) →
      ∀ n ∈ tags.map (·.insert h), ∃ i, n.Represents i ∧ Q i :=
  represents_map (fun _ _ hn => hn.insert) hPQ

theorem represents_map_erase (hPQ : ∀ i, P i → Q (TagIndex.erase h i)) :
    (∀ n ∈ tags, ∃ i, n.Represents i ∧ P i) →
      ∀ n ∈ tags.map (·.erase h), ∃ i, n.Represents i ∧ Q i :=
  represents_map (fun _ _ hn => hn.erase) hPQ

end

/-- The trie is empty when the table is. -/
theorem Represents.isEmpty_eq (hn : n.Represents i) : n.isEmpty = i.isEmpty := by
  rw [Bool.eq_iff_iff, hn.tidy.isEmpty_iff, List.isEmpty_iff]
  constructor
  · intro hnone
    cases i with
    | nil => rfl
    | cons e i =>
      have hget := hn.filled.get? (t := e.1)
      rw [← hn.under, if_pos (hnone e.1), Table.get?, if_pos rfl] at hget
      cases hget
  · rintro rfl t
    exact hn.under t

theorem Represents.perm (hn : n.Represents i) : List.Perm n.table i := by
  have hnodup : n.table.Nodup := hn.tidy.pairwise_table.imp fun h he => h.ne (congrArg _ he)
  refine (List.perm_ext_iff_of_nodup hnodup (List.Nodup.of_map _ hn.keys)).2 fun ⟨t, hs⟩ => ?_
  rw [hn.tidy.mem_table, hn.under, Table.mem_iff hn.keys, TagIndex.Filled.get? hn.filled]
  split
  · next hnone => simp [hnone, eq_comm]
  · next hsome =>
    rw [Option.some.injEq, and_iff_right_of_imp]
    rintro rfl
    exact hsome

/-- The trie has the part of the table with one head in order. -/
theorem Represents.sortBy_filter (hn : n.Represents i) (head : Text) :
    sortBy (·.1) (i.filter (head.isPrefixOf ·.1)) = n.table.filter (head.isPrefixOf ·.1) := by
  have hkeys : ((i.filter (head.isPrefixOf ·.1)).map (·.1)).Nodup :=
    hn.keys.sublist (List.filter_sublist.map _)
  refine eq_of_pairwise_lt (pairwise_lt_sortBy hkeys) (hn.tidy.pairwise_table.filter _) fun e => ?_
  rw [sortBy_perm.mem_iff, (hn.perm.filter _).mem_iff]

/-- The trie and the table find the same. -/
theorem Represents.search_eq (hn : n.Represents i) (term : Text) :
    n.search term = i.search term := by
  rw [search, TagIndex.search]
  split
  · rfl
  · rw [hn.sortBy_filter, hn.tidy.table_below]
    cases n.node? (lower (trim term)) with
    | none => rfl
    | some m =>
      rw [Option.elim, Option.elim, collect_eq, List.flatMap_map]
      rfl

end GameScript.TagTrie
