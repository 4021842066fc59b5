import GameScript.Proofs.Store.Outline
import GameScript.Proofs.Text.Ordering
import Mathlib.Algebra.GroupWithZero.Nat

/-!
# The nodes of an outline

`Shows ds ns` says what the nodes `ns` show of the definitions `ds`: a directory for each folder
and in it a node for each topic (`Lists`), with the files and mods of the definitions there. The
nodes of an outline show what the outline groups (`Groups.shows`), in whatever order its parts are
stored (`Groups.nodes_eq`). In which order the contributions of a topic are stored shows only in
the order of files and mods (`Node.Alike`, `Groups.nodes_alike`).
-/

namespace GameScript

open Text

/-! ## Names, each once -/

section

variable {ts seen : List Text} {t : Text}

/-- What is done with the next name. -/
def noteName (seen : List Text) (t : Text) : List Text :=
  if t = [] || seen.contains t then seen else seen ++ [t]

theorem noteName_cases (seen : List Text) (t : Text) :
    (t = [] ∨ t ∈ seen) ∧ noteName seen t = seen ∨
      t ≠ [] ∧ t ∉ seen ∧ noteName seen t = seen ++ [t] := by
  unfold noteName
  by_cases ht : t = [] ∨ t ∈ seen
  · exact .inl ⟨ht, if_pos (by simpa using ht)⟩
  · obtain ⟨hne, hnew⟩ := not_or.1 ht
    exact .inr ⟨hne, hnew, if_neg (by simpa using ht)⟩

theorem nodup_foldl_noteName (hseen : seen.Nodup) : (ts.foldl noteName seen).Nodup := by
  induction ts generalizing seen with
  | nil => exact hseen
  | cons u ts ih =>
    refine ih ?_
    rcases noteName_cases seen u with ⟨-, hnote⟩ | ⟨-, hnew, hnote⟩
    · rw [hnote]
      exact hseen
    · rw [hnote, ← List.concat_eq_append]
      exact hseen.concat hnew

theorem mem_foldl_noteName : t ∈ ts.foldl noteName seen ↔ t ∈ seen ∨ t ≠ [] ∧ t ∈ ts := by
  induction ts generalizing seen with
  | nil => simp
  | cons u ts ih =>
    have hnote : t ∈ noteName seen u ↔ t ∈ seen ∨ t ≠ [] ∧ t = u := by
      rcases noteName_cases seen u with ⟨hu, hnote⟩ | ⟨hne, -, hnote⟩
      · rw [hnote, iff_self_or]
        rintro ⟨ht, rfl⟩
        exact hu.resolve_left ht
      · rw [hnote, List.mem_append, List.mem_singleton, and_iff_right_of_imp]
        rintro rfl
        exact hne
    rw [List.foldl_cons, ih, hnote, List.mem_cons, or_assoc, ← and_or_left]

theorem nodup_distinctNames : (distinctNames ts).Nodup := nodup_foldl_noteName List.nodup_nil

@[simp] theorem mem_distinctNames : t ∈ distinctNames ts ↔ t ≠ [] ∧ t ∈ ts := by
  refine mem_foldl_noteName.trans ?_
  simp

theorem distinctNames_perm {us : List Text} (h : ts.Perm us) :
    (distinctNames ts).Perm (distinctNames us) := by
  refine (List.perm_ext_iff_of_nodup nodup_distinctNames nodup_distinctNames).2 fun t => ?_
  rw [mem_distinctNames, mem_distinctNames, h.mem_iff]

end

/-! ## What nodes show -/

/-- The nodes list what `key` is on these definitions, each once and by name, and what `Q` says
of every node and the definitions it stands for. -/
structure Node.Lists (key : Definition → Text) (Q : List Definition → Node → Prop)
    (ds : List Definition) (ns : List Node) : Prop where
  names : ∀ k, k ∈ ns.map (fun n => lower n.name) ↔ ∃ d ∈ ds, key d = k
  sorted : ns.Pairwise fun a b => lower a.name < lower b.name
  each : ∀ n ∈ ns, Q (ds.filter (key · = lower n.name)) n

structure Node.ShowsTopic (ds : List Definition) (n : Node) : Prop where
  nodup_files : n.files.Nodup
  mem_files : ∀ file, file ∈ n.files ↔ file ≠ [] ∧ ∃ d ∈ ds, d.file = file
  nodup_mods : n.mods.Nodup
  mem_mods : ∀ mod, mod ∈ n.mods ↔ mod ≠ [] ∧ ∃ d ∈ ds, d.isFromGame = false ∧ d.modName = mod
  added : n.added = ds.countP (!·.isFromGame)
  children : n.children = []

structure Node.ShowsFolder (ds : List Definition) (n : Node) : Prop where
  key : n.key = lower n.name
  children : Node.Lists Outline.topicKey Node.ShowsTopic ds n.children
  nodup_mods : n.mods.Nodup
  mem_mods : ∀ mod, mod ∈ n.mods ↔ ∃ c ∈ n.children, mod ∈ c.mods
  added : n.added = (n.children.map (·.added)).sum

abbrev Shows (ds : List Definition) (ns : List Node) : Prop :=
  Node.Lists Outline.folderKey Node.ShowsFolder ds ns

/-! ## The nodes of a table -/

section

variable {β : Type} {key : Definition → Text} {R : Text → β → List Definition → Prop}
  {Q : List Definition → Node → Prop} {t t' : Table Text β} {ds : List Definition}
  {g : Text × β → Node}

theorem Grouped.map_name (h : Grouped key R t ds)
    (hname : ∀ {k b fs}, R k b fs → lower (g (k, b)).name = k) :
    (t.map g).map (fun n => lower n.name) = t.keys := by
  rw [List.map_map]
  refine List.map_congr_left fun e he => ?_
  exact hname (h.of_get? ((Table.mem_iff h.keys).1 he)).2

theorem Grouped.lists (h : Grouped key R t ds)
    (hnode : ∀ {k b fs}, R k b fs → lower (g (k, b)).name = k ∧ Q fs (g (k, b))) :
    Node.Lists key Q ds (Node.sortByName (t.map g)) where
  names k := by
    have hkeys : k ∈ t.keys ↔ ∃ d ∈ ds, key d = k := by
      rw [Table.mem_keys, Option.isSome_iff_exists]
      constructor
      · rintro ⟨b, hb⟩
        obtain ⟨d, hd⟩ := List.exists_mem_of_ne_nil _ (h.of_get? hb).1
        exact ⟨d, by simpa using List.mem_filter.1 hd⟩
      · rintro ⟨d, hd, rfl⟩
        exact h.exists_get? hd
    rw [← hkeys, ← h.map_name fun hR => (hnode hR).1]
    exact (sortBy_perm.map _).mem_iff
  sorted := by
    refine pairwise_lt_sortBy ?_
    rw [h.map_name fun hR => (hnode hR).1]
    exact h.keys
  each n hn := by
    obtain ⟨⟨k, b⟩, he, rfl⟩ := List.mem_map.1 (sortBy_perm.mem_iff.1 hn)
    obtain ⟨hname, hQ⟩ := hnode (h.of_get? ((Table.mem_iff h.keys).1 he)).2
    rw [hname]
    exact hQ

/-- The order in which a table is stored does not show. -/
theorem Grouped.sortByName_eq (h : Grouped key R t ds)
    (hname : ∀ {k b fs}, R k b fs → lower (g (k, b)).name = k) (ht : t.Perm t') :
    Node.sortByName (t.map g) = Node.sortByName (t'.map g) := by
  refine sortBy_eq_of_perm (ht.map g) ?_
  rw [h.map_name hname]
  exact h.keys

end

/-! ## The nodes of an outline -/

namespace Outline

variable {k : Text} {t : Topic} {f : Folder} {o : Outline} {ds : List Definition}

theorem IsTopic.shows (h : IsTopic k t ds) : Node.ShowsTopic ds t.node where
  nodup_files := nodup_distinctNames
  mem_files file := by
    have hfiles : (t.contributions.map (·.file)).Perm (ds.map (·.file)) := by
      have hmap := h.contributions.map (·.file)
      rwa [List.map_map] at hmap
    show file ∈ distinctNames _ ↔ _
    rw [mem_distinctNames, hfiles.mem_iff, List.mem_map]
  nodup_mods := nodup_distinctNames
  mem_mods mod := by
    have hadded : t.added.Perm ((ds.map Contribution.of).filter (!·.isFromGame)) :=
      h.contributions.filter _
    show mod ∈ distinctNames _ ↔ _
    rw [mem_distinctNames, (hadded.map _).mem_iff]
    simp [Contribution.of, and_assoc]
  added := by
    have hcount := h.contributions.countP_eq (!·.isFromGame)
    rw [List.countP_map] at hcount
    exact List.countP_eq_length_filter.symm.trans hcount
  children := rfl

theorem IsFolder.lists (h : IsFolder k f ds) :
    Node.Lists topicKey Node.ShowsTopic ds (f.node k).children :=
  h.topics.lists fun ht => ⟨ht.name, ht.shows⟩

theorem IsFolder.shows (h : IsFolder k f ds) : Node.ShowsFolder ds (f.node k) where
  key := h.name.symm
  children := h.lists
  nodup_mods := nodup_distinctNames
  mem_mods mod := by
    show mod ∈ distinctNames ((f.node k).children.flatMap (·.mods)) ↔ _
    rw [mem_distinctNames, List.mem_flatMap, and_iff_right_of_imp]
    rintro ⟨c, hc, hmod⟩
    exact (((h.lists.each c hc).mem_mods mod).1 hmod).1
  added := by
    show (f.node k).children.foldl (fun n c => n + c.added) 0 = _
    rw [List.sum_eq_foldl, List.foldl_map]

/-- The nodes of an outline show the definitions that it groups. -/
theorem Groups.shows (h : Groups o ds) : Shows ds o.nodes :=
  Grouped.lists (g := fun e => e.2.node e.1) h fun hf => ⟨hf.name, hf.shows⟩

/-! ## The order of folders and topics -/

/-- The same folders with the same topics, stored in another order. -/
def SameUpToOrder (o o' : Outline) : Prop :=
  ∃ o₁ : Outline, o.Perm o₁ ∧ List.Forall₂ (fun e e' : Text × Folder =>
    e.1 = e'.1 ∧ e.2.name = e'.2.name ∧ e.2.topics.Perm e'.2.topics) o₁ o'

theorem IsFolder.node_eq {f' : Folder} (h : IsFolder k f ds) (hname : f.name = f'.name)
    (htopics : f.topics.Perm f'.topics) : f.node k = f'.node k := by
  have hchildren : Node.sortByName (f.topics.map (·.2.node)) =
      Node.sortByName (f'.topics.map (·.2.node)) :=
    h.topics.sortByName_eq (g := fun e => e.2.node) IsTopic.name htopics
  rw [Folder.node, Folder.node, hname, hchildren]

/-- What is shown does not depend on the order in which folders and topics are stored. -/
theorem Groups.nodes_eq {o' : Outline} (h : Groups o ds) (ho : SameUpToOrder o o') :
    o'.nodes = o.nodes := by
  obtain ⟨o₁, hperm, hsame⟩ := ho
  have hfolder : ∀ e ∈ o₁, ∃ fs, IsFolder e.1 e.2 fs := by
    intro e he
    have hmem : (e.1, e.2) ∈ o := hperm.mem_iff.2 he
    exact ⟨_, (h.of_get? ((Table.mem_iff h.keys).1 hmem)).2⟩
  have hsorted := h.sortByName_eq (g := fun e => e.2.node e.1) IsFolder.name hperm
  have hnodes : o₁.map (fun e => e.2.node e.1) = o'.map (fun e => e.2.node e.1) := by
    clear hsorted hperm
    induction hsame with
    | nil => rfl
    | @cons e e' es es' he hes ih =>
      obtain ⟨hkey, hname, htopics⟩ := he
      obtain ⟨fs, hfs⟩ := hfolder e List.mem_cons_self
      rw [List.map_cons, List.map_cons, ih fun e he => hfolder e (List.mem_cons_of_mem _ he),
        hfs.node_eq hname htopics, hkey]
  rw [hnodes] at hsorted
  exact hsorted.symm

end Outline

/-! ## Nodes that differ in the order of names -/

/-- The same node, but for the order of the files and mods in it and in the nodes below. -/
inductive Node.Alike : Node → Node → Prop
  | intro {m n : Node} (name : m.name = n.name) (key : m.key = n.key)
      (files : m.files.Perm n.files) (mods : m.mods.Perm n.mods) (added : m.added = n.added)
      (reset : m.reset = n.reset) (children : List.Forall₂ Alike m.children n.children) :
      Alike m n

namespace Node

variable {m n : Node} {ms ns : List Node}

theorem Alike.name (h : Alike m n) : m.name = n.name := by
  cases h
  assumption

theorem Alike.mods (h : Alike m n) : m.mods.Perm n.mods := by
  cases h
  assumption

theorem Alike.added (h : Alike m n) : m.added = n.added := by
  cases h
  assumption

theorem Alike.reset (h : Alike m n) : m.reset = n.reset := by
  cases h
  assumption

theorem map_eq_of_alike {α : Type} (field : Node → α) (h : List.Forall₂ Alike ms ns)
    (hfield : ∀ m n, Alike m n → field m = field n) : ms.map field = ns.map field := by
  induction h with
  | nil => rfl
  | cons hmn _ ih => rw [List.map_cons, List.map_cons, hfield _ _ hmn, ih]

theorem mods_perm_of_alike (h : List.Forall₂ Alike ms ns) :
    (ms.flatMap (·.mods)).Perm (ns.flatMap (·.mods)) := by
  induction h with
  | nil => exact .refl _
  | cons hmn _ ih => exact hmn.mods.append ih

theorem sortByName_alike (h : List.Forall₂ Alike ms ns) :
    List.Forall₂ Alike (sortByName ms) (sortByName ns) := by
  have hsorted : List.Forall₂ (fun m n => lower m.name = lower n.name ∧ Alike m n)
      (sortByName ms) (sortByName ns) :=
    forall₂_sortBy (h.imp fun _ _ hmn => ⟨congrArg lower hmn.name, hmn⟩)
  exact hsorted.imp fun _ _ hmn => hmn.2

end Node

open Node

/-- Topics with the same contributions in another order. -/
theorem Topic.node_alike {t u : Topic} (hname : t.name = u.name) (hkey : t.key = u.key)
    (hcontributions : t.contributions.Perm u.contributions) (hreset : t.reset = u.reset) :
    Alike t.node u.node := by
  have hadded : t.added.Perm u.added := hcontributions.filter _
  exact .intro hname hkey (distinctNames_perm (hcontributions.map _))
    (distinctNames_perm (hadded.map _)) hadded.length_eq hreset .nil

theorem Folder.node_alike {f g : Folder} (k : Text) (hname : f.name = g.name)
    (htopics : List.Forall₂ (fun e e' => Alike e.2.node e'.2.node) f.topics g.topics) :
    Alike (f.node k) (g.node k) := by
  have hchildren : List.Forall₂ Alike (sortByName (f.topics.map (·.2.node)))
      (sortByName (g.topics.map (·.2.node))) :=
    sortByName_alike (List.forall₂_map_left_iff.2 (List.forall₂_map_right_iff.2 htopics))
  constructor
  case name => exact hname
  case key => rfl
  case files => exact .refl _
  case mods => exact distinctNames_perm (mods_perm_of_alike hchildren)
  case added =>
    have hadded := map_eq_of_alike (·.added) hchildren fun _ _ h => h.added
    have hsum := congrArg (List.foldl (· + ·) 0) hadded
    rwa [List.foldl_map, List.foldl_map] at hsum
  case reset =>
    exact congrArg combinedReset
      (map_eq_of_alike (·.reset) hchildren fun _ _ h => h.reset)
  case children => exact hchildren

theorem Topic.alike_refl (t : Topic) : Alike t.node t.node :=
  t.node_alike rfl rfl (.refl _) rfl

theorem Folder.alike_refl (f : Folder) (k : Text) : Alike (f.node k) (f.node k) :=
  f.node_alike k rfl (List.forall₂_same.2 fun e _ => e.2.alike_refl)

namespace Outline

variable {k : Text} {d : Definition} {t : Topic} {f : Folder} {o : Outline} {ds : List Definition}

theorem nodes_alike_refl (o : Outline) : List.Forall₂ Alike o.nodes o.nodes :=
  sortByName_alike (List.forall₂_map_left_iff.2 (List.forall₂_map_right_iff.2
    (List.forall₂_same.2 fun e _ => e.2.alike_refl e.1)))

/-- A change of a topic that changes its node just in the order of names does so for the
outline. -/
theorem Groups.nodes_alike (h : Groups o ds) {change : Topic → Topic}
    (hchange : ∀ t, Alike t.node (change t).node) :
    List.Forall₂ Alike o.nodes (o.alterTopic d fun t => some (change t)).nodes := by
  cases ht : o.topic? d with
  | none =>
    rw [h.alterTopic_self fun t ht' => by rw [ht] at ht'; cases ht']
    exact o.nodes_alike_refl
  | some t =>
    obtain ⟨f, hf, hft⟩ := Option.bind_eq_some_iff.1 ht
    have hset : f.topics.alter (topicKey d) (·.bind fun t => some (change t)) =
        f.topics.set (topicKey d) (change t) := by
      rw [Table.alter, hft]
      rfl
    have htopics : List.Forall₂ (fun e e' : Text × Topic => Alike e.2.node e'.2.node) f.topics
        (f.topics.set (topicKey d) (change t)) :=
      Table.forall₂_set (fun e => e.2.alike_refl) hft (hchange t)
    have hfolder : o.alterTopic d (fun t => some (change t)) =
        o.set (folderKey d) { f with topics := f.topics.set (topicKey d) (change t) } := by
      refine Table.alter_eq_set ?_
      rw [hf, Option.bind_some, hset]
      split
      · next hnil =>
        rw [hnil] at htopics
        exact absurd (List.forall₂_nil_right_iff.1 htopics) (h.topics_ne_nil hf)
      · rfl
    rw [hfolder]
    refine sortByName_alike (List.forall₂_map_left_iff.2 (List.forall₂_map_right_iff.2 ?_))
    exact Table.forall₂_set (fun e => e.2.alike_refl e.1) hf (f.node_alike _ rfl htopics)

end Outline

end GameScript
