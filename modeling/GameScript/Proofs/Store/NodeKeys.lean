import GameScript.Proofs.Store.Listing

/-!
# The keys of nodes

A topic keeps the key that it got from its first definition, also when that definition is removed
and others stay. Over whole runs the key is the `typeAndId` of some definition that was added for
the topic (`Store.performAll_keptTo`). So the keys in the outlines of a class of definitions are
always those of stored definitions just when the class has one `typeAndId` for each topic
(`keys_current_iff`).
-/

namespace GameScript

open Text

namespace Outline

variable {o o' : Outline} {d : Definition} {k l : Text} {t : Topic}
  {change : Topic → Option Topic} {P : Definition → Prop}

/-- The topic at a folder key and a topic key. -/
def topicAt? (k l : Text) (o : Outline) : Option Topic := (o.get? k).bind (·.topics.get? l)

theorem topicAt?_insert : (o.insert d).topicAt? k l =
    if folderKey d = k ∧ topicKey d = l then some (contribute d (o.topicAt? k l))
    else o.topicAt? k l := by
  rw [topicAt?, Outline.insert, Table.get?_alter, topicAt?]
  by_cases hk : folderKey d = k
  · subst hk
    rw [if_pos rfl, Option.bind_some, Table.get?_alter]
    by_cases hl : topicKey d = l
    · subst hl
      rw [if_pos rfl, if_pos ⟨rfl, rfl⟩]
      cases o.get? (folderKey d) <;> rfl
    · rw [if_neg hl, if_neg fun h => hl h.2]
      cases o.get? (folderKey d) <;> rfl
  · rw [if_neg hk, if_neg fun h => hk h.1]

theorem topicAt?_alterTopic : (o.alterTopic d change).topicAt? k l =
    if folderKey d = k ∧ topicKey d = l then (o.topicAt? k l).bind change else o.topicAt? k l := by
  rw [topicAt?, Outline.alterTopic, Table.get?_alter, topicAt?]
  by_cases hk : folderKey d = k
  · subst hk
    rw [if_pos rfl]
    cases hf : o.get? (folderKey d) with
    | none => simp
    | some f =>
      rw [Option.bind_some, Option.bind_some]
      generalize hts : f.topics.alter (topicKey d) (·.bind change) = ts
      -- no topic is in a folder that goes with its last one
      refine Eq.trans (b := ts.get? l) (by cases ts <;> rfl) ?_
      rw [← hts, Table.get?_alter]
      by_cases hl : topicKey d = l
      · subst hl
        rw [if_pos rfl, if_pos ⟨rfl, rfl⟩]
      · rw [if_neg hl, if_neg fun h => hl h.2]
  · rw [if_neg hk, if_neg fun h => hk h.1]

/-- Whether every topic has the key of some definition for it, one with the property `P`. -/
def Keyed (P : Definition → Prop) (o : Outline) : Prop :=
  ∀ k l t, o.topicAt? k l = some t →
    ∃ d, P d ∧ folderKey d = k ∧ topicKey d = l ∧ t.key = d.typeAndId

theorem keyed_nil : Keyed P [] := by rintro k l t ⟨⟩

theorem Keyed.insert (ho : Keyed P o) (hd : P d) : Keyed P (o.insert d) := by
  intro k l t ht
  rw [topicAt?_insert] at ht
  split at ht
  · next hkl =>
    obtain rfl := Option.some.inj ht
    cases hold : o.topicAt? k l with
    | none => exact ⟨d, hd, hkl.1, hkl.2, rfl⟩
    | some u =>
      obtain ⟨e, he, hfolder, htopic, hkey⟩ := ho k l u hold
      exact ⟨e, he, hfolder, htopic, hkey⟩
  · exact ho k l t ht

theorem Keyed.alterTopic (ho : Keyed P o) (hchange : ∀ t u, change t = some u → u.key = t.key) :
    Keyed P (o.alterTopic d change) := by
  intro k l t ht
  rw [topicAt?_alterTopic] at ht
  split at ht
  · obtain ⟨u, hu, hut⟩ := Option.bind_eq_some_iff.1 ht
    rw [hchange u t hut]
    exact ho k l u hu
  · exact ho k l t ht

/-- What is left of a topic when a contribution is removed. -/
def dropContribution (d : Definition) (t : Topic) : Option Topic :=
  match t.contributions.erase (.of d) with
  | [] => none
  | rest => some { t with contributions := rest }

theorem erase?_of_topicAt? (ht : o.topicAt? (folderKey d) (topicKey d) = some t)
    (hd : .of d ∈ t.contributions) : o.erase? d = some (o.alterTopic d (dropContribution d)) := by
  refine if_pos ?_
  have htopic : o.topic? d = some t := ht
  rw [htopic, Option.any_some, List.contains_iff_mem]
  exact hd

theorem erase?_eq_some (h : o.erase? d = some o') : o' = o.alterTopic d (dropContribution d) := by
  rw [erase?] at h
  split at h
  · exact (Option.some.inj h).symm
  · cases h

theorem dropContribution_key {u : Topic} (h : dropContribution d t = some u) : u.key = t.key := by
  rw [dropContribution] at h
  split at h
  · cases h
  · rw [← Option.some.inj h]

theorem Keyed.erase? (ho : Keyed P o) (h : o.erase? d = some o') : Keyed P o' := by
  rw [erase?_eq_some h]
  exact ho.alterTopic fun _ _ => dropContribution_key

theorem Keyed.setReset? {reset : ResetState} (ho : Keyed P o) (h : o.setReset? d reset = some o') :
    Keyed P o' := by
  rw [Outline.setReset?] at h
  split at h
  · rw [← Option.some.inj h]
    refine ho.alterTopic fun t u hu => ?_
    rw [← Option.some.inj hu]
  · cases h

end Outline

/-! ## Runs -/

def Operation.added : Operation → List Definition
  | .change (.addAll ds _) => ds
  | .change (.add d _) => [d]
  | .change _ => []
  | .share h _ => [h.definition]

namespace Catalog

variable {c : Catalog} {h : Handle} {P : Definition → Prop} {hidden : Bool}

/-- A catalog of definitions with the property `P`, which also gave the keys in the outline. -/
structure KeptTo (P : Definition → Prop) (c : Catalog) : Prop where
  definitions : ∀ d ∈ c.definitions, P d
  outline : c.outline.Keyed P

theorem keptTo_empty : KeptTo P {} where
  definitions := by rintro d ⟨⟩
  outline := Outline.keyed_nil

theorem KeptTo.insert (hc : KeptTo P c) (hh : P h.definition) : KeptTo P (c.insert h hidden) where
  definitions := by
    intro d hd
    rw [definitions_insert, List.mem_append, List.mem_singleton] at hd
    rcases hd with hd | rfl
    · exact hc.definitions d hd
    · exact hh
  outline := by
    show (if c.keepsOutline && !hidden then c.outline.insert h.definition else c.outline).Keyed P
    split
    · exact hc.outline.insert hh
    · exact hc.outline

theorem KeptTo.drop (hc : KeptTo P c) (e : Entry) : KeptTo P (c.drop e) where
  definitions := by
    intro d hd
    obtain ⟨x, hx, rfl⟩ := List.mem_map.1 hd
    exact hc.definitions _ (List.mem_map_of_mem (List.mem_of_mem_eraseP hx))
  outline := by
    show (if e.outlined then (c.outline.erase? e.handle.definition).getD c.outline
      else c.outline).Keyed P
    split
    · cases ho : c.outline.erase? e.handle.definition with
      | none => exact hc.outline
      | some o => exact hc.outline.erase? ho
    · exact hc.outline

theorem KeptTo.addAll (hc : KeptTo P c) {ds : List Definition} (hds : ∀ d ∈ ds, P d) :
    KeptTo P (ds.foldl (·.add · false) c) := by
  induction ds generalizing c with
  | nil => exact hc
  | cons d ds ih =>
    obtain ⟨hd, hds⟩ := List.forall_mem_cons.1 hds
    exact ih (hc.insert hd) hds

end Catalog

section

variable {c : Catalog} {P : Definition → Prop}

theorem Operation.perform_keptTo (hc : c.KeptTo P) (op : Operation) (hop : ∀ d ∈ op.added, P d) :
    ∃ c' : Catalog, op.perform ⟨some c⟩ = .ok ⟨some c'⟩ ∧ c'.KeptTo P := by
  match op with
  | .share h hidden => exact ⟨_, rfl, hc.insert (hop _ List.mem_cons_self)⟩
  | .change (.addAll ds keepsOutline) =>
    have hkept : Catalog.KeptTo P { c with keepsOutline := keepsOutline } := { hc with }
    exact ⟨_, rfl, hkept.addAll hop⟩
  | .change (.add d hidden) => exact ⟨_, rfl, hc.insert (hop _ List.mem_cons_self)⟩
  | .change (.remove d) =>
    rw [perform, Change.apply, Store.remove, Store.changeIf]
    cases ho : c.erase? d with
    | none => exact ⟨c, by simp only [ho]; rfl, hc⟩
    | some c' =>
      obtain ⟨-, e, -, -, -, rfl⟩ := Catalog.erase?_eq_some ho
      exact ⟨c.drop e, by simp only [ho]; rfl, hc.drop e⟩
  | .change .startSearch => exact ⟨_, rfl, { hc with }⟩
  | .change (.setReset d) =>
    rw [perform, Change.apply, Store.setReset, Store.changeIf]
    cases ho : c.outline.setReset? d d.reset with
    | none => exact ⟨c, by simp only [ho]; rfl, hc⟩
    | some o =>
      exact ⟨{ c with outline := o }, by simp only [ho]; rfl,
        { hc with outline := hc.outline.setReset? ho }⟩

/-- Every run that adds definitions with a property leaves their keys in the outline. -/
theorem Store.performAll_keptTo (hc : c.KeptTo P) {ops : List Operation}
    (hops : ∀ op ∈ ops, ∀ d ∈ op.added, P d) :
    ∃ c' : Catalog, Store.performAll ⟨some c⟩ ops = .ok ⟨some c'⟩ ∧ c'.KeptTo P := by
  induction ops generalizing c with
  | nil => exact ⟨c, rfl, hc⟩
  | cons op ops ih =>
    obtain ⟨hop, hops⟩ := List.forall_mem_cons.1 hops
    obtain ⟨c', hperform, hc'⟩ := op.perform_keptTo hc hop
    obtain ⟨c'', hrun, hc''⟩ := ih hc' hops
    refine ⟨c'', ?_, hc''⟩
    rw [Store.performAll, hperform]
    exact hrun

end

/-! ## Keys that are looked up -/

namespace Outline

variable {o : Outline} {ds : List Definition} {P : Definition → Prop} {n : Node}

/-- The nodes below the folders are those of the topics. -/
theorem Groups.exists_child_iff (h : Groups o ds) :
    (∃ folder ∈ o.nodes, n ∈ folder.children) ↔ ∃ k l t, o.topicAt? k l = some t ∧ t.node = n := by
  constructor
  · rintro ⟨folder, hfolder, hn⟩
    obtain ⟨⟨k, f⟩, he, rfl⟩ := List.mem_map.1 (sortBy_perm.mem_iff.1 hfolder)
    have hf := (Table.mem_iff h.keys).1 he
    obtain ⟨-, -, htopics⟩ := h.of_get? hf
    obtain ⟨⟨l, t⟩, ht, rfl⟩ := List.mem_map.1 (sortBy_perm.mem_iff.1 hn)
    refine ⟨k, l, t, ?_, rfl⟩
    rw [topicAt?, hf, Option.bind_some, (Table.mem_iff htopics.keys).1 ht]
  · rintro ⟨k, l, t, ht, rfl⟩
    obtain ⟨f, hf, hft⟩ := Option.bind_eq_some_iff.1 ht
    refine ⟨f.node k, sortBy_perm.mem_iff.2 ?_, sortBy_perm.mem_iff.2 ?_⟩
    · exact List.mem_map.2 ⟨(k, f), Table.mem_of_get? hf, rfl⟩
    · exact List.mem_map.2 ⟨(l, t), Table.mem_of_get? hft, rfl⟩

theorem Groups.exists_of_topicAt? {k l : Text} {t : Topic} (h : Groups o ds)
    (ht : o.topicAt? k l = some t) : ∃ d ∈ ds, folderKey d = k ∧ topicKey d = l := by
  obtain ⟨f, hf, hft⟩ := Option.bind_eq_some_iff.1 ht
  obtain ⟨-, -, htopics⟩ := h.of_get? hf
  obtain ⟨hne, -⟩ := htopics.of_get? hft
  obtain ⟨d, hd⟩ := List.exists_mem_of_ne_nil _ hne
  obtain ⟨hd, htopic⟩ := List.mem_filter.1 hd
  obtain ⟨hd, hfolder⟩ := List.mem_filter.1 hd
  exact ⟨d, hd, of_decide_eq_true hfolder, of_decide_eq_true htopic⟩

end Outline

/-- Whether no node in the outline has a key that is looked up in vain. -/
def Store.KeysCurrent (s : Store) : Prop :=
  ∀ folder ∈ s.outline, ∀ n ∈ folder.children, s.byTypeAndId n.key ≠ []

/-- Whether definitions of one topic always have one `typeAndId`. -/
def OneKeyEach (P : Definition → Prop) : Prop :=
  ∀ d e, P d → P e → Outline.folderKey d = Outline.folderKey e →
    Outline.topicKey d = Outline.topicKey e → d.typeAndId = e.typeAndId

section

variable {c : Catalog} {k : Stock} {P : Definition → Prop}

theorem Catalog.Tidy.keysCurrent (ht : c.Tidy) (hc : c.Holds k) (hall : k.found = c.definitions)
    (hkept : c.KeptTo P) (hP : OneKeyEach P) : Store.KeysCurrent ⟨some c⟩ := by
  intro folder hfolder n hn
  obtain ⟨i, l, t, htopic, rfl⟩ := (ht.groups.exists_child_iff).1 ⟨folder, hfolder, hn⟩
  obtain ⟨d, hd, hdi, hdl, hkey⟩ := hkept.outline i l t htopic
  obtain ⟨e, he, hei, hel⟩ := ht.groups.exists_of_topicAt? htopic
  have hstored : e ∈ c.definitions := by
    obtain ⟨x, hx, rfl⟩ := List.mem_map.1 he
    exact List.mem_map_of_mem (List.mem_of_mem_filter hx)
  have hsame : e.typeAndId = t.node.key :=
    (hP e d (hkept.definitions e hstored) hd (hei.trans hdi.symm) (hel.trans hdl.symm)).trans
      hkey.symm
  rw [hc.byTypeAndId_eq, hall]
  exact List.ne_nil_of_mem (List.mem_filter.2 ⟨hstored, decide_eq_true hsame⟩)

end

/-! ## A definition that outlives the first one -/

def outliving (d e : Definition) : List Operation :=
  [.change (.add d false), .change (.add e false), .change (.remove d)]

section

variable {d e : Definition}

theorem outliving_fits : Stock.Throughout Stock.Fits {} (outliving d e) :=
  ⟨trivial, trivial, trivial, trivial⟩

theorem outliving_takesLast : Stock.Throughout Stock.TakesLast {} (outliving d e) := by
  refine ⟨trivial, trivial, fun h hh => ?_, trivial⟩
  have hfirst : Stock.target?
      (Stock.afterAll {} [.change (.add d false), .change (.add e false)]) d = some ⟨0, d⟩ :=
    List.find?_cons_of_pos (by simp)
  obtain rfl := Option.some.inj (hfirst.symm.trans hh)
  rfl

def Catalog.ofBoth (d e : Definition) : Catalog := (({} : Catalog).add d false).add e false

theorem Catalog.erase?_ofBoth :
    (ofBoth d e).erase? d = some ((ofBoth d e).drop ⟨⟨0, d⟩, true⟩) := by
  have hc : (ofBoth d e).InStep :=
    (Catalog.inStep_empty.insert (Nat.le_refl _)).insert (Nat.le_refl _)
  have hentry : (ofBoth d e).entries.find? (·.handle.definition = d) = some ⟨⟨0, d⟩, true⟩ :=
    List.find?_cons_of_pos (by simp)
  rw [Catalog.erase?, hc.find?_under, hentry]
  rfl

theorem performAll_outliving : Store.performAll {} (outliving d e) =
    .ok ⟨some ((Catalog.ofBoth d e).drop ⟨⟨0, d⟩, true⟩)⟩ := by
  show ((Store.remove ⟨some (Catalog.ofBoth d e)⟩ d).map (·.1)).bind _ = _
  rw [Store.remove, Store.changeIf]
  simp only [Catalog.erase?_ofBoth]
  rfl

/-- The topic that both belong to keeps the key of the first. -/
theorem topicAt?_outliving (hfolder : Outline.folderKey d = Outline.folderKey e)
    (htopic : Outline.topicKey d = Outline.topicKey e) :
    ∃ t, ((Catalog.ofBoth d e).drop ⟨⟨0, d⟩, true⟩).outline.topicAt?
      (Outline.folderKey d) (Outline.topicKey d) = some t ∧ t.key = d.typeAndId := by
  have hboth : (Catalog.ofBoth d e).outline.topicAt? (Outline.folderKey d)
      (Outline.topicKey d) = some (Outline.contribute e (some (Outline.contribute d none))) := by
    show (Outline.insert e (Outline.insert d [])).topicAt? _ _ = _
    rw [Outline.topicAt?_insert, if_pos ⟨hfolder.symm, htopic.symm⟩, Outline.topicAt?_insert,
      if_pos ⟨rfl, rfl⟩]
    rfl
  have herase := Outline.erase?_of_topicAt? hboth (by simp [Outline.contribute])
  show ∃ t, (((Catalog.ofBoth d e).outline.erase? d).getD _).topicAt? _ _ = some t ∧ _
  rw [herase, Option.getD_some, Outline.topicAt?_alterTopic, if_pos ⟨rfl, rfl⟩, hboth]
  refine ⟨{ name := d.id, key := d.typeAndId, contributions := [.of e] }, ?_, rfl⟩
  simp [Outline.dropContribution, Outline.contribute]

end

/-- **The keys in an outline are those of stored definitions, for a class of definitions with one
`typeAndId` for each topic**, in every run that removes no object while it is stored more than
once; and for no other class. -/
theorem keys_current_iff (P : Definition → Prop) :
    (∀ ops, (∀ op ∈ ops, ∀ d ∈ Operation.added op, P d) → Stock.Throughout Stock.Fits {} ops →
      Stock.Throughout Stock.TakesLast {} ops →
        ∃ s, Store.performAll {} ops = .ok s ∧ s.KeysCurrent) ↔ OneKeyEach P := by
  constructor
  · intro hall d e hd he hfolder htopic
    obtain ⟨s, hrun, hcurrent⟩ := hall (outliving d e)
      (by simp [outliving, Operation.added, hd, he]) outliving_fits outliving_takesLast
    obtain ⟨c, hrun', ht, hc, -, hfound⟩ := performAll_stock (outliving_fits (d := d) (e := e))
    obtain rfl := Except.ok.inj (hrun'.symm.trans hrun)
    obtain rfl :=
      Option.some.inj (Store.mk.inj (Except.ok.inj (hrun'.symm.trans performAll_outliving)))
    obtain ⟨t, ht', hkey⟩ := topicAt?_outliving hfolder htopic
    obtain ⟨folder, hmem, hn⟩ := (ht.groups.exists_child_iff).2 ⟨_, _, t, ht', rfl⟩
    have hlisted := hcurrent folder hmem t.node hn
    rw [hc.byTypeAndId_eq, hfound.2 outliving_takesLast] at hlisted
    obtain ⟨x, hx⟩ := List.exists_mem_of_ne_nil _ hlisted
    obtain ⟨hx, hxkey⟩ := List.mem_filter.1 hx
    obtain rfl : x = e := List.mem_singleton.1 hx
    exact hkey.symm.trans (of_decide_eq_true hxkey).symm
  · intro hP ops hops hfits hlast
    obtain ⟨c, hrun, ht, hc, -, hfound⟩ := performAll_stock hfits
    obtain ⟨c', hrun', hkept⟩ := Store.performAll_keptTo Catalog.keptTo_empty hops
    obtain rfl : c = c' :=
      Option.some.inj (Store.mk.inj (Except.ok.inj (hrun.symm.trans hrun')))
    exact ⟨⟨some c⟩, hrun, ht.keysCurrent hc (hfound.2 hlast) hkept hP⟩

def typedTwice : List Operation :=
  let d := (({} : Definition).setFile "common/a.txt").setId "x"
  outliving (d.setType "t1") (d.setType "t2")

/-- The node of the second has the key of the first, under which nothing is stored. -/
theorem keys_current_fails :
    ∃ s, Store.performAll {} typedTwice = .ok s ∧
      s.outline.flatMap (·.children.map (·.key)) = ["t1-x"] ∧ s.byTypeAndId "t1-x" = [] ∧
      s.typeAndIds = ["t2-x"] := by
  refine ⟨_, rfl, ?_, ?_, ?_⟩
  · decide +kernel
  · decide +kernel
  · decide +kernel

end GameScript
