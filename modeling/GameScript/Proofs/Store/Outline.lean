import GameScript.Proofs.Store.Table
import GameScript.Store.Outline
import Mathlib.Data.List.Basic

/-!
# What an outline groups

A table groups definitions when what stands at a key is made of the definitions with that key, and
is missing when there are none (`Grouped`). An outline groups its definitions by folder and each
folder those by topic, where a topic holds the contributions of its definitions in some order
(`Groups`). Adding, removing and resetting keep this: each changes the one topic of a definition
and leaves what is elsewhere (`Differs`).
-/

namespace GameScript

open Text

/-- Lists that are the same apart from `d`. -/
def Differs (d : Definition) (ds ds' : List Definition) : Prop :=
  ∀ p : Definition → Bool, p d = false → ds'.filter p = ds.filter p

variable {d : Definition} {ds ds' l₁ l₂ : List Definition}

theorem differs_refl (d : Definition) (ds : List Definition) : Differs d ds ds := fun _ _ => rfl

theorem differs_concat (d : Definition) (ds : List Definition) : Differs d ds (ds ++ [d]) := by
  intro p hp
  rw [List.filter_append, List.filter_cons_of_neg (by simp [hp]), List.filter_nil, List.append_nil]

theorem differs_remove (d : Definition) (l₁ l₂ : List Definition) :
    Differs d (l₁ ++ d :: l₂) (l₁ ++ l₂) := by
  intro p hp
  rw [List.filter_append, List.filter_append, List.filter_cons_of_neg (by simp [hp])]

theorem Differs.filter (h : Differs d ds ds') (q : Definition → Bool) :
    Differs d (ds.filter q) (ds'.filter q) := by
  intro p hp
  rw [List.filter_filter, List.filter_filter]
  exact h _ (by simp [hp])

/-! ## Grouping by a key -/

section

variable {β : Type} {key : Definition → Text} {R : Text → β → List Definition → Prop}
  {t : Table Text β} {k : Text} {b : β} {change : Option β → Option β}

/-- What stands at the key of these definitions: nothing when there are none, else something that
`R` ties to them. -/
def AtKey (R : Text → β → List Definition → Prop) (k : Text) (o : Option β)
    (ds : List Definition) : Prop :=
  match o with
  | none => ds = []
  | some b => ds ≠ [] ∧ R k b ds

structure Grouped (key : Definition → Text) (R : Text → β → List Definition → Prop)
    (t : Table Text β) (ds : List Definition) : Prop where
  keys : t.keys.Nodup
  atKey : ∀ k, AtKey R k (t.get? k) (ds.filter (key · = k))

theorem grouped_nil : Grouped key R [] [] := ⟨List.nodup_nil, fun _ => rfl⟩

theorem Grouped.of_get? (h : Grouped key R t ds) (hk : t.get? k = some b) :
    ds.filter (key · = k) ≠ [] ∧ R k b (ds.filter (key · = k)) := by
  have hat := h.atKey k
  rw [hk] at hat
  exact hat

theorem Grouped.exists_get? (h : Grouped key R t ds) (hd : d ∈ ds) :
    ∃ b, t.get? (key d) = some b := by
  have hat := h.atKey (key d)
  cases hk : t.get? (key d) with
  | some b => exact ⟨b, rfl⟩
  | none =>
    rw [hk] at hat
    have hmem : d ∈ ds.filter (key · = key d) := List.mem_filter.2 ⟨hd, by simp⟩
    have hempty : ds.filter (key · = key d) = [] := hat
    rw [hempty] at hmem
    cases hmem

theorem Grouped.eq_nil_iff (h : Grouped key R t ds) : t = [] ↔ ds = [] := by
  constructor
  · rintro rfl
    refine List.eq_nil_iff_forall_not_mem.2 fun d hd => ?_
    obtain ⟨b, hb⟩ := h.exists_get? hd
    cases hb
  · rintro rfl
    refine List.eq_nil_iff_forall_not_mem.2 fun e he => ?_
    exact (h.of_get? ((Table.mem_iff h.keys).1 he)).1 rfl

/-- A change at the key of a definition regroups it, when what it leaves there is right. -/
theorem Grouped.alter (h : Grouped key R t ds) (hds : Differs d ds ds')
    (hd : AtKey R (key d) (change (t.get? (key d))) (ds'.filter (key · = key d))) :
    Grouped key R (t.alter (key d) change) ds' where
  keys := Table.nodup_keys_alter h.keys
  atKey k := by
    rw [Table.get?_alter]
    by_cases hk : key d = k
    · rw [if_pos hk]
      exact hk ▸ hd
    · rw [if_neg hk, hds _ (by simpa using hk)]
      exact h.atKey k

end

/-! ## Outlines -/

/-- The topic after a contribution of `d` was added and one like it removed. -/
def Topic.undone (d : Definition) (t : Topic) : Topic :=
  { t with contributions := (t.contributions ++ [Contribution.of d]).erase (.of d) }

theorem Topic.perm_undone (d : Definition) (t : Topic) :
    (t.undone d).contributions.Perm t.contributions := by
  have hfront := (List.perm_append_singleton (Contribution.of d) t.contributions).erase (.of d)
  rwa [List.erase_cons_head] at hfront

namespace Outline

structure IsTopic (k : Text) (t : Topic) (ds : List Definition) : Prop where
  name : lower t.name = k
  contributions : t.contributions.Perm (ds.map Contribution.of)

structure IsFolder (k : Text) (f : Folder) (ds : List Definition) : Prop where
  name : lower f.name = k
  topics : Grouped topicKey IsTopic f.topics ds

abbrev Groups (o : Outline) (ds : List Definition) : Prop := Grouped folderKey IsFolder o ds

variable {o : Outline} {t : Topic} {change : Topic → Option Topic}

def fellows (d : Definition) (ds : List Definition) : List Definition :=
  (ds.filter (folderKey · = folderKey d)).filter (topicKey · = topicKey d)

theorem isTopic_contribute {topic : Option Topic}
    (h : AtKey IsTopic (topicKey d) topic ds) :
    IsTopic (topicKey d) (contribute d topic) (ds ++ [d]) := by
  cases topic with
  | none =>
    have hds : ds = [] := h
    subst hds
    exact ⟨rfl, List.Perm.refl _⟩
  | some t =>
    obtain ⟨-, hname, hcontributions⟩ := h
    refine ⟨hname, ?_⟩
    rw [List.map_append]
    exact hcontributions.append_right _

theorem Groups.insert (h : Groups o ds) : Groups (o.insert d) (ds ++ [d]) := by
  have htopics {topics : Table Text Topic} {fs : List Definition}
      (ht : Grouped topicKey IsTopic topics fs) :
      Grouped topicKey IsTopic (topics.alter (topicKey d) fun t => some (contribute d t))
        (fs ++ [d]) := by
    refine ht.alter (differs_concat d fs) ⟨by simp, ?_⟩
    rw [List.filter_append, List.filter_cons_of_pos (by simp), List.filter_nil]
    exact isTopic_contribute (ht.atKey _)
  refine Grouped.alter h (differs_concat d ds) ⟨by simp, ?_⟩
  rw [List.filter_append, List.filter_cons_of_pos (by simp), List.filter_nil]
  have hfolder := h.atKey (folderKey d)
  cases hf : o.get? (folderKey d) with
  | none =>
    rw [hf] at hfolder
    have hempty : ds.filter (folderKey · = folderKey d) = [] := hfolder
    rw [hempty]
    exact ⟨rfl, htopics grouped_nil⟩
  | some f =>
    obtain ⟨-, hname, ht⟩ := h.of_get? hf
    exact ⟨hname, htopics ht⟩

/-- The topic of a definition in the outline. -/
theorem Groups.exists_topic (h : Groups o ds) (hd : d ∈ ds) :
    ∃ t, o.topic? d = some t ∧ IsTopic (topicKey d) t (fellows d ds) := by
  obtain ⟨f, hf⟩ := h.exists_get? hd
  obtain ⟨-, -, htopics⟩ := h.of_get? hf
  have hmem : d ∈ ds.filter (folderKey · = folderKey d) := List.mem_filter.2 ⟨hd, by simp⟩
  obtain ⟨t, ht⟩ := htopics.exists_get? hmem
  exact ⟨t, by rw [topic?, hf, Option.bind_some, ht], (htopics.of_get? ht).2⟩

/-- A change of the topic of a definition regroups it, when what it leaves there is right. -/
theorem Groups.alterTopic (h : Groups o ds) (hds : Differs d ds ds') (ht : o.topic? d = some t)
    (hchange : AtKey IsTopic (topicKey d) (change t) (fellows d ds')) :
    Groups (o.alterTopic d change) ds' := by
  refine Grouped.alter h hds ?_
  obtain ⟨f, hf, hft⟩ := Option.bind_eq_some_iff.1 ht
  obtain ⟨-, hname, htopics⟩ := h.of_get? hf
  rw [hf, Option.bind_some]
  have htopics' : Grouped topicKey IsTopic (f.topics.alter (topicKey d) (·.bind change))
      (ds'.filter (folderKey · = folderKey d)) := by
    refine htopics.alter (hds.filter _) ?_
    rw [hft, Option.bind_some]
    exact hchange
  -- the folder goes with its last topic
  cases hnil : f.topics.alter (topicKey d) (·.bind change) with
  | nil =>
    rw [hnil] at htopics'
    exact htopics'.eq_nil_iff.1 rfl
  | cons e topics =>
    rw [hnil] at htopics'
    exact ⟨fun hempty => List.cons_ne_nil e topics (htopics'.eq_nil_iff.2 hempty), hname, htopics'⟩

/-- A grouped definition can be taken out again. -/
theorem Groups.erase (h : Groups o (l₁ ++ d :: l₂)) :
    ∃ o', o.erase? d = some o' ∧ Groups o' (l₁ ++ l₂) := by
  obtain ⟨t, ht, hname, hcontributions⟩ := h.exists_topic (d := d) (by simp)
  have hfellows : fellows d (l₁ ++ d :: l₂) = fellows d l₁ ++ d :: fellows d l₂ := by
    simp [fellows]
  rw [hfellows, List.map_append, List.map_cons] at hcontributions
  have hmem : Contribution.of d ∈ t.contributions := by
    rw [hcontributions.mem_iff]
    simp
  have hrest : (t.contributions.erase (.of d)).Perm ((fellows d (l₁ ++ l₂)).map .of) := by
    have hfront := (hcontributions.trans List.perm_middle).erase (Contribution.of d)
    rw [List.erase_cons_head, ← List.map_append] at hfront
    simpa [fellows] using hfront
  refine ⟨_, if_pos (by simp [ht, hmem]), h.alterTopic (differs_remove d l₁ l₂) ht ?_⟩
  cases hleft : t.contributions.erase (.of d) with
  | nil =>
    rw [hleft] at hrest
    exact List.map_eq_nil_iff.1 hrest.symm.eq_nil
  | cons c cs =>
    rw [hleft] at hrest
    refine ⟨fun hempty => ?_, hname, hrest⟩
    rw [hempty] at hrest
    exact List.cons_ne_nil c cs hrest.eq_nil

theorem Groups.setReset {reset : ResetState} {o' : Outline} (h : Groups o ds)
    (ho : o.setReset? d reset = some o') : Groups o' ds := by
  rw [setReset?] at ho
  split at ho
  · next hsome =>
    obtain ⟨t, ht⟩ := Option.isSome_iff_exists.1 hsome
    obtain rfl := Option.some.inj ho
    refine h.alterTopic (differs_refl d ds) ht ?_
    obtain ⟨f, hf, hft⟩ := Option.bind_eq_some_iff.1 ht
    obtain ⟨-, -, htopics⟩ := h.of_get? hf
    obtain ⟨hne, hname, hcontributions⟩ := htopics.of_get? hft
    exact ⟨hne, hname, hcontributions⟩
  · cases ho

/-! ## Adding and removing -/

theorem Groups.topics_ne_nil {k : Text} {f : Folder} (h : Groups o ds) (hf : o.get? k = some f) :
    f.topics ≠ [] := by
  obtain ⟨hne, -, htopics⟩ := h.of_get? hf
  exact fun hnil => hne (htopics.eq_nil_iff.1 hnil)

theorem Groups.of_topic? (h : Groups o ds) (ht : o.topic? d = some t) :
    fellows d ds ≠ [] ∧ IsTopic (topicKey d) t (fellows d ds) := by
  obtain ⟨f, hf, hft⟩ := Option.bind_eq_some_iff.1 ht
  obtain ⟨-, -, htopics⟩ := h.of_get? hf
  exact htopics.of_get? hft

/-- A change that leaves the topic of a definition leaves the outline. -/
theorem Groups.alterTopic_self (h : Groups o ds)
    (hchange : ∀ t, o.topic? d = some t → change t = some t) : o.alterTopic d change = o := by
  refine Table.alter_self ?_
  cases hf : o.get? (folderKey d) with
  | none => rfl
  | some f =>
    have htopics : f.topics.alter (topicKey d) (·.bind change) = f.topics := by
      refine Table.alter_self ?_
      cases ht : f.topics.get? (topicKey d) with
      | none => rfl
      | some t => exact hchange t (by rw [topic?, hf, Option.bind_some, ht])
    rw [Option.bind_some, htopics]
    split
    · next hnil => exact absurd hnil (h.topics_ne_nil hf)
    · rfl

theorem topic?_insert : (o.insert d).topic? d = some (contribute d (o.topic? d)) := by
  rw [topic?, Outline.insert, Table.get?_alter, if_pos rfl, Option.bind_some, Table.get?_alter,
    if_pos rfl, topic?]
  cases o.get? (folderKey d) <;> rfl

/-- A change of the topic of a definition that was just added. -/
theorem alterTopic_insert {change' : Topic → Option Topic}
    (hnone : o.topic? d = none → change (contribute d none) = none)
    (hsome : ∀ t, o.topic? d = some t → change (contribute d (some t)) = change' t) :
    (o.insert d).alterTopic d change = o.alterTopic d change' := by
  rw [Outline.alterTopic, Outline.insert, Table.alter_alter rfl]
  refine Table.alter_congr ?_
  have htopics {topics : Table Text Topic}
      (ht : (o.get? (folderKey d)).elim [] (·.topics) = topics) :
      (topics.alter (topicKey d) fun t => some (contribute d t)).alter (topicKey d)
          (·.bind change) =
        topics.alter (topicKey d) (·.bind change') := by
    rw [Table.alter_alter rfl]
    refine Table.alter_congr ?_
    have htopic : o.topic? d = topics.get? (topicKey d) := by
      rw [topic?, ← ht]
      cases o.get? (folderKey d) <;> rfl
    rw [← htopic, Option.bind_some]
    cases hold : o.topic? d with
    | none => exact hnone hold
    | some t => exact hsome t hold
  rw [Option.bind_some]
  cases hf : o.get? (folderKey d) with
  | none =>
    dsimp only [Option.getD_none]
    rw [htopics (by rw [hf]; rfl)]
    rfl
  | some f =>
    dsimp only [Option.getD_some]
    rw [htopics (by rw [hf]; rfl)]
    rfl

/-- Removing what was just added takes away the first contribution like it, which may have been
there before. -/
theorem Groups.erase?_insert (h : Groups o ds) :
    (o.insert d).erase? d = some (o.alterTopic d fun t => some (t.undone d)) := by
  have hmem : ∀ t, Contribution.of d ∈ (contribute d t).contributions := fun t =>
    List.mem_append_right _ List.mem_cons_self
  rw [erase?, topic?_insert, if_pos (by simpa using hmem _)]
  refine congrArg some (alterTopic_insert (fun _ => ?_) fun t ht => ?_)
  · simp [contribute]
  · obtain ⟨hne, -, hcontributions⟩ := h.of_topic? ht
    have hleft : (t.contributions ++ [Contribution.of d]).erase (.of d) ≠ [] := fun hnil => by
      have hperm := t.perm_undone d
      rw [show (t.undone d).contributions = [] from hnil] at hperm
      have hempty := (hperm.trans hcontributions).nil_eq
      exact hne (List.map_eq_nil_iff.1 hempty.symm)
    dsimp only [contribute]
    split
    · next hnil => exact absurd hnil hleft
    · rfl

/-- Without another definition that contributes the same to its topic, adding and removing leaves
the outline. -/
theorem Groups.alterTopic_undone (h : Groups o ds)
    (hnew : ∀ e ∈ ds, folderKey e = folderKey d → topicKey e = topicKey d →
      Contribution.of e ≠ Contribution.of d) :
    (o.alterTopic d fun t => some (t.undone d)) = o := by
  refine h.alterTopic_self fun t ht => congrArg some ?_
  obtain ⟨-, -, hcontributions⟩ := h.of_topic? ht
  have hnot : Contribution.of d ∉ t.contributions := by
    rw [hcontributions.mem_iff, List.mem_map]
    rintro ⟨e, he, hed⟩
    simp only [fellows, List.mem_filter, decide_eq_true_eq] at he
    exact hnew e he.1.1 he.1.2 he.2 hed
  rw [Topic.undone, List.erase_append_right _ hnot, List.erase_cons_head, List.append_nil]

end Outline

end GameScript
