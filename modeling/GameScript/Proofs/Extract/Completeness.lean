import GameScript.Proofs.Extract.Provenance
import Mathlib.Data.List.Forall2

/-!
# Nothing is lost and nothing is made twice

Every element at the top level has a share in what is extracted from a file, and the results are
these shares one after the other (`extract_shares`). The share of a block is one object and the
variables nested in the block; one level below the top it is that for each child. So the
variables that are made are those of the whole tree, each once and in order.
-/

namespace GameScript

open Text

/-! ## The variables of a tree -/

namespace Element

mutual

def preorder : Element → List Element
  | leaf key operator value => [leaf key operator value]
  | block key operator es => block key operator es :: preorderAll es

def preorderAll : List Element → List Element
  | [] => []
  | e :: es => preorder e ++ preorderAll es

end

/-- The keys of the variables among elements and at every depth below them, in order. -/
def variableKeys (es : List Element) : List Text :=
  ((preorderAll es).filter (·.isVariable)).map (·.key)

variable {e : Element} {es : List Element}

theorem filter_preorder (h : e.isVariable = false) :
    (preorder e).filter (·.isVariable) = (preorderAll e.children).filter (·.isVariable) := by
  cases e with
  | leaf key operator value =>
    rw [preorder, List.filter_cons_of_neg (by simp [h])]
    rfl
  | block key operator es =>
    rw [preorder, List.filter_cons_of_neg (by simp [h])]
    rfl

mutual

theorem nestedVariables_eq : (e : Element) →
    nestedVariables e = (preorderAll e.children).filter (·.isVariable)
  | leaf .. => rfl
  | block _ _ es => variablesAmong_eq es

theorem variablesAmong_eq : (es : List Element) →
    variablesAmong es = (preorderAll es).filter (·.isVariable)
  | [] => rfl
  | e :: es => by
    rw [variablesAmong, preorderAll, List.filter_append, ← variablesAmong_eq es]
    split
    · next h =>
      cases e with
      | leaf key operator value => rw [preorder, List.filter_cons_of_pos h, List.filter_nil]
      | block key operator es => cases h
    · next h => rw [nestedVariables_eq e, filter_preorder (by simpa using h)]

end

theorem variableKeys_cons :
    variableKeys (e :: es) = variableKeys [e] ++ variableKeys es := by
  simp [variableKeys, preorderAll]

theorem variableKeys_eq_flatMap : variableKeys es = es.flatMap fun e => variableKeys [e] := by
  induction es with
  | nil => rfl
  | cons e es ih => rw [variableKeys_cons, ih, List.flatMap_cons]

theorem variableKeys_block (h : e.isLeaf = false) : variableKeys [e] = variableKeys e.children := by
  have hvariable : e.isVariable = false := by rw [isVariable, h, Bool.false_and]
  rw [variableKeys, preorderAll, preorderAll, List.append_nil, filter_preorder hvariable,
    variableKeys]

theorem variableKeys_leaf (h : e.isLeaf = true) :
    variableKeys [e] = if e.isVariable then [e.key] else [] := by
  cases e with
  | leaf key operator value =>
    rw [variableKeys, preorderAll, preorderAll, List.append_nil, preorder]
    split
    · next hvariable => rw [List.filter_cons_of_pos hvariable]; rfl
    · next hvariable => rw [List.filter_cons_of_neg hvariable]; rfl
  | block key operator es => cases h

end Element

/-! ## What builders make -/

namespace SourceFile

variable {f : SourceFile} {naming : Naming} {kind : Kind} {e : Element} {parent : Option Text}

@[simp] theorem id_simpleDefinition {id code tag : Text} :
    (f.simpleDefinition kind id code tag).id = id := by
  rw [simpleDefinition, Definition.addTag_eq]
  rfl

theorem code_simpleDefinition {id code tag : Text} :
    (f.simpleDefinition kind id code tag).code = Definition.tidyCode code := by
  rw [simpleDefinition, Definition.addTag_eq]
  rfl

theorem code_objectDefinition : (f.objectDefinition naming e parent).code =
    Definition.tidyCode (Layout.format { parentKey := parent } e) := by
  unfold objectDefinition
  extract_lets inlineId id id' d₁ d₂ d₃
  rw [Definition.addGenericTags, Definition.addTags_eq, Definition.addTag_eq]
  rfl

end SourceFile

/-! ## Shares -/

def idsOf (kind : Kind) (ds : List Definition) : List Text :=
  (ds.filter (·.kind = kind)).map (·.id)

/-- The definitions of a block: one object, followed by the variables nested in the block. -/
def OfBlock (parent : Option Text) (e : Element) (ds : List Definition) : Prop :=
  ∃ o vs, ds = o :: vs ∧ o.kind = .object ∧
    o.code = Definition.tidyCode (Layout.format { parentKey := parent } e) ∧
    (∀ v ∈ vs, v.kind = .plainVariable) ∧ vs.map (·.id) = Element.variableKeys e.children

/-- The definitions of a leaf at the top level: at most one, which is an object when the leaf is an
inline script with a value and a variable when it is keyed with an at sign. -/
structure OfLeaf (e : Element) (ds : List Definition) : Prop where
  length : ds.length ≤ 1
  variableIds : idsOf .plainVariable ds = if e.isVariable then [e.key] else []
  objectIds : idsOf .object ds =
    if e.hasKey Element.inlineScriptKey then (e.unquotedValue.filter (· ≠ [])).toList else []

/-- The definitions of a child of a block whose key is `parent`. -/
def OfChild (parent : Text) (child : Element) (ds : List Definition) : Prop :=
  if child.isVariable then ∃ v, ds = [v] ∧ v.kind = .plainVariable ∧ v.id = child.key
  else if child.isLeaf then ds = []
  else OfBlock (some parent) child ds

/-- Whether a leaf is a variable only where every leaf with an operator is one. -/
def Element.IsPlainSetting (e : Element) (root : List Definition) : Prop :=
  e.isLeaf = true ∧ e.hasKey inlineScriptKey = false ∧ e.operator.isSome = true ∧ root = []

def Definition.unnumbered (d : Definition) : Definition := { d with order := 0 }

structure Share where
  element : Element
  root : List Definition
  allLeaves : List Definition
  secondLevel : List Definition

/-- Whether everything that is made of an element is as it should be. -/
structure Share.IsRight (p : Share) : Prop where
  leaf : p.element.isLeaf = true → OfLeaf p.element p.root ∧
    p.secondLevel.map (·.unnumbered) = p.root.map (·.unnumbered)
  block : p.element.isLeaf = false → OfBlock none p.element p.root ∧
    ∃ groups, p.secondLevel = groups.flatten ∧
      List.Forall₂ (OfChild p.element.key) p.element.children groups
  setting : p.element.IsPlainSetting p.root →
    ∃ v, p.allLeaves = [v] ∧ v.kind = .plainVariable ∧ v.id = p.element.key
  other : ¬ p.element.IsPlainSetting p.root →
    p.allLeaves.map (·.unnumbered) = p.root.map (·.unnumbered)

/-! ## What is made before numbering -/

namespace SourceFile

variable {f : SourceFile} {e : Element} {es : List Element} {parent : Option Text}
  {anyOperator : Bool}

@[simp] theorem kind_simpleDefinition {kind : Kind} {id code tag : Text} :
    (f.simpleDefinition kind id code tag).kind = kind :=
  makes_simpleDefinition.kind

theorem ofBlock_objectDefinitions : OfBlock parent e (f.objectDefinitions {} parent e) := by
  refine ⟨_, _, rfl, makes_objectDefinition.kind, code_objectDefinition, ?_, ?_⟩
  · intro v hv
    obtain ⟨w, -, rfl⟩ := List.mem_map.1 hv
    exact kind_simpleDefinition
  · rw [liftedVariables, Element.nestedVariables_eq, List.map_map, Element.variableKeys]
    exact List.map_congr_left fun v _ => id_simpleDefinition

theorem not_inlineScript (h : e.isVariable = true ∨ isNamespaceKey e.key = true) :
    e.hasKey Element.inlineScriptKey = false := by
  rw [Bool.eq_false_iff]
  intro hkey
  have hlower : asciiLower e.key = "inline_script" := eq_of_beq hkey
  rcases h with h | h
  · have hhead : e.key.head? = some '@' := eq_of_beq (Bool.and_eq_true_iff.1 h).2
    have hlowerhead : (asciiLower e.key).head? = some '@' := by
      rw [asciiLower, List.head?_map, hhead]
      rfl
    rw [hlower] at hlowerhead
    exact absurd hlowerhead (by decide)
  · simp only [isNamespaceKey, same, hlower] at h
    exact absurd h (by decide)

theorem ofLeaf_leafDefinitions : OfLeaf e (f.leafDefinitions {} false e) := by
  have hlist : f.leafDefinitions {} false e = (f.leafDefinition false e).toList := by
    rw [leafDefinitions]
    cases f.leafDefinition false e <;> rfl
  rw [hlist, leafDefinition]
  by_cases hvariable : e.isVariable = true
  · have hkey := not_inlineScript (.inl hvariable)
    rw [if_pos hvariable]
    refine ⟨Nat.le_refl _, ?_, ?_⟩
    · simp [idsOf, hvariable, variableDefinition]
    · simp [idsOf, hkey, variableDefinition]
  rw [if_neg hvariable]
  by_cases hnamespace : (isNamespaceKey e.key && e.value.isSome) = true
  · have hkey := not_inlineScript (.inr (Bool.and_eq_true_iff.1 hnamespace).1)
    rw [if_pos hnamespace]
    refine ⟨Nat.le_refl _, ?_, ?_⟩
    · simp [idsOf, hvariable, namespaceDefinition]
    · simp [idsOf, hkey, namespaceDefinition]
  rw [if_neg hnamespace]
  by_cases hkey : e.hasKey Element.inlineScriptKey = true
  · rw [if_pos hkey]
    cases hvalue : e.unquotedValue.filter (· ≠ []) with
    | none =>
      refine ⟨Nat.zero_le _, by simp [idsOf, hvariable], ?_⟩
      rw [if_pos hkey, hvalue]
      rfl
    | some target =>
      refine ⟨Nat.le_refl _, ?_, ?_⟩
      · simp [idsOf, hvariable]
      · rw [if_pos hkey, hvalue]
        simp [idsOf]
  · rw [if_neg hkey, Bool.false_and, if_neg Bool.false_ne_true]
    exact ⟨Nat.zero_le _, by simp [idsOf, hvariable], by simp [idsOf, hkey]⟩

/-- With all leaves, just the plain settings are made besides. -/
theorem leafDefinitions_allLeaves (he : e.isLeaf = true) :
    (e.IsPlainSetting (f.leafDefinitions {} false e) →
      f.leafDefinitions {} true e = [f.variableDefinition e]) ∧
    (¬ e.IsPlainSetting (f.leafDefinitions {} false e) →
      f.leafDefinitions {} true e = f.leafDefinitions {} false e) := by
  unfold Element.IsPlainSetting leafDefinitions leafDefinition
  split
  · simp
  split
  · simp
  split
  · next hkey => simp [hkey]
  · next hkey =>
    cases hoperator : e.operator.isSome <;> simp [he, hkey]

theorem ofChild_innerDefinitions {parent : Text} :
    OfChild parent e (f.innerDefinitions {} parent e) := by
  unfold OfChild innerDefinitions
  split
  · exact ⟨_, rfl, kind_simpleDefinition, id_simpleDefinition⟩
  split
  · rfl
  · exact ofBlock_objectDefinitions

end SourceFile

/-! ## Numbering -/

/-- What numbering and the rest of finishing leave of a definition, but for its number. -/
def Definition.finished (simple : Bool) (d : Definition) : Definition :=
  let d := { d with order := 0, simplyChecked := simple }
  if d.type = [] then d.setType (Path.typeLabel d.file none) else d

structure Definition.IsLike (d d' : Definition) : Prop where
  kind : d'.kind = d.kind
  id : d'.id = d.id
  code : d'.code = d.code

variable {d d' : Definition} {ds ds' : List Definition} {simple : Bool} {e : Element}
  {parent : Option Text} {kind : Kind}

theorem unnumbered_finishDefinitions :
    (finishDefinitions simple ds).map (·.unnumbered) = ds.map (·.finished simple) := by
  unfold finishDefinitions
  refine List.ext_getElem (by simp) fun i h₁ h₂ => ?_
  simp only [List.getElem_map, List.getElem_mapIdx, Definition.finished]
  split <;> rfl

theorem isLike_of_finished (h : d'.unnumbered = d.finished simple) : d.IsLike d' := by
  have hsame : d.IsLike (d.finished simple) := by
    unfold Definition.finished
    dsimp only
    split
    · exact ⟨rfl, rfl, rfl⟩
    · exact ⟨rfl, rfl, rfl⟩
  rw [← h] at hsame
  exact ⟨hsame.kind, hsame.id, hsame.code⟩

theorem forall₂_isLike (h : ds'.map (·.unnumbered) = ds.map (·.finished simple)) :
    List.Forall₂ Definition.IsLike ds ds' := by
  have heq : List.Forall₂ (· = ·) (ds'.map (·.unnumbered)) (ds.map (·.finished simple)) := by
    rw [List.forall₂_eq_eq_eq]
    exact h
  rw [List.forall₂_map_left_iff, List.forall₂_map_right_iff] at heq
  exact heq.flip.imp fun _ _ => isLike_of_finished

theorem idsOf_congr (h : List.Forall₂ Definition.IsLike ds ds') :
    idsOf kind ds' = idsOf kind ds := by
  induction h with
  | nil => rfl
  | @cons d d' ds ds' hd _ ih =>
    unfold idsOf at ih ⊢
    by_cases hkind : d.kind = kind
    · rw [List.filter_cons_of_pos (by simpa [hd.kind] using hkind),
        List.filter_cons_of_pos (by simpa using hkind), List.map_cons, List.map_cons, ih, hd.id]
    · rw [List.filter_cons_of_neg (by simpa [hd.kind] using hkind),
        List.filter_cons_of_neg (by simpa using hkind), ih]

theorem OfLeaf.congr (h : OfLeaf e ds) (hds : List.Forall₂ Definition.IsLike ds ds') :
    OfLeaf e ds' where
  length := hds.length_eq ▸ h.length
  variableIds := (idsOf_congr hds).trans h.variableIds
  objectIds := (idsOf_congr hds).trans h.objectIds

theorem variables_congr {vs vs' : List Definition} (h : List.Forall₂ Definition.IsLike vs vs')
    (hvs : ∀ v ∈ vs, v.kind = kind) :
    (∀ v ∈ vs', v.kind = kind) ∧ vs'.map (·.id) = vs.map (·.id) := by
  induction h with
  | nil => exact ⟨hvs, rfl⟩
  | cons hv _ ih =>
    rw [List.forall_mem_cons] at hvs
    obtain ⟨hkinds, hids⟩ := ih hvs.2
    exact ⟨List.forall_mem_cons.2 ⟨hv.kind.trans hvs.1, hkinds⟩,
      by rw [List.map_cons, List.map_cons, hv.id, hids]⟩

theorem OfBlock.congr (h : OfBlock parent e ds) (hds : List.Forall₂ Definition.IsLike ds ds') :
    OfBlock parent e ds' := by
  obtain ⟨o, vs, rfl, hkind, hcode, hvs, hids⟩ := h
  obtain ⟨o', vs', ho, hvs', rfl⟩ := List.forall₂_cons_left_iff.1 hds
  obtain ⟨hkinds, hsame⟩ := variables_congr hvs' hvs
  exact ⟨o', vs', rfl, ho.kind.trans hkind, ho.code.trans hcode, hkinds, hsame.trans hids⟩

theorem OfChild.congr {parent : Text} (h : OfChild parent e ds)
    (hds : List.Forall₂ Definition.IsLike ds ds') : OfChild parent e ds' := by
  unfold OfChild at h ⊢
  split at h
  · next hvariable =>
    obtain ⟨v, rfl, hkind, hid⟩ := h
    obtain ⟨v', vs, hv, hnil, rfl⟩ := List.forall₂_cons_left_iff.1 hds
    obtain rfl := List.forall₂_nil_left_iff.1 hnil
    rw [if_pos hvariable]
    exact ⟨v', rfl, hv.kind.trans hkind, hv.id.trans hid⟩
  · next hvariable =>
    rw [if_neg hvariable]
    split at h
    · next hleaf =>
      subst h
      rw [if_pos hleaf]
      exact List.forall₂_nil_left_iff.1 hds
    · next hblock =>
      rw [if_neg hblock]
      exact h.congr hds

/-! ## The shares of a file -/

/-- What is made of elements one after the other can be divided among them. -/
theorem exists_groups {es : List Element} {g : Element → List Definition}
    (h : ds.map (·.unnumbered) = (es.flatMap g).map (·.finished simple)) :
    ∃ groups, ds = groups.flatten ∧
      List.Forall₂ (fun e ds' => List.Forall₂ Definition.IsLike (g e) ds') es groups := by
  induction es generalizing ds with
  | nil => exact ⟨[], List.map_eq_nil_iff.1 h, .nil⟩
  | cons e es ih =>
    rw [List.flatMap_cons, List.map_append] at h
    obtain ⟨ds₁, ds₂, rfl, h₁, h₂⟩ := List.map_eq_append_iff.1 h
    obtain ⟨groups, rfl, hgroups⟩ := ih h₂
    exact ⟨ds₁ :: groups, rfl, .cons (forall₂_isLike h₁) hgroups⟩

namespace SourceFile

variable {f : SourceFile} {anyOperator : Bool} {es : List Element}
  {root allLeaves secondLevel : List Definition}

theorem rootDefinitions_cons : f.rootDefinitions {} anyOperator (e :: es) =
    f.rootDefinitions {} anyOperator [e] ++ f.rootDefinitions {} anyOperator es := by
  simp [rootDefinitions]

theorem rootDefinitions_leaf (he : e.isLeaf = true) :
    f.rootDefinitions {} anyOperator [e] = f.leafDefinitions {} anyOperator e := by
  simp [rootDefinitions, he]

theorem rootDefinitions_block (he : e.isLeaf = false) :
    f.rootDefinitions {} anyOperator [e] = f.objectDefinitions {} none e := by
  simp [rootDefinitions, he]

theorem secondLevelDefinitions_cons : f.secondLevelDefinitions {} (e :: es) =
    f.secondLevelDefinitions {} [e] ++ f.secondLevelDefinitions {} es := by
  simp [secondLevelDefinitions]

theorem secondLevelDefinitions_leaf (he : e.isLeaf = true) :
    f.secondLevelDefinitions {} [e] = f.leafDefinitions {} false e := by
  simp [secondLevelDefinitions, he]

theorem secondLevelDefinitions_block (he : e.isLeaf = false) :
    f.secondLevelDefinitions {} [e] = e.children.flatMap (f.innerDefinitions {} e.key) := by
  simp [secondLevelDefinitions, he]

/-- Lists of definitions that are made of the elements in the three ways and then finished. -/
structure Finishes (f : SourceFile) (simple : Bool) (es : List Element)
    (root allLeaves secondLevel : List Definition) : Prop where
  root : root.map (·.unnumbered) = (f.rootDefinitions {} false es).map (·.finished simple)
  allLeaves : allLeaves.map (·.unnumbered) = (f.rootDefinitions {} true es).map (·.finished simple)
  secondLevel : secondLevel.map (·.unnumbered) =
    (f.secondLevelDefinitions {} es).map (·.finished simple)

/-- Lists made of several elements can be divided among them. -/
theorem Finishes.exists_shares (h : f.Finishes simple es root allLeaves secondLevel) :
    ∃ shares : List Share, shares.map (·.element) = es ∧ root = shares.flatMap (·.root) ∧
      allLeaves = shares.flatMap (·.allLeaves) ∧ secondLevel = shares.flatMap (·.secondLevel) ∧
      ∀ p ∈ shares, f.Finishes simple [p.element] p.root p.allLeaves p.secondLevel := by
  induction es generalizing root allLeaves secondLevel with
  | nil =>
    exact ⟨[], rfl, List.map_eq_nil_iff.1 h.root, List.map_eq_nil_iff.1 h.allLeaves,
      List.map_eq_nil_iff.1 h.secondLevel, by rintro p ⟨⟩⟩
  | cons e es ih =>
    obtain ⟨hroot, hall, hsecond⟩ := h
    rw [rootDefinitions_cons, List.map_append] at hroot hall
    rw [secondLevelDefinitions_cons, List.map_append] at hsecond
    obtain ⟨root₁, root₂, rfl, hroot₁, hroot₂⟩ := List.map_eq_append_iff.1 hroot
    obtain ⟨all₁, all₂, rfl, hall₁, hall₂⟩ := List.map_eq_append_iff.1 hall
    obtain ⟨second₁, second₂, rfl, hsecond₁, hsecond₂⟩ := List.map_eq_append_iff.1 hsecond
    obtain ⟨shares, rfl, rfl, rfl, rfl, hshares⟩ := ih ⟨hroot₂, hall₂, hsecond₂⟩
    refine ⟨⟨e, root₁, all₁, second₁⟩ :: shares, rfl, rfl, rfl, rfl, ?_⟩
    exact List.forall_mem_cons.2 ⟨⟨hroot₁, hall₁, hsecond₁⟩, hshares⟩

/-- What is made of one element and finished is as it should be. -/
theorem Finishes.isRight {p : Share}
    (h : f.Finishes simple [p.element] p.root p.allLeaves p.secondLevel) : p.IsRight := by
  obtain ⟨hroot, hall, hsecond⟩ := h
  have hnil : p.root = [] ↔ f.rootDefinitions {} false [p.element] = [] := by
    rw [← List.map_eq_nil_iff, hroot, List.map_eq_nil_iff]
  have hsetting : p.element.IsPlainSetting p.root ↔
      p.element.IsPlainSetting (f.rootDefinitions {} false [p.element]) := by
    rw [Element.IsPlainSetting, Element.IsPlainSetting, hnil]
  constructor
  case leaf =>
    intro he
    rw [secondLevelDefinitions_leaf he, ← rootDefinitions_leaf he] at hsecond
    refine ⟨?_, hsecond.trans hroot.symm⟩
    rw [rootDefinitions_leaf he] at hroot
    exact ofLeaf_leafDefinitions.congr (forall₂_isLike hroot)
  case block =>
    intro he
    rw [rootDefinitions_block he] at hroot
    rw [secondLevelDefinitions_block he] at hsecond
    obtain ⟨groups, hgroups, hlike⟩ := exists_groups hsecond
    exact ⟨ofBlock_objectDefinitions.congr (forall₂_isLike hroot), groups, hgroups,
      hlike.imp fun _ _ => ofChild_innerDefinitions.congr⟩
  case setting =>
    intro hplain
    have he := hplain.1
    rw [hsetting, rootDefinitions_leaf he] at hplain
    rw [rootDefinitions_leaf he, (leafDefinitions_allLeaves he).1 hplain] at hall
    obtain ⟨v, vs, hv, hvs, hlist⟩ := List.forall₂_cons_left_iff.1 (forall₂_isLike hall)
    obtain rfl := List.forall₂_nil_left_iff.1 hvs
    exact ⟨v, hlist, hv.kind.trans kind_simpleDefinition, hv.id.trans id_simpleDefinition⟩
  case other =>
    intro hplain
    rw [hall, hroot]
    cases he : p.element.isLeaf with
    | true =>
      rw [hsetting, rootDefinitions_leaf he] at hplain
      rw [rootDefinitions_leaf he, rootDefinitions_leaf he,
        (leafDefinitions_allLeaves he).2 hplain]
    | false => rw [rootDefinitions_block he, rootDefinitions_block he]

end SourceFile

/-! ## The variables of a file -/

theorem idsOf_append : idsOf kind (ds ++ ds') = idsOf kind ds ++ idsOf kind ds' := by
  rw [idsOf, List.filter_append, List.map_append, idsOf, idsOf]

theorem idsOf_flatMap {α : Type} {as : List α} {g : α → List Definition} :
    idsOf kind (as.flatMap g) = as.flatMap fun a => idsOf kind (g a) := by
  induction as with
  | nil => rfl
  | cons a as ih => rw [List.flatMap_cons, List.flatMap_cons, idsOf_append, ih]

theorem OfBlock.variableIds (h : OfBlock parent e ds) :
    idsOf .plainVariable ds = Element.variableKeys e.children := by
  obtain ⟨o, vs, rfl, hkind, -, hvs, hids⟩ := h
  rw [idsOf, List.filter_cons_of_neg (by simp [hkind]),
    List.filter_eq_self.2 fun v hv => decide_eq_true (hvs v hv), hids]

theorem OfChild.variableIds {parent : Text} (h : OfChild parent e ds) :
    idsOf .plainVariable ds = Element.variableKeys [e] := by
  unfold OfChild at h
  split at h
  · next hvariable =>
    obtain ⟨v, rfl, hkind, hid⟩ := h
    rw [Element.variableKeys_leaf (Bool.and_eq_true_iff.1 hvariable).1, if_pos hvariable]
    simp [idsOf, hkind, hid]
  · next hvariable =>
    split at h
    · next hleaf =>
      subst h
      rw [Element.variableKeys_leaf hleaf, if_neg hvariable]
      rfl
    · next hblock =>
      rw [Element.variableKeys_block (by simpa using hblock), h.variableIds]

theorem variableIds_children {parent : Text} {es : List Element} {groups : List (List Definition)}
    (h : List.Forall₂ (OfChild parent) es groups) :
    idsOf .plainVariable groups.flatten = Element.variableKeys es := by
  induction h with
  | nil => rfl
  | cons hchild _ ih =>
    rw [List.flatten_cons, idsOf_append, hchild.variableIds, ih, ← Element.variableKeys_cons]

theorem idsOf_unnumbered : idsOf kind (ds.map (·.unnumbered)) = idsOf kind ds := by
  rw [idsOf, List.filter_map, List.map_map, idsOf]
  rfl

namespace Share

variable {p : Share} {shares : List Share}

theorem IsRight.variableIds_root (h : p.IsRight) :
    idsOf .plainVariable p.root = Element.variableKeys [p.element] := by
  cases he : p.element.isLeaf with
  | true => rw [(h.leaf he).1.variableIds, Element.variableKeys_leaf he]
  | false => rw [(h.block he).1.variableIds, Element.variableKeys_block he]

theorem IsRight.variableIds_secondLevel (h : p.IsRight) :
    idsOf .plainVariable p.secondLevel = Element.variableKeys [p.element] := by
  cases he : p.element.isLeaf with
  | true => rw [← idsOf_unnumbered, (h.leaf he).2, idsOf_unnumbered, h.variableIds_root]
  | false =>
    obtain ⟨-, groups, hgroups, hchildren⟩ := h.block he
    rw [hgroups, variableIds_children hchildren, Element.variableKeys_block he]

theorem variableIds_flatMap {part : Share → List Definition}
    (h : ∀ p ∈ shares, idsOf .plainVariable (part p) = Element.variableKeys [p.element]) :
    idsOf .plainVariable (shares.flatMap part) =
      Element.variableKeys (shares.map (·.element)) := by
  rw [idsOf_flatMap, Element.variableKeys_eq_flatMap, List.flatMap_map]
  exact List.flatMap_congr h

end Share

namespace SourceFile

variable {f : SourceFile} {s : ScriptSettings} {tree : FileTree}

/-- **Extraction loses and duplicates nothing.** Of a file that is read, however it is checked, the
variables found at the top level, and likewise those found one level below, are those of the whole
tree, each once and in order. The results are made up of a share for every element at the top
level: one object for a block, or for each of its child blocks, and the variables nested in it;
at most one definition for a leaf; and where every leaf with an operator is a variable, nothing
but these variables besides. -/
theorem extract_shares (h : f.elements s = .ok tree) :
    idsOf .plainVariable (f.extractRoot s {}) = Element.variableKeys tree.elements ∧
    idsOf .plainVariable (f.extractSecondLevel s {}) = Element.variableKeys tree.elements ∧
    ∃ shares : List Share, shares.map (·.element) = tree.elements ∧
      f.extractRoot s {} = shares.flatMap (·.root) ∧
      f.extractAllLeaves s {} = shares.flatMap (·.allLeaves) ∧
      f.extractSecondLevel s {} = shares.flatMap (·.secondLevel) ∧
      ∀ p ∈ shares, p.IsRight := by
  have hextract (classify : List Element → List Definition) :
      f.extract s classify = finishDefinitions tree.simple (classify tree.elements) := by
    rw [extract, h]
  have hfinishes : f.Finishes tree.simple tree.elements (f.extractRoot s {})
      (f.extractAllLeaves s {}) (f.extractSecondLevel s {}) := by
    refine ⟨?_, ?_, ?_⟩
    · rw [extractRoot, hextract, unnumbered_finishDefinitions]
    · rw [extractAllLeaves, hextract, unnumbered_finishDefinitions]
    · rw [extractSecondLevel, hextract, unnumbered_finishDefinitions]
  obtain ⟨shares, helements, hroot, hall, hsecond, hshares⟩ := hfinishes.exists_shares
  have hright : ∀ p ∈ shares, p.IsRight := fun p hp => (hshares p hp).isRight
  refine ⟨?_, ?_, shares, helements, hroot, hall, hsecond, hright⟩
  · rw [hroot, ← helements]
    exact Share.variableIds_flatMap fun p hp => (hright p hp).variableIds_root
  · rw [hsecond, ← helements]
    exact Share.variableIds_flatMap fun p hp => (hright p hp).variableIds_secondLevel

def nestedFile : SourceFile :=
  { path := "common/x.txt", lines := ["@a = 1", "b = { @c = 2 d = { @e = 3 } }",
      "inline_script = \"f\"", "g = h"] }

theorem extract_shares_nestedFile :
    ∃ tree, nestedFile.elements {} = .ok tree ∧
      idsOf .plainVariable (nestedFile.extractRoot {} {}) = ["@a", "@c", "@e"] ∧
      idsOf .plainVariable (nestedFile.extractSecondLevel {} {}) = ["@a", "@c", "@e"] := by
  have hok : (nestedFile.elements {}).toOption.map
      (fun tree => Element.variableKeys tree.elements) =
        some (["@a", "@c", "@e"] : List Text) := by decide +kernel
  cases h : nestedFile.elements {} with
  | error e => rw [h] at hok; cases hok
  | ok tree =>
    rw [h] at hok
    obtain ⟨hroot, hsecond, -⟩ := extract_shares h
    have hkeys : Element.variableKeys tree.elements = ["@a", "@c", "@e"] := Option.some.inj hok
    exact ⟨tree, rfl, hroot.trans hkeys, hsecond.trans hkeys⟩

end SourceFile

end GameScript
