import GameScript.Proofs.Extract.Checking
import GameScript.Proofs.Extract.Completeness
import GameScript.Proofs.Script.RoundTrip
import GameScript.Proofs.Script.Soundness
import GameScript.Proofs.Script.Tidying

/-!
# Code means the element it was made of

`SourceFile.MadeOf` says of which element a definition is made, and below which parent; the origins
of a file are the elements of which its definitions are made, in order. When the file is read
strictly and each of its words is one by itself, the code of a definition is read as its origin
again, below the parent if there is one (`extract_means`).
-/

namespace GameScript

open Text Element Layout

/-! ## Neat elements -/

namespace Element

/-- A canonical element whose words are each on one line and without tabs. -/
structure IsNeat (e : Element) : Prop where
  canonical : Canonical e
  flat : ∀ w ∈ words e, IsFlat w

variable {e c v : Element} {es : List Element} {p : Text}

theorem AllCanonical.of_mem (h : AllCanonical es) (he : e ∈ es) : Canonical e := by
  induction es with
  | nil => cases he
  | cons f es ih =>
    rcases List.mem_cons.1 he with rfl | he
    · exact h.1
    · exact ih h.2.2 he

theorem isNeat_of_mem (hc : AllCanonical es) (hw : ∀ w ∈ wordsAll es, IsFlat w) (he : e ∈ es) :
    IsNeat e :=
  ⟨hc.of_mem he, fun w h => hw w (mem_wordsAll.2 ⟨e, he, h⟩)⟩

theorem IsNeat.of_mem_children (h : IsNeat e) (hc : c ∈ e.children) : IsNeat c := by
  cases e with
  | leaf k o v => cases hc
  | block k o es =>
    exact isNeat_of_mem h.canonical.2 (fun w hw => h.flat w (by simp [words, hw])) hc

theorem IsNeat.key (h : IsNeat e) (hleaf : e.isLeaf = false) (hkey : e.key ≠ []) :
    IsWord e.key ∧ IsFlat e.key := by
  cases e with
  | leaf k o v => cases hleaf
  | block k o es =>
    have hk : k ≠ [] := hkey
    refine ⟨?_, h.flat k (by simp [words, hk])⟩
    exact (h.canonical.1.resolve_right fun h => hk h.1).1

theorem depth_lt_of_mem_children (hc : c ∈ e.children) : depth c < depth e := by
  cases e with
  | leaf k o v => cases hc
  | block k o es =>
    rw [depth]
    exact Nat.lt_succ_of_le (depthAll_le.1 (Nat.le_refl _) c hc)

mutual

theorem of_mem_nestedVariables {P : Element → Prop}
    (hchild : ∀ {e c : Element}, P e → c ∈ e.children → P c) : (e : Element) → P e →
      ∀ {v : Element}, v ∈ nestedVariables e → P v
  | .leaf .., _, _, hv => by cases hv
  | .block _ _ es, h, _, hv => of_mem_variablesAmong hchild es (fun _ he => hchild h he) hv

theorem of_mem_variablesAmong {P : Element → Prop}
    (hchild : ∀ {e c : Element}, P e → c ∈ e.children → P c) : (es : List Element) →
      (∀ e ∈ es, P e) → ∀ {v : Element}, v ∈ variablesAmong es → P v
  | [], _, _, hv => by cases hv
  | e :: es, h, v, hv => by
    rw [List.forall_mem_cons] at h
    rw [variablesAmong, List.mem_append] at hv
    rcases hv with hv | hv
    · split at hv
      · exact List.mem_singleton.1 hv ▸ h.1
      · exact of_mem_nestedVariables hchild e h.1 hv
    · exact of_mem_variablesAmong hchild es h.2 hv

end

/-! ## What is read of their code -/

theorem IsNeat.parse_format (h : IsNeat e) (hd : e.depth ≤ Tree.maxDepth) :
    parse .strict ['#'] (Definition.tidyCode e.format) = .ok [e] := by
  have hlayout : LaysOut MayTouch (spellAll [e]) e.format := by
    simpa [spellAll] using laysOut_format (T := MayTouch) h.canonical
  rw [tidyCode_format h.canonical h.flat]
  exact parse_of_laysOut ⟨h.canonical, by simp, trivial⟩ (by simpa [depthAll] using hd) hlayout

/-- The text of an element below a parent is the head of the parent and braces around it. -/
theorem laysOut_wrapped {T : TokenKind → TokenKind → Prop} (hc : Canonical e) :
    LaysOut T (.word p :: .operator ['='] :: .openBrace :: (spellAll [e] ++ [.closeBrace]))
      (Layout.format { parentKey := some p } e) := by
  have hlines {ks : List TokenKind} {t : Text} (ht : LaysOut T ks t) :
      LaysOut T (spellAll [e] ++ ks) (Layout.childLines false 4 1 [e] ++ t) :=
    LaysOut.childLines 4 1 [e] ⟨hc, by simp, trivial⟩ ht
  have hnil : LaysOut T [] [] := .nil (by simp)
  have hbraces := LaysOut.braces 4 0 (by simp [StartsSpaced]) hlines hnil
  have hblock := LaysOut.head p (some ['=']) hbraces
  simpa [Layout.format, headText, Layout.childLines, keeps, pad] using hblock

open GameScript.Tree in
/-- The tokens of a head and of braces around shaped elements are read as a block of them, be it
one that would be written on one line. -/
theorem readFrom_wrapped {r : Rigour} {op : Text} {ts : List Token} (hc : AllShaped es)
    (hd : bracesAll es < maxDepth)
    (h : ts.map (·.kind) = .word p :: .operator op :: .openBrace ::
      (spellAll es ++ [.closeBrace, .endOfInput])) :
    readFrom r {} ts = .ok [.block p (some op) es] := by
  have hrun (us : List Token) (hus : us.map (·.kind) =
      [.word p, .operator op] ++ .openBrace :: (spellAll es ++ [.closeBrace])) :
      run r {} us = .ok ⟨[], [.block p (some op) es], .nothing⟩ := by
    obtain ⟨ts, ts', rfl, hts, hts'⟩ := List.map_eq_append_iff.1 hus
    have hready : State.Ready {} := by simp [State.Ready]
    obtain ⟨q, hhead, hq⟩ := run_head (r := r) (o := some op) hready hts
    have hblock := run_block (s := ⟨[], [], q⟩) (run_spellAll r es hc) (by simpa using hd) hts'
    have hhead : run r {} ts = .ok ⟨[], [], q⟩ := hhead
    rw [run_append hhead, hblock, hq]
    rfl
  exact readFrom_of_run (by simpa using h) hrun (by simp [State.Ready]) rfl

theorem isOperator_equals : IsOperator ['='] := by
  decide +kernel

open GameScript.Tree in
/-- The code of an element below a parent is read as a block of the parent with the element. -/
theorem IsNeat.parse_wrapped (h : IsNeat e) (hp : IsWord p) (hflat : IsFlat p)
    (hd : e.depth < Tree.maxDepth) :
    parse .strict ['#'] (Definition.tidyCode (Layout.format { parentKey := some p } e)) =
      .ok [.block p (some ['=']) [e]] := by
  have hcanonical : AllCanonical [e] := ⟨h.canonical, by simp, trivial⟩
  rw [tidyCode_wrapped h.canonical h.flat hflat]
  have hread := (laysOut_wrapped (p := p) h.canonical).readsAs plainMarker_hash fun k hk => by
    simp only [List.mem_cons, List.mem_append, List.not_mem_nil, or_false] at hk
    rcases hk with rfl | rfl | rfl | hk | rfl
    · exact hp.stands
    · exact isOperator_equals.stands
    · exact ⟨[], cutsOff_openBrace (by decide)⟩
    · exact stands_of_mem_spellAll [e] hcanonical k hk
    · exact ⟨[], cutsOff_closeBrace (by decide)⟩
  have hbraces : bracesAll [e] < maxDepth := by
    have := braces_le_depth e
    simp only [bracesAll]
    omega
  exact parse_eq_ok.2
    (readFrom_wrapped hcanonical.shaped hbraces (by simpa [tokens] using hread {}))

end Element

/-! ## Origins -/

namespace SourceFile

/-- How a definition is made of an element, below a parent or not. -/
inductive MadeOf (f : SourceFile) : Option Text → Element → Definition → Prop
  | setting {e : Element} : MadeOf f none e (f.variableDefinition e)
  | lifted {e : Element} {parent : Option Text} :
    MadeOf f none e { f.variableDefinition e with codeTag := parent }
  | namespaceKey {e : Element} : MadeOf f none e (f.namespaceDefinition e)
  | inlineScript {e : Element} {target : Text} :
    MadeOf f none e { f.simpleDefinition .object target e.format target with hasInlineId := true }
  | object {e : Element} {parent : Option Text} :
    MadeOf f parent e (f.objectDefinition {} e parent)
  | finished {e : Element} {parent : Option Text} {simple : Bool} {d d' : Definition} :
    MadeOf f parent e d → d'.unnumbered = d.finished simple → MadeOf f parent e d'

def leafOrigins (f : SourceFile) (e : Element) : List Element :=
  if (f.leafDefinition false e).isSome then [e] else []

def rootOrigins (f : SourceFile) (es : List Element) : List Element :=
  es.flatMap fun e => if e.isLeaf then f.leafOrigins e else e :: e.nestedVariables

def secondLevelOrigins (f : SourceFile) (es : List Element) : List (Option Text × Element) :=
  es.flatMap fun e =>
    if e.isLeaf then (f.leafOrigins e).map (none, ·)
    else e.children.flatMap fun c =>
      if c.isVariable then [(none, c)]
      else if c.isLeaf then []
      else (some e.key, c) :: c.nestedVariables.map (none, ·)

variable {f : SourceFile} {s : ScriptSettings} {e : Element} {es : List Element}
  {parent : Option Text} {d : Definition} {ds ds' : List Definition} {simple : Bool}

/-- The code of a definition is the tidied text of its origin, below its parent. -/
theorem MadeOf.code (h : f.MadeOf parent e d) :
    d.code = Definition.tidyCode (Layout.format { parentKey := parent } e) := by
  induction h with
  | setting | lifted | namespaceKey | inlineScript => exact code_simpleDefinition
  | object => exact code_objectDefinition
  | finished _ hd ih => exact (isLike_of_finished hd).code.trans ih

/-- Whether definitions are made of these elements, below these parents, one of each. -/
def AllMadeOf (f : SourceFile) (ps : List (Option Text × Element)) (ds : List Definition) : Prop :=
  List.Forall₂ (fun p d => f.MadeOf p.1 p.2 d) ps ds

/-- Finishing leaves the origins. -/
theorem AllMadeOf.finished {ps : List (Option Text × Element)} (h : f.AllMadeOf ps ds)
    (hds : ds'.map (·.unnumbered) = ds.map (·.finished simple)) : f.AllMadeOf ps ds' := by
  unfold AllMadeOf at h ⊢
  induction h generalizing ds' with
  | nil =>
    obtain rfl := List.map_eq_nil_iff.1 hds
    exact .nil
  | cons hd _ ih =>
    obtain ⟨d', ds', rfl, hd', hds⟩ := List.map_eq_cons_iff.1 hds
    exact .cons (hd.finished hd') (ih hds)

theorem AllMadeOf.flatMap {α : Type} {as : List α} {ps : α → List (Option Text × Element)}
    {gs : α → List Definition} (h : ∀ a, f.AllMadeOf (ps a) (gs a)) :
    f.AllMadeOf (as.flatMap ps) (as.flatMap gs) := by
  induction as with
  | nil => exact .nil
  | cons a as ih => exact List.rel_append (h a) ih

theorem madeOf_leafDefinition (h : f.leafDefinition false e = some d) : f.MadeOf none e d := by
  rw [leafDefinition] at h
  split at h
  · exact Option.some.inj h ▸ .setting
  split at h
  · exact Option.some.inj h ▸ .namespaceKey
  split at h
  · obtain ⟨target, -, rfl⟩ := Option.map_eq_some_iff.1 h
    exact .inlineScript
  · cases h

theorem allMadeOf_leafDefinitions :
    f.AllMadeOf ((f.leafOrigins e).map (none, ·)) (f.leafDefinitions {} false e) := by
  rw [leafOrigins, leafDefinitions]
  cases h : f.leafDefinition false e with
  | none => exact .nil
  | some d => exact .cons (madeOf_leafDefinition h) .nil

theorem allMadeOf_objectDefinitions :
    f.AllMadeOf ((parent, e) :: e.nestedVariables.map (none, ·))
      (f.objectDefinitions {} parent e) := by
  refine .cons .object ?_
  rw [liftedVariables, List.forall₂_map_left_iff, List.forall₂_map_right_iff, List.forall₂_same]
  exact fun v _ => .lifted

theorem allMadeOf_rootDefinitions :
    f.AllMadeOf ((f.rootOrigins es).map (none, ·)) (f.rootDefinitions {} false es) := by
  rw [rootOrigins, List.map_flatMap]
  refine AllMadeOf.flatMap fun e => ?_
  split
  · exact allMadeOf_leafDefinitions
  · exact allMadeOf_objectDefinitions

theorem allMadeOf_secondLevelDefinitions :
    f.AllMadeOf (f.secondLevelOrigins es) (f.secondLevelDefinitions {} es) := by
  refine AllMadeOf.flatMap fun e => ?_
  split
  · exact allMadeOf_leafDefinitions
  · refine AllMadeOf.flatMap fun c => ?_
    unfold innerDefinitions
    split
    · exact .cons .setting .nil
    split
    · exact .nil
    · exact allMadeOf_objectDefinitions

/-! ## Meaning -/

/-- What the code of a definition means: its origin, below a parent or not. -/
def CodeMeans (parent : Option Text) (e : Element) (d : Definition) : Prop :=
  match parent with
  | none => parse .strict ['#'] d.code = .ok [e]
  | some key => key ≠ [] → parse .strict ['#'] d.code = .ok [.block key (some ['=']) [e]]

/-- An element that is neat and can be nested once more, below a parent whose key is flat. -/
structure IsSound (parent : Option Text) (e : Element) : Prop where
  neat : e.IsNeat
  depth : e.depth < Tree.maxDepth
  parent : ∀ key ∈ parent, key ≠ [] → IsWord key ∧ IsFlat key

theorem MadeOf.means (h : f.MadeOf parent e d) (he : IsSound parent e) :
    CodeMeans parent e d := by
  have hcode := h.code
  cases parent with
  | none =>
    show parse .strict ['#'] d.code = .ok [e]
    rw [hcode]
    exact he.neat.parse_format (Nat.le_of_lt he.depth)
  | some key =>
    intro hkey
    obtain ⟨hword, hflat⟩ := he.parent key rfl hkey
    rw [hcode]
    exact he.neat.parse_wrapped hword hflat he.depth

section

variable {P : Element → Prop} (hchild : ∀ {e c : Element}, P e → c ∈ e.children → P c)
  (hes : ∀ e ∈ es, P e)

include hchild hes

theorem of_mem_rootOrigins (he : e ∈ f.rootOrigins es) : P e := by
  obtain ⟨b, hb, he⟩ := List.mem_flatMap.1 he
  split at he
  · rw [leafOrigins] at he
    split at he
    · exact List.mem_singleton.1 he ▸ hes b hb
    · cases he
  · rcases List.mem_cons.1 he with rfl | he
    · exact hes _ hb
    · exact of_mem_nestedVariables hchild b (hes b hb) he

theorem of_mem_secondLevelOrigins {p : Option Text × Element} (hp : p ∈ f.secondLevelOrigins es) :
    P p.2 ∧ ∀ key ∈ p.1, ∃ b, P b ∧ b.isLeaf = false ∧ b.key = key := by
  obtain ⟨b, hb, hp⟩ := List.mem_flatMap.1 hp
  have hb := hes b hb
  split at hp
  · obtain ⟨e, he, rfl⟩ := List.mem_map.1 hp
    rw [leafOrigins] at he
    split at he
    · exact ⟨List.mem_singleton.1 he ▸ hb, by simp⟩
    · cases he
  · next hleaf =>
    obtain ⟨c, hc, hp⟩ := List.mem_flatMap.1 hp
    have hc := hchild hb hc
    split at hp
    · exact List.mem_singleton.1 hp ▸ ⟨hc, by simp⟩
    split at hp
    · cases hp
    rcases List.mem_cons.1 hp with rfl | hp
    · exact ⟨hc, by simpa using ⟨b, hb, by simpa using hleaf, rfl⟩⟩
    · obtain ⟨v, hv, rfl⟩ := List.mem_map.1 hp
      exact ⟨of_mem_nestedVariables hchild c hc hv, by simp⟩

end

theorem IsSound.of_mem_children {c : Element} (h : IsSound none e) (hc : c ∈ e.children) :
    IsSound none c :=
  ⟨h.neat.of_mem_children hc, Nat.lt_trans (depth_lt_of_mem_children hc) h.depth, by simp⟩

section

variable (hneat : ∀ e ∈ es, e.IsNeat) (hdepth : depthAll es < Tree.maxDepth)

include hneat hdepth

theorem isSound_of_mem (he : e ∈ es) : IsSound none e :=
  ⟨hneat e he, Nat.lt_of_le_of_lt (depthAll_le.1 (Nat.le_refl _) e he) hdepth, by simp⟩

theorem isSound_of_mem_rootOrigins (he : e ∈ f.rootOrigins es) : IsSound none e :=
  of_mem_rootOrigins IsSound.of_mem_children (fun _ h => isSound_of_mem hneat hdepth h) he

theorem isSound_of_mem_secondLevelOrigins {p : Option Text × Element}
    (hp : p ∈ f.secondLevelOrigins es) : IsSound p.1 p.2 := by
  obtain ⟨hsound, hparent⟩ := of_mem_secondLevelOrigins IsSound.of_mem_children
    (fun _ h => isSound_of_mem hneat hdepth h) hp
  refine ⟨hsound.neat, hsound.depth, fun key hkey hne => ?_⟩
  obtain ⟨b, hb, hleaf, rfl⟩ := hparent key hkey
  exact hb.neat.key hleaf hne

end

/-- **Code means the element it was made of.** Of a file with number signs for comments that is
read strictly, that nests at most 255 blocks deep, and whose words are each one by itself, on one
line and without tabs: the code of every definition at the top level is read strictly as the
element that the definition was made of, and nothing else; and one level below the top, the code
of every object is read as its element in a block with the key of the block around it, provided
that there is such a key. -/
theorem extract_means (hread : f.elements s = .ok ⟨es, false⟩) (hmarker : s.marker f.path = ['#'])
    (hdepth : depthAll es ≤ 255)
    (hwords : ∀ w, .word w ∈ kinds ['#'] f.text → IsWord w ∧ '\t' ∉ w ∧ '\n' ∉ w) :
    List.Forall₂ (fun e d => f.MadeOf none e d ∧ parse .strict ['#'] d.code = .ok [e])
      (f.rootOrigins es) (f.extractRoot s {}) ∧
    List.Forall₂ (fun p d => f.MadeOf p.1 p.2 d ∧ CodeMeans p.1 p.2 d)
      (f.secondLevelOrigins es) (f.extractSecondLevel s {}) := by
  have hparse := elements_strict hread rfl
  rw [hmarker] at hparse
  have hcanonical := allCanonical_of_parse_strict hparse fun w hw => (hwords w hw).1
  have hflat : ∀ w ∈ wordsAll es, IsFlat w := fun w hw =>
    (hwords w ((of_parse_strict hparse).2.1 w hw)).2
  have hneat : ∀ e ∈ es, e.IsNeat := fun e he => isNeat_of_mem hcanonical hflat he
  have hlt : depthAll es < Tree.maxDepth := Nat.lt_succ_of_le hdepth
  have hextract (classify : List Element → List Definition) :
      f.extract s classify = finishDefinitions false (classify es) := by
    rw [extract, hread]
  constructor
  · have hfinished : (f.extractRoot s {}).map (·.unnumbered) =
        (f.rootDefinitions {} false es).map (·.finished false) := by
      rw [extractRoot, hextract, unnumbered_finishDefinitions]
    have hmade := allMadeOf_rootDefinitions.finished hfinished
    rw [AllMadeOf, List.forall₂_map_left_iff] at hmade
    exact ((List.forall₂_and_left _ _).2
      ⟨fun e he => isSound_of_mem_rootOrigins hneat hlt he, hmade⟩).imp
        fun e d h => ⟨h.2, h.2.means h.1⟩
  · have hfinished : (f.extractSecondLevel s {}).map (·.unnumbered) =
        (f.secondLevelDefinitions {} es).map (·.finished false) := by
      rw [extractSecondLevel, hextract, unnumbered_finishDefinitions]
    have hmade := allMadeOf_secondLevelDefinitions.finished hfinished
    exact ((List.forall₂_and_left _ _).2
      ⟨fun p hp => isSound_of_mem_secondLevelOrigins hneat hlt hp, hmade⟩).imp
        fun p d h => ⟨h.2, h.2.means h.1⟩

def colourFile : SourceFile :=
  { path := "common/x.txt",
    lines := ["namespace = n", "sky = \x7b hsv \x7b @a = \"x y\" \x7d \x7d"] }

def colours : List Element :=
  [.leaf "namespace" "=" "n", .block "sky" "=" [.block "hsv" none [.leaf "@a" "=" "\"x y\""]]]

theorem extract_means_colourFile :
    colourFile.elements {} = .ok ⟨colours, false⟩ ∧ depthAll colours ≤ 255 ∧
      (∀ w, .word w ∈ kinds ['#'] colourFile.text → IsWord w ∧ '\t' ∉ w ∧ '\n' ∉ w) ∧
      ∃ d ∈ colourFile.extractSecondLevel {} {}, parse .strict ['#'] d.code = .ok [colours[1]] := by
  have hread : colourFile.elements {} = .ok ⟨colours, false⟩ := by
    have hok : (colourFile.elements {}).toOption.map (fun tree => (tree.elements, tree.simple)) =
        some (colours, false) := by decide +kernel
    obtain ⟨tree, htree, heq⟩ := Option.map_eq_some_iff.1 hok
    cases tree
    cases heq
    exact eq_ok_of_toOption htree
  have hwords : ∀ w, .word w ∈ kinds ['#'] colourFile.text → IsWord w ∧ '\t' ∉ w ∧ '\n' ∉ w := by
    have hkinds : kinds ['#'] colourFile.text =
        [.word "namespace", .operator "=", .word "n", .word "sky", .operator "=", .openBrace,
          .word "hsv", .openBrace, .word "@a", .operator "=", .word "\"x y\"", .closeBrace,
          .closeBrace, .endOfInput] := by decide +kernel
    intro w hw
    rw [hkinds] at hw
    simp only [List.mem_cons, List.not_mem_nil, or_false, reduceCtorEq, false_or,
      TokenKind.word.injEq] at hw
    rcases hw with rfl | rfl | rfl | rfl | rfl | rfl <;> decide +kernel
  refine ⟨hread, by decide, hwords, ?_⟩
  obtain ⟨-, hsecond⟩ := extract_means hread (by decide +kernel) (by decide) hwords
  have horigins : colourFile.secondLevelOrigins colours =
      [(none, colours[0]), (some ['s', 'k', 'y'], colours[1].children[0]),
        (none, .leaf "@a" "=" "\"x y\"")] := by decide +kernel
  rw [horigins] at hsecond
  obtain ⟨_, rest, _, hrest, hds⟩ := List.forall₂_cons_left_iff.1 hsecond
  obtain ⟨object, _, hobject, _, rfl⟩ := List.forall₂_cons_left_iff.1 hrest
  refine ⟨object, ?_, hobject.2 (by decide)⟩
  rw [hds]
  exact List.mem_cons_of_mem _ List.mem_cons_self

end SourceFile

end GameScript
