import GameScript.Proofs.Extract.Meaning
import GameScript.Proofs.Script.Rereading
import GameScript.Proofs.Script.Shapes

/-!
# Which code of objects can be read

The code of an object one level below the top is its text in braces behind the key of the block
around it. Whatever its words are, that can be read strictly if there is such a key: one that leaves
a bracket open takes in the equals sign, and what is changed by tidying are blanks. Without a key
the code begins with the equals sign, and is refused (`accepts_object_iff`).
-/

namespace GameScript

open Text Lexer Layout

namespace Element

/-- An element as a strict reading makes it, which one more block may be put around. -/
structure IsReadable (e : Element) : Prop where
  shaped : Shaped e
  words : ∀ w ∈ words e, IsRead w
  operators : ∀ o ∈ operators e, IsOperator o
  depth : e.depth < Tree.maxDepth

variable {e c : Element} {es : List Element} {p : Text}

theorem AllShaped.of_mem (h : AllShaped es) (he : e ∈ es) : Shaped e := by
  induction es with
  | nil => cases he
  | cons f es ih =>
    rcases List.mem_cons.1 he with rfl | he
    · exact h.1
    · exact ih h.2.2 he

theorem IsReadable.of_mem_children (h : IsReadable e) (hc : c ∈ e.children) : IsReadable c := by
  have hdepth := Nat.lt_trans (depth_lt_of_mem_children hc) h.depth
  cases e with
  | leaf k o v => cases hc
  | block k o es =>
    refine ⟨h.shaped.2.of_mem hc, fun w hw => h.words w ?_, fun op hop => h.operators op ?_, hdepth⟩
    · exact List.mem_append_right _ (mem_wordsAll.2 ⟨c, hc, hw⟩)
    · exact List.mem_append_right _ (mem_operatorsAll.2 ⟨c, hc, hop⟩)

theorem IsReadable.key (h : IsReadable e) (hleaf : e.isLeaf = false) (hkey : e.key ≠ []) :
    IsRead e.key := by
  cases e with
  | leaf k o v => cases hleaf
  | block k o es =>
    have hk : k ≠ [] := hkey
    exact h.words k (by simp [Element.words, hk])

/-- What a strict reading makes, with few enough blocks in each other. -/
theorem isReadable_of_parse_strict {source : Text} (h : parse .strict ['#'] source = .ok es)
    (hdepth : depthAll es ≤ 255) (he : e ∈ es) : IsReadable e := by
  obtain ⟨hshaped, hwords, hoperators, -⟩ := of_parse_strict h
  refine ⟨hshaped.of_mem he, fun w hw => ?_, fun o ho => ?_,
    Nat.lt_succ_of_le (depthAll_le.1 hdepth e he)⟩
  · exact cutsOff_word_of_mem_kinds (hwords w (mem_wordsAll.2 ⟨e, he, hw⟩))
  · exact isOperator_of_mem_kinds (hoperators o (mem_operatorsAll.2 ⟨e, he, ho⟩))

/-! ## Texts -/

/-- The text of an element in a block: its lines in braces, behind a head. -/
theorem format_wrapped (p : Text) (e : Element) : Layout.format { parentKey := some p } e =
    headText p (some ['=']) ++ ' ' :: '{' :: '\n' ::
      (childLines false 4 1 [e] ++ (pad 4 0 ++ ['}'])) := by
  simp [Layout.format, headText, childLines, keeps, pad]

theorem not_accepts_of_operator {m t op : Text} {ks : List TokenKind}
    (h : ReadsAs m t (.operator op :: ks)) : ¬ ∃ es, parse .strict m t = .ok es := by
  rw [(parse_strict_iff_grammatical m t).1]
  intro hgrammatical
  have hplain : plainKinds m t = .operator op :: ks.filter (!·.isComment) := by
    rw [plainKinds, h.kinds]
    rfl
  exact not_endsInKey_nil (hgrammatical.placed [] op _ hplain).1

namespace IsReadable

variable (h : IsReadable e)

include h

theorem allShaped_rereadAll : AllShaped (rereadAll [e]) :=
  Element.allShaped_rereadAll [e] ⟨h.shaped, by simp, trivial⟩

theorem bracesAll_rereadAll : bracesAll (rereadAll [e]) < Tree.maxDepth := by
  have hreread := Element.bracesAll_rereadAll [e]
  have hdepth := bracesAll_le_depthAll [e]
  have := h.depth
  simp only [depthAll] at hdepth
  omega

theorem accepts_format : ∃ es, parse .strict ['#'] e.format = .ok es := by
  have hread : ReadsAs ['#'] (formatAll [e]) (spellAll (rereadAll [e]) ++ [.endOfInput]) :=
    readsAs_formatAll ⟨h.shaped, by simp, trivial⟩ (by simpa [wordsAll] using h.words)
      (by simpa [operatorsAll] using h.operators)
  exact ⟨_, parse_eq_ok.2 (readFrom_spell h.allShaped_rereadAll
    (Nat.le_of_lt h.bracesAll_rereadAll) (hread {}))⟩

theorem readsAs_inBraces : ReadsAs ['#']
    ('{' :: '\n' :: (childLines false 4 1 [e] ++ (pad 4 0 ++ ['}'])))
    (.openBrace :: (spellAll (rereadAll [e]) ++ [.closeBrace, .endOfInput])) :=
  readsAs_braces 4 0 (readsAs_childLines 4 1 [e] ⟨h.shaped, by simp, trivial⟩
    (by simpa [wordsAll] using h.words) (by simpa [operatorsAll] using h.operators)) readsAs_nil

/-- Behind a key that closes its brackets, the lines are read as a block. -/
theorem parse_wrapped_closed (hp : IsRead p) (hclosed : leavesOpen p = false) :
    parse .strict ['#'] (Layout.format { parentKey := some p } e) =
      .ok [.block p (some ['=']) (rereadAll [e])] := by
  have hread := readsAs_head (o := some ['=']) (hp.stands hclosed)
    (by simpa using isOperator_equals) h.readsAs_inBraces
  rw [format_wrapped]
  exact parse_eq_ok.2 (readFrom_wrapped h.allShaped_rereadAll h.bracesAll_rereadAll (hread {}))

/-- A key that leaves a bracket open takes in the equals sign. -/
theorem parse_wrapped_open (hp : IsRead p) (hopen : leavesOpen p = true) :
    parse .strict ['#'] (Layout.format { parentKey := some p } e) =
      .ok [.block (headText p (some ['=']) ++ [' ']) none (rereadAll [e])] := by
  obtain ⟨g, hg, hinside⟩ :=
    exists_swallowed (o := some ['=']) p (by simpa using isOperator_equals)
  have hread := readsAs_swallowed hp hopen hg hinside h.readsAs_inBraces
  have hspell : spellAll [.block (headText p (some ['=']) ++ [' ']) none (rereadAll [e])] =
      .word (headText p (some ['=']) ++ [' ']) :: .openBrace ::
        (spellAll (rereadAll [e]) ++ [.closeBrace]) := by
    simp [spellAll, spell]
  have hbraces : bracesAll [.block (headText p (some ['=']) ++ [' ']) none (rereadAll [e])] ≤
      Tree.maxDepth := by
    have := h.bracesAll_rereadAll
    simp [bracesAll, braces]
    omega
  rw [format_wrapped]
  refine parse_eq_ok.2 (readFrom_spell ⟨⟨by simp, h.allShaped_rereadAll⟩, by simp, trivial⟩
    hbraces ?_)
  rw [hspell]
  simpa [tokens] using hread {}

/-- **In a block, the text of an element is accepted if the block has a key.** -/
theorem accepts_wrapped_iff (hp : p ≠ [] → IsRead p) :
    (∃ es, parse .strict ['#'] (Layout.format { parentKey := some p } e) = .ok es) ↔ p ≠ [] := by
  constructor
  · rintro hok rfl
    have hcut {t : Text} : CutsOff ['#'] (.operator ['=']) (' ' :: t) :=
      isOperator_equals.stands.before_spaced plainMarker_hash (startsSpaced_cons rfl)
    have hread := ((h.readsAs_inBraces.gap (c := ' ') rfl).cons hcut).gap (c := ' ') rfl
    rw [format_wrapped] at hok
    exact not_accepts_of_operator hread hok
  · intro hne
    cases hopen : leavesOpen p with
    | false => exact ⟨_, h.parse_wrapped_closed (hp hne) hopen⟩
    | true => exact ⟨_, h.parse_wrapped_open (hp hne) hopen⟩

end IsReadable

end Element

/-! ## Objects -/

namespace SourceFile

open Element

variable {f : SourceFile} {s : ScriptSettings} {es : List Element} {e : Element}
  {parent : Option Text} {d d' : Definition} {ds : List Definition} {simple : Bool}

theorem codeTag_objectDefinition {naming : Naming} :
    (f.objectDefinition naming e parent).codeTag = parent := by
  unfold objectDefinition
  extract_lets inlineId id id' d₁ d₂ d₃
  rw [Definition.addGenericTags, Definition.addTags_eq, Definition.addTag_eq]
  cases parent <;> rfl

theorem codeTag_of_finished (h : d'.unnumbered = d.finished simple) : d'.codeTag = d.codeTag := by
  have hsame : (d.finished simple).codeTag = d.codeTag := by
    unfold Definition.finished
    dsimp only
    split <;> rfl
  rw [← hsame, ← h]
  rfl

/-- Objects have the key of the block around them for their tag. -/
theorem MadeOf.codeTag (h : f.MadeOf parent e d) (hkind : d.kind = .object) :
    d.codeTag = parent := by
  induction h with
  | setting | lifted =>
    have hvariable : Kind.plainVariable = .object := kind_simpleDefinition.symm.trans hkind
    cases hvariable
  | namespaceKey =>
    have hkey : Kind.namespaceKey = .object := kind_simpleDefinition.symm.trans hkind
    cases hkey
  | inlineScript =>
    unfold simpleDefinition
    rw [Definition.addTag_eq]
    rfl
  | object => exact codeTag_objectDefinition
  | finished _ hd ih =>
    rw [codeTag_of_finished hd]
    exact ih ((isLike_of_finished hd).kind.symm.trans hkind)

theorem AllMadeOf.exists_origin {ps : List (Option Text × Element)} (h : f.AllMadeOf ps ds)
    (hd : d ∈ ds) : ∃ p ∈ ps, f.MadeOf p.1 p.2 d := by
  obtain ⟨i, hi, rfl⟩ := List.mem_iff_getElem.1 hd
  have hlength : i < ps.length := by rwa [List.Forall₂.length_eq h]
  exact ⟨ps[i], List.getElem_mem hlength, List.Forall₂.get h hlength hi⟩

/-- The code that is made of an element is accepted unless its parent has no key. -/
theorem MadeOf.accepts_iff (h : f.MadeOf parent e d) (he : e.IsReadable)
    (hparent : ∀ key ∈ parent, key ≠ [] → IsRead key) :
    (∃ es, parse .strict ['#'] d.code = .ok es) ↔ parent ≠ some [] := by
  rw [h.code, accepts_tidyCode plainMarker_hash]
  cases parent with
  | none => exact iff_of_true he.accepts_format (by simp)
  | some key => simpa using he.accepts_wrapped_iff (hparent key rfl)

/-- **The code of an object can be read, unless the block around it has no key.** Of a file with
number signs for comments that is read strictly and nests at most 255 blocks deep, a strict reading
accepts the code of an object one level below the top exactly when that level is not inside of a
nameless block. -/
theorem accepts_object_iff (hread : f.elements s = .ok ⟨es, false⟩)
    (hmarker : s.marker f.path = ['#']) (hdepth : depthAll es ≤ 255)
    (hd : d ∈ f.extractSecondLevel s {}) (hkind : d.kind = .object) :
    (∃ es', parse .strict ['#'] d.code = .ok es') ↔ d.codeTag ≠ some [] := by
  have hparse := elements_strict hread rfl
  rw [hmarker] at hparse
  have hreadable : ∀ e ∈ es, IsReadable e := fun e he => isReadable_of_parse_strict hparse hdepth he
  have hfinished : (f.extractSecondLevel s {}).map (·.unnumbered) =
      (f.secondLevelDefinitions {} es).map (·.finished false) := by
    rw [extractSecondLevel, extract, hread, unnumbered_finishDefinitions]
  have hmade := allMadeOf_secondLevelDefinitions.finished hfinished
  obtain ⟨p, hp, hmade⟩ := hmade.exists_origin hd
  obtain ⟨he, hparent⟩ := of_mem_secondLevelOrigins IsReadable.of_mem_children hreadable hp
  rw [hmade.codeTag hkind]
  refine hmade.accepts_iff he fun key hkey hne => ?_
  obtain ⟨b, hb, hleaf, rfl⟩ := hparent key hkey
  exact hb.key hleaf hne

def openFile : SourceFile :=
  { path := "common/x/a.txt", lines := ["[p = \x7b a = \x7b b = \"x\ty\" \x7d \x7d"] }

theorem accepts_object_iff_openFile :
    openFile.elements {} = .ok ⟨[.block "[p = " none [.block "a" "=" [.leaf "b" "=" "\"x\ty\""]]],
      false⟩ ∧
    ∃ d ∈ openFile.extractSecondLevel {} {}, d.kind = .object ∧
      ∃ es, parse .strict ['#'] d.code = .ok es := by
  have hok : (openFile.elements {}).toOption.map (fun tree => (tree.elements, tree.simple)) =
      some ([.block "[p = " none [.block "a" "=" [.leaf "b" "=" "\"x\ty\""]]], false) := by
    decide +kernel
  obtain ⟨tree, htree, heq⟩ := Option.map_eq_some_iff.1 hok
  cases tree
  cases heq
  have hread := eq_ok_of_toOption htree
  have hobject : ∃ d ∈ openFile.extractSecondLevel {} {}, d.kind = .object ∧
      d.codeTag ≠ some [] := by decide +kernel
  obtain ⟨d, hd, hkind, htag⟩ := hobject
  have haccepts := accepts_object_iff hread (by decide +kernel) (by decide) hd hkind
  exact ⟨hread, d, hd, hkind, haccepts.2 htag⟩

def namelessFile : SourceFile :=
  { path := "common/x/a.txt", lines := ["\x7b a = \x7b b = 1 \x7d \x7d"] }

/-- The block without a name has code that begins with an equals sign, which is refused. -/
theorem not_accepts_nameless : ({} : ScriptSettings).marker namelessFile.path = ['#'] ∧
    (∃ es, (namelessFile.elements {}).toOption.map (fun tree => (tree.elements, tree.simple)) =
      some (es, false) ∧ Element.depthAll es ≤ 255) ∧
    ∃ d ∈ namelessFile.extractSecondLevel {} {}, d.kind = .object ∧
      d.code = " = \x7b\n    a = \x7b\n        b = 1\n    \x7d\n\x7d" ∧
      (parse .strict ['#'] d.code).toOption = none := by
  have htree : (namelessFile.elements {}).toOption.map (fun tree => (tree.elements, tree.simple)) =
      some ([.block "" none [.block "a" "=" [.leaf "b" "=" "1"]]], false) := by decide +kernel
  refine ⟨by decide +kernel, ⟨_, htree, by decide⟩, ?_⟩
  decide +kernel

end SourceFile

end GameScript
