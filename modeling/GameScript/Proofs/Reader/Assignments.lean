import GameScript.Proofs.Reader.Writings
import GameScript.Proofs.Script.RoundTrip

/-!
# What is parsed of constants

The cleaned lines of constants are no canonical text, but they lay out the tokens of elements: line
by line (`LineSpells`, `laysOut_unlines`). So they are parsed as these elements, the dotted
assignments as leaves (`parse_dotted`) and the tables as a block of blocks (`parse_nested`).
-/

namespace GameScript

open Text Lexer Lua Element

variable {outer name v : Text} {gs : List ConstantGroup}

/-! ## Words -/

theorem stopsWord_part {c : Char} {r : Text} (hc : isWordChar c = true ∨ c ∈ ['.', '-', ','])
    (hr : isCommentAt ['-', '-'] (c :: r) = false) :
    isGap c = false ∧ isControl c = false ∧ isOperatorAt c r = false ∧ c ≠ '{' ∧ c ≠ '}' ∧
      stopsWord ['-', '-'] (.plain false) c r = false ∧
      WordState.next (.plain false) c = .plain false := by
  have hmarks : isBlankChar c = false ∧ isControl c = false ∧
      c ∉ ['"', '{', '}', '\n', '\r', '[', ']', '=', '<', '>', '!', '?', '\uFEFF'] := by
    rcases hc with hc | hc
    · have hnone : ['"', '{', '}', '\n', '\r', '[', ']', '=', '<', '>', '!', '?', '\uFEFF'].all
          (!isWordChar ·) = true := by
        decide +kernel
      refine ⟨not_blank_of_isWordChar hc, not_control_of_isWordChar hc, fun hmem => ?_⟩
      have hnot := List.all_eq_true.1 hnone c hmem
      rw [hc] at hnot
      cases hnot
    · simp only [List.mem_cons, List.not_mem_nil, or_false] at hc
      rcases hc with rfl | rfl | rfl <;> decide
  obtain ⟨hblank, hcontrol, hne⟩ := hmarks
  simp only [List.mem_cons, not_or] at hne
  obtain ⟨h1, h2, h3, h4, h5, h6, h7, h8, h9, h10, h11, h12, h13, -⟩ := hne
  have hop : isOperatorAt c r = false := by
    simp [isOperatorAt, isOperatorChar, h8, h9, h10, h11, h12]
  refine ⟨?_, hcontrol, hop, h2, h3, ?_, ?_⟩
  · simp [isGap, hblank, h13]
  · simp [stopsWord, endsWord, hblank, hcontrol, hop, hr, h2, h3, h4, h5]
  · simp [WordState.next, h1, h6, h7]

theorem spanWord_parts (h : ∀ c ∈ v, isWordChar c = true ∨ c ∈ ['.', '-', ','])
    (hu : IsUndashed (v ++ [' '])) :
    spanWord ['-', '-'] (.plain false) (v ++ [' ']) = ⟨v, [' '], none⟩ := by
  induction v with
  | nil => rfl
  | cons c v ih =>
    rw [List.forall_mem_cons] at h
    rw [List.cons_append] at hu ⊢
    obtain ⟨-, -, -, -, -, hstop, hnext⟩ := stopsWord_part h.1 (isCommentAt_of_isUndashed hu)
    rw [spanWord_cons, hstop, if_neg (by decide), hnext, ih h.2 hu.tail]
    rfl

theorem stands_of_parts (hne : v ≠ []) (h : ∀ c ∈ v, isWordChar c = true ∨ c ∈ ['.', '-', ','])
    (hundashed : IsUndashed v) : Stands ['-', '-'] (.word v) := by
  have hu : IsUndashed (v ++ [' ']) := hundashed.concat (by decide)
  obtain ⟨c, cs, hv⟩ := List.exists_cons_of_ne_nil hne
  have hc := h c (hv ▸ List.mem_cons_self)
  have hcomment : isCommentAt ['-', '-'] (c :: (cs ++ [' '])) = false := by
    rw [hv] at hu
    exact isCommentAt_of_isUndashed hu
  obtain ⟨hgap, hcontrol, hop, hopen, hclose, -⟩ := stopsWord_part hc hcomment
  exact ⟨[], cutsOff_word_iff.2 ⟨c, cs, hv, hgap, ⟨hcomment, hopen, hclose, hop, hcontrol⟩,
    spanWord_parts h hu⟩⟩

theorem IsAmount.stands (h : IsAmount v) : Stands ['-', '-'] (.word v) := by
  refine stands_of_parts h.ne_nil (fun c hc => (h.chars c hc).imp_right ?_) h.undashed
  rintro (rfl | rfl) <;> simp

theorem stands_operator : Stands ['-', '-'] (.operator ['=']) :=
  ⟨[], '=', [], rfl, rfl, fun _ => rfl⟩

theorem plainMarker_dashes : PlainMarker ['-', '-'] := by
  intro c hc
  simp only [List.mem_cons, List.not_mem_nil, or_false, or_self] at hc
  rw [hc]
  decide

/-! ## Lines -/

def LineSpells (ks : List TokenKind) (line : Text) : Prop :=
  ∀ (js : List TokenKind) (t : Text), StartsSpaced t → LaysOut MayTouch js t →
    LaysOut MayTouch (ks ++ js) (line ++ t)

theorem laysOut_unlines {kss : List (List TokenKind)} {ls : List Text}
    (h : List.Forall₂ LineSpells kss ls) : LaysOut MayTouch kss.flatten (unlines ls) := by
  induction h with
  | nil => exact .nil (by simp [unlines, join])
  | @cons ks line kss ls hline hls ih =>
    cases hls with
    | nil =>
      have hlast := hline [] [] (by simp [StartsSpaced]) (.nil (by simp))
      simpa [unlines, join] using hlast
    | cons hline' hls' =>
      have hbroken := hline _ _ (startsSpaced_cons rfl) (ih.space (c := '\n') rfl)
      simpa [unlines, join] using hbroken

theorem lineSpells_assignLine (k : Text) : LineSpells (spell (.leaf k (some ['=']) (some v)))
    (assignLine k v) := by
  intro js t ht h
  have hhead := LaysOut.head k (some ['=']) (LaysOut.apart (.word v) ht h)
  simpa [Layout.headText, assignLine, spell, TokenKind.lexeme] using hhead

def openKinds (name : Text) : List TokenKind := [.word name, .operator ['='], .openBrace]

theorem stands_openKinds (hname : IsAmount name) : ∀ t ∈ openKinds name, Stands ['-', '-'] t := by
  intro t ht
  simp only [openKinds, List.mem_cons, List.not_mem_nil, or_false] at ht
  rcases ht with rfl | rfl | rfl
  · exact hname.stands
  · exact stands_operator
  · exact ⟨[], cutsOff_openBrace (by decide)⟩

theorem lineSpells_openLine : LineSpells (openKinds name) (openLine name) := by
  intro js t ht h
  have hhead := LaysOut.head name (some ['=']) (LaysOut.apart .openBrace ht h)
  simpa [Layout.headText, openLine, openKinds, TokenKind.lexeme] using hhead

theorem lineSpells_close : LineSpells [.closeBrace] ['}'] :=
  fun _ _ ht h => LaysOut.apart .closeBrace ht h

/-! ## Assignments -/

def assigned (key value : Text) : Element := .leaf key (some ['=']) (some value)

theorem stands_assigned {k : Text} (hk : IsAmount k) (hv : IsAmount v) :
    ∀ t ∈ spell (assigned k v), Stands ['-', '-'] t := by
  intro t ht
  simp only [assigned, spell, Option.map_some, Option.toList_some, List.mem_cons, List.mem_append,
    List.not_mem_nil, or_false] at ht
  rcases ht with rfl | rfl | rfl
  · exact hk.stands
  · exact stands_operator
  · exact hv.stands

theorem allShaped_of_named {es : List Element} (h : ∀ e ∈ es, Shaped e ∧ e.isAnonymous = false) :
    AllShaped es := by
  induction es with
  | nil => trivial
  | cons e es ih =>
    rw [List.forall_mem_cons] at h
    refine ⟨h.1.1, fun f hf hanon => ?_, ih h.2⟩
    rw [(h.2 f (List.mem_of_mem_head? hf)).2] at hanon
    cases hanon

theorem spellAll_eq (es : List Element) : spellAll es = (es.map spell).flatten := by
  induction es with
  | nil => rfl
  | cons e es ih => rw [spellAll, ih, List.map_cons, List.flatten_cons]

theorem mem_spellAll {es : List Element} {t : TokenKind} :
    t ∈ spellAll es ↔ ∃ e ∈ es, t ∈ spell e := by
  simp [spellAll_eq]

/-! ## What is read of dotted assignments -/

def dottedElements (outer : Text) (gs : List ConstantGroup) : List Element :=
  gs.flatMap fun g => g.constants.map fun c =>
    assigned (c.dottedName outer g.name) c.value

theorem lineSpells_dotted :
    List.Forall₂ LineSpells ((dottedElements outer gs).map spell) (dottedLines outer gs) := by
  unfold dottedElements dottedLines
  rw [List.map_flatMap]
  induction gs with
  | nil => exact .nil
  | cons g gs ih =>
    rw [List.flatMap_cons, List.flatMap_cons]
    refine List.rel_append ?_ ih
    rw [List.map_map, List.forall₂_map_left_iff, List.forall₂_map_right_iff, List.forall₂_same]
    exact fun c _ => lineSpells_assignLine _

theorem parse_dotted (houter : IsName outer) :
    parse .tolerant ['-', '-'] (unlines (dottedLines outer gs)) =
      .ok (dottedElements outer gs) := by
  have hmem {e : Element} (he : e ∈ dottedElements outer gs) :
      ∃ k v, IsAmount k ∧ IsAmount v ∧ e = assigned k v := by
    obtain ⟨g, -, he⟩ := List.mem_flatMap.1 he
    obtain ⟨c, -, rfl⟩ := List.mem_map.1 he
    exact ⟨_, _, c.isAmount_dottedName houter g.isName, c.isAmount, rfl⟩
  have hlays : LaysOut MayTouch (spellAll (dottedElements outer gs))
      (unlines (dottedLines outer gs)) := by
    rw [spellAll_eq]
    exact laysOut_unlines lineSpells_dotted
  refine parse_of_stands plainMarker_dashes (allShaped_of_named fun e he => ?_)
    (bracesAll_le.2 fun e he => ?_) (fun t ht => ?_) hlays
  · obtain ⟨k, v, hk, -, rfl⟩ := hmem he
    exact ⟨hk.ne_nil, rfl⟩
  · obtain ⟨k, v, -, -, rfl⟩ := hmem he
    exact Nat.zero_le _
  · obtain ⟨e, he, ht⟩ := mem_spellAll.1 ht
    obtain ⟨k, v, hk, hv, rfl⟩ := hmem he
    exact stands_assigned hk hv t ht

/-! ## What is read of tables -/

def ConstantGroup.element (g : ConstantGroup) : Element :=
  .block g.name (some ['=']) (g.constants.map fun c => assigned c.key c.value)

def outerElement (outer : Text) (gs : List ConstantGroup) : Element :=
  .block outer (some ['=']) (gs.map ConstantGroup.element)

def tableKinds (gs : List ConstantGroup) : List (List TokenKind) :=
  gs.flatMap fun g => openKinds g.name ::
    g.constants.map (fun c => spell (assigned c.key c.value)) ++ [[.closeBrace]]

/-- A block is written over several lines unless its child is a block without an operator. -/
theorem spell_block_of_not_mem {es : List Element} (hname : name ≠ [])
    (h : ∀ kw cs, .block kw none cs ∉ es) :
    spell (.block name (some ['=']) es) = openKinds name ++ (spellAll es ++ [.closeBrace]) := by
  have hinline : Layout.isInline false (some ['=']) es = false := by
    refine Bool.eq_false_iff.2 fun hinline => ?_
    obtain ⟨_, kw, cs, -, rfl, -⟩ := of_isInline hinline
    exact h kw cs List.mem_cons_self
  rw [spell, hinline, if_neg hname]
  rfl

theorem spell_element (g : ConstantGroup) : spell g.element = openKinds g.name ++
    ((g.constants.map fun c => spell (assigned c.key c.value)).flatten ++ [.closeBrace]) := by
  rw [ConstantGroup.element, spell_block_of_not_mem g.isName.ne_nil, spellAll_eq, List.map_map]
  · rfl
  · intro kw cs he
    obtain ⟨c, -, hc⟩ := List.mem_map.1 he
    cases hc

theorem spell_outerElement (houter : IsName outer) : spell (outerElement outer gs) =
    openKinds outer ++ ((tableKinds gs).flatten ++ [.closeBrace]) := by
  have htables : spellAll (gs.map ConstantGroup.element) = (tableKinds gs).flatten := by
    induction gs with
    | nil => rfl
    | cons g gs ih =>
      rw [List.map_cons, spellAll, ih, spell_element, tableKinds, tableKinds, List.flatMap_cons,
        List.flatten_append]
      simp
  rw [outerElement, spell_block_of_not_mem houter.ne_nil, htables]
  intro kw cs he
  obtain ⟨g, -, hg⟩ := List.mem_map.1 he
  cases hg

theorem lineSpells_tables : List.Forall₂ LineSpells (tableKinds gs) (tableLines gs) := by
  unfold tableKinds tableLines
  induction gs with
  | nil => exact .nil
  | cons g gs ih =>
    rw [List.flatMap_cons, List.flatMap_cons]
    refine List.rel_append (List.rel_append (.cons lineSpells_openLine ?_) ?_) ih
    · rw [List.forall₂_map_left_iff, List.forall₂_map_right_iff, List.forall₂_same]
      exact fun c _ => lineSpells_assignLine c.key
    · exact .cons lineSpells_close .nil

theorem stands_outerElement (houter : IsName outer) :
    ∀ t ∈ spell (outerElement outer gs), Stands ['-', '-'] t := by
  have hclose : Stands ['-', '-'] .closeBrace := ⟨[], cutsOff_closeBrace (by decide)⟩
  intro t ht
  rw [spell_outerElement houter, List.mem_append, List.mem_append, List.mem_singleton] at ht
  rcases ht with ht | ht | rfl
  · exact stands_openKinds houter.isAmount t ht
  · obtain ⟨ks, hks, ht⟩ := List.mem_flatten.1 ht
    obtain ⟨g, -, hks⟩ := List.mem_flatMap.1 hks
    simp only [List.cons_append, List.mem_cons, List.mem_append, List.mem_map, List.not_mem_nil,
      or_false] at hks
    rcases hks with rfl | ⟨c, -, rfl⟩ | rfl
    · exact stands_openKinds g.isName.isAmount t ht
    · exact stands_assigned c.isName.isAmount c.isAmount t ht
    · rw [List.mem_singleton.1 ht]
      exact hclose
  · exact hclose

theorem shaped_outerElement (houter : IsName outer) : Shaped (outerElement outer gs) := by
  refine ⟨fun h => absurd h houter.ne_nil, allShaped_of_named fun e he => ?_⟩
  obtain ⟨g, -, rfl⟩ := List.mem_map.1 he
  refine ⟨⟨fun h => absurd h g.isName.ne_nil, allShaped_of_named fun e he => ?_⟩, ?_⟩
  · obtain ⟨c, -, rfl⟩ := List.mem_map.1 he
    exact ⟨c.isName.ne_nil, rfl⟩
  · simp [ConstantGroup.element, isAnonymous, Element.key, g.isName.ne_nil]

theorem depth_outerElement : depth (outerElement outer gs) ≤ 2 := by
  refine Nat.succ_le_succ (depthAll_le.2 fun e he => ?_)
  obtain ⟨g, -, rfl⟩ := List.mem_map.1 he
  refine Nat.succ_le_succ (depthAll_le.2 fun e he => ?_)
  obtain ⟨c, -, rfl⟩ := List.mem_map.1 he
  exact Nat.le_refl _

theorem parse_nested (houter : IsName outer) :
    parse .tolerant ['-', '-'] (unlines (outerLines outer gs)) = .ok [outerElement outer gs] := by
  have hspell : spellAll [outerElement outer gs] =
      (openKinds outer :: tableKinds gs ++ [[TokenKind.closeBrace]]).flatten := by
    rw [spellAll_eq, List.map_singleton, spell_outerElement houter]
    simp
  have hlays : LaysOut MayTouch (spellAll [outerElement outer gs])
      (unlines (outerLines outer gs)) := by
    rw [hspell]
    exact laysOut_unlines (List.rel_append (.cons lineSpells_openLine lineSpells_tables)
      (.cons lineSpells_close .nil))
  have hdepth : bracesAll [outerElement outer gs] ≤ Tree.maxDepth := by
    refine bracesAll_le.2 fun e he => ?_
    rw [List.mem_singleton.1 he]
    exact ((braces_le_depth _).trans depth_outerElement).trans (by decide)
  refine parse_of_stands plainMarker_dashes ⟨shaped_outerElement houter, by simp, trivial⟩ hdepth
    (fun t ht => ?_) hlays
  obtain ⟨e, he, ht⟩ := mem_spellAll.1 ht
  rw [List.mem_singleton.1 he] at ht
  exact stands_outerElement houter t ht

end GameScript
