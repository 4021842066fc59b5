import GameScript.Proofs.Reader.Defines

/-!
# Constants whose values are lists

A dotted name is assigned a word or, on its line, a list of words. Cleaning leaves the separators in
lists and no other ones (`clean_defines`), so a list is parsed as a block (`parse_defines`). But
every block at the top level of a Lua file is taken for a table of tables, and leaves in it make
nothing. So each word makes its constant, in order, and no list does (`readDefines_defines`).
-/

namespace GameScript

open Text Lua Element Balance

/-! ## Values on one line -/

/-- A value that does not go beyond its line. -/
inductive LineValue where
  | word (w : Text) (isName : IsName w)
  | list (ws : List Text) (areNames : ∀ w ∈ ws, IsName w)

def listBody (ws : List Text) : Text := ' ' :: join [',', ' '] ws ++ [' ']

namespace LineValue

def text : LineValue → Text
  | word w _ => w
  | list ws _ => '{' :: listBody ws ++ ['}']

def isWord : LineValue → Bool
  | word .. => true
  | list .. => false

end LineValue

/-- The assignment of a value to a key of a group in an outer one. -/
structure Define where
  outer : Text
  group : Text
  key : Text
  value : LineValue
  isName_outer : IsName outer
  isName_group : IsName group
  isName_key : IsName key

namespace Define

def name (d : Define) : Text := d.outer ++ '.' :: d.group ++ '.' :: d.key

def text (d : Define) : Text := assignLine d.name d.value.text

end Define

def WritesDefines (ds : List Define) (lines : List Text) : Prop :=
  List.Forall₂ Ends (ds.map (·.text)) lines

/-! ## What cleaning leaves -/

variable {ws : List Text} {r w : Text} {c : Char} {ds : List Define}

theorem not_mem_listBody (h : ∀ w ∈ ws, IsName w) (hword : isWordChar c = false)
    (hc : c ∉ [',', ' ']) : c ∉ listBody ws := by
  have hjoin : c ∉ join [',', ' '] ws :=
    not_mem_join hc fun w hw => not_mem_of_all (h w hw).isWordChar hword
  simp only [List.mem_cons, not_or] at hc
  simp [listBody, hjoin, hc.2.1]

theorem exists_join (hw : IsName w) (ws : List Text) (r : Text) :
    ∃ x xs, join [',', ' '] (w :: ws) ++ r = x :: xs ∧ isBlankChar x = false ∧ x ≠ '}' := by
  obtain ⟨x, xs, rfl⟩ := List.exists_cons_of_ne_nil hw.ne_nil
  have hx := hw.isWordChar x List.mem_cons_self
  have hjoin : join [',', ' '] ((x :: xs) :: ws) = x :: join [',', ' '] (xs :: ws) :=
    join_append (w := [x])
  refine ⟨x, join [',', ' '] (xs :: ws) ++ r, by rw [hjoin, List.cons_append],
    not_blank_of_isWordChar hx, ?_⟩
  rintro rfl
  exact absurd hx (by decide)

/-- No separator in a list stands before its closing brace. -/
theorem dropBeforeClose_join (h : ∀ w ∈ ws, IsName w) :
    dropBeforeClose (join [',', ' '] ws ++ r) = join [',', ' '] ws ++ dropBeforeClose r := by
  induction ws with
  | nil => rfl
  | cons w ws ih =>
    rw [List.forall_mem_cons] at h
    have hw : ∀ c ∈ w, isSeparator c = false :=
      not_separator_of_all h.1.isWordChar (by decide) (by decide)
    cases ws with
    | nil => exact dropBeforeClose_append hw
    | cons w' ws =>
      obtain ⟨x, xs, hx, hb, hclose⟩ := exists_join (h.2 w' List.mem_cons_self) ws r
      have hnext : (trimStart (' ' :: x :: xs)).head? ≠ some '}' := by
        rw [trimStart_cons_blank (by decide), trimStart_cons hb]
        simpa using hclose
      have hblank : dropBeforeClose (' ' :: x :: xs) = ' ' :: dropBeforeClose (x :: xs) :=
        dropBeforeClose_mark (by decide)
      rw [join_cons (List.cons_ne_nil _ _), List.append_assoc, List.append_assoc,
        dropBeforeClose_append hw, hx]
      have hrest := ih h.2
      rw [hx] at hrest
      show w ++ dropBeforeClose (',' :: ' ' :: x :: xs) = _
      rw [dropBeforeClose_cons hnext, hblank, hrest]
      simp

theorem LineValue.dropBeforeClose_text (v : LineValue) :
    dropBeforeClose (v.text ++ r) = v.text ++ dropBeforeClose r := by
  cases v with
  | word w hw =>
    exact dropBeforeClose_append (not_separator_of_all hw.isWordChar (by decide) (by decide))
  | list ws hws =>
    have hopen (t : Text) :
        dropBeforeClose ('{' :: ' ' :: t) = '{' :: ' ' :: dropBeforeClose t := by
      rw [dropBeforeClose_mark (by decide), dropBeforeClose_mark (by decide)]
    have hclose : dropBeforeClose (' ' :: '}' :: r) = ' ' :: '}' :: dropBeforeClose r := by
      rw [dropBeforeClose_mark (by decide), dropBeforeClose_mark (by decide)]
    have hjoin := dropBeforeClose_join (r := ' ' :: '}' :: r) hws
    simp [text, listBody, hopen, hclose, hjoin]

theorem LineValue.dropLoose_text (v : LineValue) :
    dropLoose false (v.text ++ r) = v.text ++ dropLoose false r := by
  cases v with
  | word w hw =>
    exact dropLoose_append (not_separator_of_all hw.isWordChar (by decide) (by decide))
      (not_mem_of_all hw.isWordChar (by decide))
  | list ws hws =>
    have hopen (t : Text) : dropLoose false ('{' :: t) = '{' :: dropLoose false t :=
      dropLoose_mark (by decide) (by decide)
    have hbody := dropLoose_list (r := r) (not_mem_listBody hws (c := '"') (by decide) (by decide))
      (not_mem_listBody hws (by decide) (by decide)) (not_mem_listBody hws (by decide) (by decide))
    simp [text, hopen, hbody]

theorem LineValue.not_mem_text {v : LineValue} (hword : isWordChar c = false)
    (hc : c ∉ [',', ' ', '{', '}']) : c ∉ v.text := by
  cases v with
  | word w hw => exact not_mem_of_all hw.isWordChar hword
  | list ws hws =>
    simp only [List.mem_cons, List.not_mem_nil, or_false, not_or] at hc
    have hbody : c ∉ listBody ws := not_mem_listBody hws hword (by simp [hc.1, hc.2.1])
    simp [text, hbody, hc.2.2.1, hc.2.2.2]

theorem LineValue.last_text (v : LineValue) :
    ∃ cs c, v.text = cs ++ [c] ∧ isBlankChar c = false := by
  cases v with
  | word w hw => exact hw.isAmount.bounded.last
  | list ws hws => exact ⟨_, '}', rfl, by decide⟩

theorem LineValue.dropAfterClose_text (v : LineValue) (hw : '}' ∉ w) :
    dropAfterClose false (w ++ v.text) = w ++ v.text := by
  cases v with
  | word u hu =>
    have hclose : '}' ∉ w ++ u := by simp [hw, not_mem_of_all hu.isWordChar (c := '}') (by decide)]
    exact dropAfterClose_of_not_mem hclose
  | list ws hws =>
    have hbody : '}' ∉ listBody ws := not_mem_listBody hws (by decide) (by decide)
    have hclose : '}' ∉ w ++ '{' :: listBody ws := by simp [hw, hbody]
    have hlist := dropAfterClose_concat hclose
    rwa [List.append_assoc] at hlist

theorem LineValue.closes_text (v : LineValue) (hr : closesNext r = false) :
    closesNext (v.text ++ r) = false := by
  cases v with
  | word w hw =>
    rw [text, closesNext_append (not_mem_of_all hw.isWordChar (by decide))
      (not_mem_of_all hw.isWordChar (by decide)), hr]
  | list ws hws => rfl

namespace Define

variable (d : Define)

def front : Text := d.name ++ [' ', '=', ' ']

theorem text_eq : d.text = d.front ++ d.value.text := rfl

theorem isAmount_name : IsAmount d.name :=
  d.isName_outer.isAmount_dotted d.isName_group d.isName_key

theorem not_mem_front (hword : isWordChar c = false) (hc : c ∉ ['.', ' ', '=']) : c ∉ d.front := by
  have houter : c ∉ d.outer := not_mem_of_all d.isName_outer.isWordChar hword
  have hgroup : c ∉ d.group := not_mem_of_all d.isName_group.isWordChar hword
  have hkey : c ∉ d.key := not_mem_of_all d.isName_key.isWordChar hword
  simp only [List.mem_cons, List.not_mem_nil, or_false, not_or] at hc
  simp [front, name, houter, hgroup, hkey, hc.1, hc.2.1, hc.2.2]

theorem not_separator_of_mem_front : ∀ c ∈ d.front, isSeparator c = false :=
  not_separator_of_not_mem (d.not_mem_front (by decide) (by decide))
    (d.not_mem_front (by decide) (by decide))

theorem exists_text : ∃ c cs, d.text = c :: cs ∧ isWordChar c = true := by
  obtain ⟨c, cs, houter⟩ := List.exists_cons_of_ne_nil d.isName_outer.ne_nil
  refine ⟨c, cs ++ ('.' :: d.group ++ '.' :: d.key ++ [' ', '=', ' '] ++ d.value.text), ?_,
    d.isName_outer.isWordChar c (houter ▸ List.mem_cons_self)⟩
  simp [text_eq, front, name, houter]

theorem isPlainLine : IsPlainLine d.text := by
  have hnone {c : Char} (hword : isWordChar c = false)
      (hc : c ∉ ['.', ' ', '=', ',', '{', '}']) : c ∉ d.text := by
    simp only [List.mem_cons, List.not_mem_nil, or_false, not_or] at hc
    rw [text_eq, List.mem_append, not_or]
    exact ⟨d.not_mem_front hword (by simp [hc]), LineValue.not_mem_text hword (by simp [hc])⟩
  obtain ⟨c, cs, hc, hword⟩ := d.exists_text
  obtain ⟨ds, x, hx, hb⟩ := d.value.last_text
  exact {
    bounded := ⟨⟨c, cs, hc, not_blank_of_isWordChar hword⟩, d.front ++ ds, x,
      by rw [text_eq, hx, List.append_assoc], hb⟩
    quote := hnone (by decide) (by decide)
    tab := hnone (by decide) (by decide)
    feed := hnone (by decide) (by decide)
    undashed := isUndashed_of_not_mem (hnone (by decide) (by decide)) }

theorem isKept : IsKept d.text where
  toIsPlainLine := d.isPlainLine
  mark := by
    obtain ⟨c, cs, hc, hword⟩ := d.exists_text
    refine ⟨c, cs, hc, not_blank_of_isWordChar hword, Bool.eq_false_iff.2 fun hs => ?_⟩
    rcases separator_cases hs with rfl | rfl <;> exact absurd hword (by decide)
  beforeClose r := by
    rw [text_eq, List.append_assoc, dropBeforeClose_append d.not_separator_of_mem_front,
      d.value.dropBeforeClose_text, List.append_assoc]
  loose r := by
    rw [text_eq, List.append_assoc, dropLoose_append d.not_separator_of_mem_front
      (d.not_mem_front (by decide) (by decide)), d.value.dropLoose_text, List.append_assoc]
  afterClose := d.value.dropAfterClose_text (d.not_mem_front (by decide) (by decide))
  closes r hr := by
    rw [text_eq, List.append_assoc, closesNext_append (d.not_mem_front (by decide) (by decide))
      (d.not_mem_front (by decide) (by decide))]
    exact d.value.closes_text hr

end Define

/-- **Defines are left as they are**, without the separators at the ends of lines. -/
theorem clean_defines {f : SourceFile} (hfile : isLua f.path = true)
    (h : WritesDefines ds f.lines) : Lua.clean {} f = ds.map (·.text) := by
  have hnested : isNested f.lines = false := by
    unfold WritesDefines at h
    generalize f.lines = ls at h
    cases ds with
    | nil =>
      cases h
      rfl
    | cons d ds =>
      cases h with
      | cons hends _ => exact isNested_assignLine d.isAmount_name (by simp [Define.name]) hends
  refine clean_kept hfile hnested (fun l hl => ?_) h
  obtain ⟨d, -, rfl⟩ := List.mem_map.1 hl
  exact d.isKept

/-! ## What is parsed -/

def listWords : List Text → List Text
  | [] => []
  | [w] => [w]
  | w :: ws => (w ++ [',']) :: listWords ws

def listLeaves (ws : List Text) : List Element := (listWords ws).map fun w => .leaf w none none

def LineValue.element (name : Text) : LineValue → Element
  | word w _ => assigned name w
  | list ws _ => .block name (some ['=']) (listLeaves ws)

def Define.element (d : Define) : Element := d.value.element d.name

theorem of_mem_listWords (h : ∀ w ∈ ws, IsName w) : ∀ u ∈ listWords ws, u ≠ [] ∧
    (∀ c ∈ u, isWordChar c = true ∨ c ∈ ['.', '-', ',']) ∧ '-' ∉ u := by
  have hname {w : Text} (hw : IsName w) : w ≠ [] ∧
      (∀ c ∈ w, isWordChar c = true ∨ c ∈ ['.', '-', ',']) ∧ '-' ∉ w :=
    ⟨hw.ne_nil, fun c hc => .inl (hw.isWordChar c hc), hw.undashed⟩
  fun_induction listWords ws with
  | case1 => exact List.forall_mem_nil _
  | case2 w => exact List.forall_mem_singleton.2 (hname (h w List.mem_cons_self))
  | case3 w ws _ ih =>
    rw [List.forall_mem_cons] at h
    obtain ⟨-, hchars, hdash⟩ := hname h.1
    refine List.forall_mem_cons.2 ⟨⟨by simp, ?_, by simp [hdash]⟩, ih h.2⟩
    exact List.forall_mem_append.2 ⟨hchars, by simp⟩

theorem spellAll_listLeaves : spellAll (listLeaves ws) = (listWords ws).map .word := by
  rw [spellAll_eq, listLeaves, List.map_map]
  induction listWords ws with
  | nil => rfl
  | cons w ws ih => rw [List.map_cons, List.flatten_cons, ih]; rfl

theorem laysOut_join {ks : List TokenKind} {t : Text} (ws : List Text)
    (h : LaysOut MayTouch ks (' ' :: t)) :
    LaysOut MayTouch ((listWords ws).map .word ++ ks) (join [',', ' '] ws ++ ' ' :: t) := by
  fun_induction listWords ws with
  | case1 => exact h
  | case2 w => exact LaysOut.apart (.word w) (startsSpaced_cons rfl) h
  | case3 w ws hne ih =>
    have hws : ws ≠ [] := by
      rintro rfl
      exact hne rfl
    have hword := LaysOut.apart (.word (w ++ [','])) (startsSpaced_cons rfl)
      (ih.space (c := ' ') rfl)
    rw [join_cons hws]
    simpa [TokenKind.lexeme] using hword

section

variable {name : Text} (v : LineValue)

theorem spell_list {hws : ∀ w ∈ ws, IsName w} (hname : name ≠ []) :
    spell ((LineValue.list ws hws).element name) =
      openKinds name ++ ((listWords ws).map .word ++ [.closeBrace]) := by
  rw [LineValue.element, spell_block_of_not_mem hname, spellAll_listLeaves]
  intro kw cs hmem
  obtain ⟨w, -, hw⟩ := List.mem_map.1 hmem
  cases hw

theorem LineValue.lineSpells (hname : name ≠ []) :
    LineSpells (spell (v.element name)) (assignLine name v.text) := by
  cases v with
  | word w hw => exact lineSpells_assignLine name
  | list ws hws =>
    intro js t ht h
    have hclose : LaysOut MayTouch (.closeBrace :: js) (' ' :: '}' :: t) :=
      (LaysOut.apart .closeBrace ht h).space rfl
    have hbody := LaysOut.apart .openBrace (startsSpaced_cons rfl)
      ((laysOut_join ws hclose).space (c := ' ') rfl)
    have hhead := LaysOut.head name (some ['=']) hbody
    rw [spell_list hname]
    simpa [Layout.headText, assignLine, text, listBody, openKinds, TokenKind.lexeme] using hhead

theorem LineValue.stands (hname : IsAmount name) :
    ∀ t ∈ spell (v.element name), Stands ['-', '-'] t := by
  cases v with
  | word w hw => exact stands_assigned hname hw.isAmount
  | list ws hws =>
    intro t ht
    rw [spell_list hname.ne_nil, List.mem_append, List.mem_append, List.mem_singleton] at ht
    rcases ht with ht | ht | rfl
    · exact stands_openKinds hname t ht
    · obtain ⟨w, hw, rfl⟩ := List.mem_map.1 ht
      obtain ⟨hne, hchars, hdash⟩ := of_mem_listWords hws w hw
      exact stands_of_parts hne hchars (isUndashed_of_not_mem hdash)
    · exact ⟨[], cutsOff_closeBrace (by decide)⟩

theorem LineValue.shaped (hname : name ≠ []) :
    Shaped (v.element name) ∧ (v.element name).isAnonymous = false := by
  cases v with
  | word w hw => exact ⟨hname, rfl⟩
  | list ws hws =>
    refine ⟨⟨fun h => absurd h hname, allShaped_of_named fun e he => ?_⟩, ?_⟩
    · obtain ⟨w, hw, rfl⟩ := List.mem_map.1 he
      exact ⟨(of_mem_listWords hws w hw).1, rfl⟩
    · simp [LineValue.element, isAnonymous, Element.key, hname]

theorem LineValue.depth_le : depth (v.element name) ≤ 1 := by
  cases v with
  | word w hw => exact Nat.zero_le 1
  | list ws hws =>
    refine Nat.succ_le_succ (depthAll_le.2 fun e he => ?_)
    obtain ⟨w, -, rfl⟩ := List.mem_map.1 he
    exact Nat.le_refl 0

theorem LineValue.operator_element : (v.element name).operator = some ['='] := by
  cases v <;> rfl

end

theorem parse_defines (ds : List Define) :
    parse .tolerant ['-', '-'] (unlines (ds.map (·.text))) = .ok (ds.map (·.element)) := by
  have hmem {e : Element} (he : e ∈ ds.map (·.element)) :
      ∃ (v : LineValue) (name : Text), IsAmount name ∧ e = v.element name := by
    obtain ⟨d, -, rfl⟩ := List.mem_map.1 he
    exact ⟨d.value, d.name, d.isAmount_name, rfl⟩
  have hlays : LaysOut MayTouch (spellAll (ds.map (·.element))) (unlines (ds.map (·.text))) := by
    rw [spellAll_eq, List.map_map]
    refine laysOut_unlines ?_
    rw [List.forall₂_map_left_iff, List.forall₂_map_right_iff, List.forall₂_same]
    exact fun d _ => d.value.lineSpells d.isAmount_name.ne_nil
  refine parse_of_stands plainMarker_dashes (allShaped_of_named fun e he => ?_)
    (bracesAll_le.2 fun e he => ?_) (fun t ht => ?_) hlays
  · obtain ⟨v, name, hname, rfl⟩ := hmem he
    exact v.shaped hname.ne_nil
  · obtain ⟨v, name, -, rfl⟩ := hmem he
    exact ((braces_le_depth _).trans v.depth_le).trans (by decide)
  · obtain ⟨e, he, ht⟩ := mem_spellAll.1 ht
    obtain ⟨v, name, hname, rfl⟩ := hmem he
    exact v.stands hname t ht

/-! ## What is read -/

theorem Define.scanLine_text (d : Define) (number : Nat) (opened : List Place) :
    scanLine ['-', '-'] number 1 false opened d.text = .ok opened := by
  have hundashed : IsUndashed d.text := d.isPlainLine.undashed
  rw [d.text_eq] at hundashed ⊢
  rw [scanLine_append hundashed (d.not_mem_front (by decide) (by decide))
    (d.not_mem_front (by decide) (by decide)) (d.not_mem_front (by decide) (by decide))]
  have hvalue : IsUndashed d.value.text := (List.isChain_append.1 hundashed).2.1
  generalize 1 + d.front.length = column
  cases hv : d.value with
  | word w hw =>
    rw [hv] at hvalue
    exact scanLine_of_not_mem hvalue (not_mem_of_all hw.isWordChar (by decide))
      (not_mem_of_all hw.isWordChar (by decide)) (not_mem_of_all hw.isWordChar (by decide))
  | list ws hws =>
    rw [hv] at hvalue
    have hopen : scanLine ['-', '-'] number column false opened
        ('{' :: listBody ws ++ ['}']) =
          scanLine ['-', '-'] number (column + 1) false ((number, column) :: opened)
            (listBody ws ++ ['}']) := rfl
    rw [LineValue.text, hopen, scanLine_append hvalue.tail
      (not_mem_listBody hws (by decide) (by decide)) (not_mem_listBody hws (by decide) (by decide))
      (not_mem_listBody hws (by decide) (by decide))]
    rfl

namespace SourceFile

/-- What the constant of a define is compared by; a list has none. -/
def comparedDefine (f : SourceFile) (d : Define) : Option Compared :=
  match d.value with
  | .word .. => some (f.comparedConstant (d.outer ++ '.' :: d.group) d.key d.text)
  | .list .. => none

variable {f : SourceFile}

theorem compared_constants_define (d : Define) :
    (f.constants true d.element).map (·.compared) = (f.comparedDefine d).toList := by
  obtain ⟨outer, group, key, v, houter, hgroup, hkey⟩ := d
  cases v with
  | word w hw => exact compared_assigned ⟨key, w, hkey, hw.isAmount⟩ houter hgroup
  | list ws hws =>
    -- the list is taken for a table, and none of its words is one of the tables in it
    have hleaves : (listLeaves ws).filter (!·.isLeaf) = [] := by
      refine List.filter_eq_nil_iff.2 fun e he => ?_
      obtain ⟨w, -, rfl⟩ := List.mem_map.1 he
      exact Bool.false_ne_true
    show ((((listLeaves ws).filter (!·.isLeaf)).flatMap _).map _ : List Compared) = []
    rw [hleaves]
    rfl

theorem isSome_comparedDefine (d : Define) :
    (f.comparedDefine d).isSome = true ↔ d.value.isWord = true := by
  obtain ⟨outer, group, key, v, houter, hgroup, hkey⟩ := d
  cases v <;> exact Iff.rfl

theorem compared_readDefines_defines (hfile : isLua f.path = true) (hfull : f.checking = .full)
    (h : WritesDefines ds f.lines)
    (hlength : ∀ d ∈ ds, d.text.length ≤ ({} : ScriptSettings).maxLineLength) :
    (f.readDefines {}).map (·.compared) = ds.filterMap f.comparedDefine := by
  by_cases hne : f.lines = []
  · have hnil : ds = [] := by
      rw [WritesDefines, hne] at h
      exact List.map_eq_nil_iff.1 (List.forall₂_nil_right_iff.1 h)
    rw [readDefines_of_nil hfile hfull hne, hnil]
    rfl
  have hplain : ∀ l ∈ ds.map (·.text), IsPlainLine l := by
    intro l hl
    obtain ⟨d, -, rfl⟩ := List.mem_map.1 hl
    exact d.isPlainLine
  have hbalanced : IsBalanced (ds.map (·.text)) := by
    refine isBalanced_of_lines fun l hl => ?_
    obtain ⟨d, -, rfl⟩ := List.mem_map.1 hl
    exact d.scanLine_text
  have hoperator : ∀ e ∈ ds.map (·.element), e.operator ≠ none := by
    intro e he
    obtain ⟨d, -, rfl⟩ := List.mem_map.1 he
    rw [Define.element, LineValue.operator_element]
    exact Option.some_ne_none _
  rw [compared_readDefines hfile hfull hne (clean_defines hfile h) (by simpa using hlength) hplain
    hbalanced (parse_defines ds) hoperator, List.flatMap_map, List.map_flatMap,
    List.filterMap_eq_flatMap_toList]
  exact congrArg List.flatten (List.map_congr_left fun d _ => compared_constants_define d)

end SourceFile

/-- **Constants are made of words alone.** A Lua file of lines that each assign a word or a list of
words to a dotted name, with a separator at the end or not, makes one constant for each word, in the
order of the lines, with the last name for its id and the others for its group; none is made for a
list. So there is one for each line exactly when there is no list. When a line is too long, an
invalid definition is all that is made. -/
theorem readDefines_defines {f : SourceFile} (hfile : isLua f.path = true)
    (hfull : f.checking = .full) (h : WritesDefines ds f.lines) :
    ((∀ d ∈ ds, d.text.length ≤ ({} : ScriptSettings).maxLineLength) →
      (f.readDefines {}).map (·.compared) = ds.filterMap f.comparedDefine ∧
      ((f.readDefines {}).length = ds.length ↔ ∀ d ∈ ds, d.value.isWord = true)) ∧
    ((∃ d ∈ ds, ({} : ScriptSettings).maxLineLength < d.text.length) →
      ∃ number, ∃ d ∈ ds, ({} : ScriptSettings).maxLineLength < d.text.length ∧ f.readDefines {} =
        [({ f with lines := ds.map (·.text), checking := .simple } : SourceFile).invalidDefinition
          (.lineTooLong number d.text.length ({} : ScriptSettings).maxLineLength)]) := by
  constructor
  · intro hlength
    have hread := f.compared_readDefines_defines hfile hfull h hlength
    refine ⟨hread, ?_⟩
    have hcount : (f.readDefines {}).length = (ds.filterMap f.comparedDefine).length := by
      rw [← hread, List.length_map]
    rw [hcount, List.filterMap_length_eq_length]
    exact forall₂_congr fun d _ => f.isSome_comparedDefine d
  · intro hlong
    have hne : f.lines ≠ [] := by
      intro hnil
      obtain ⟨d, hd, -⟩ := hlong
      rw [WritesDefines, hnil, List.forall₂_nil_right_iff, List.map_eq_nil_iff] at h
      rw [h] at hd
      cases hd
    obtain ⟨number, l, hl, hlength, hread⟩ := f.readDefines_tooLong hfile hfull hne
      (clean_defines hfile h) (by simpa using hlong)
    obtain ⟨d, hd, rfl⟩ := List.mem_map.1 hl
    exact ⟨number, d, hd, hlength, hread⟩

def interfaceDefines : List Define :=
  [⟨"NGame", "NInterface", "SPEED", .word "fast_2" (by decide), by decide, by decide, by decide⟩,
    ⟨"NGame", "NInterface", "COLOR", .list ["10", "20", "x"] (by decide), by decide, by decide,
      by decide⟩]

def interfaceFile : SourceFile :=
  { path := "common/defines/00_interface.lua"
    lines := ["NGame.NInterface.SPEED = fast_2,", "NGame.NInterface.COLOR = \x7b 10, 20, x \x7d;"] }

theorem writesDefines_interfaceFile : WritesDefines interfaceDefines interfaceFile.lines :=
  .cons (.inr ⟨',', rfl, rfl⟩) (.cons (.inr ⟨';', rfl, rfl⟩) .nil)

theorem readDefines_interfaceFile :
    WritesDefines interfaceDefines interfaceFile.lines ∧
      (interfaceFile.readDefines {}).map (·.compared) =
        [interfaceFile.comparedConstant "NGame.NInterface" "SPEED"
          "NGame.NInterface.SPEED = fast_2"] :=
  ⟨writesDefines_interfaceFile,
    ((readDefines_defines (by decide) rfl writesDefines_interfaceFile).1 (by decide)).1⟩

/-- So not every line makes a constant. -/
theorem readDefines_loses_lists : ¬ ∀ (ds : List Define) (f : SourceFile), isLua f.path = true →
    f.checking = .full → WritesDefines ds f.lines →
    (∀ d ∈ ds, d.text.length ≤ ({} : ScriptSettings).maxLineLength) →
      (f.readDefines {}).length = ds.length := by
  intro hall
  have hone : (interfaceFile.readDefines {}).length = 1 := by decide +kernel
  have htwo := hall interfaceDefines interfaceFile (by decide) rfl
    writesDefines_interfaceFile (by decide)
  rw [hone] at htwo
  cases htwo

end GameScript
