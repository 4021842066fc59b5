import GameScript.Proofs.Extract.Checking
import GameScript.Proofs.Extract.Completeness
import GameScript.Proofs.Reader.Assignments
import GameScript.Proofs.Reader.Stamps

/-!
# Constants are read the same however they are written

The cleaned lines of constants are balanced (`IsBalanced`), so they pass the simple check, and
`compared_readDefines` makes definitions of what they are parsed as. A dotted assignment
(`compared_assigned`) and an assignment in a table (`compared_outerElement`) are compared by the
same type, id and code. So a file of constants makes the same definitions in either notation
(`readDefines_of_either_writing`).
-/

namespace GameScript

open Text Lua Element Balance

variable {outer name v : Text} {gs : List ConstantGroup} {ls ls' : List Text} {number : Nat}
  {opened : List Place}

/-! ## Braces -/

def IsBalanced (ls : List Text) : Prop :=
  ∀ (number : Nat) (opened : List Place) (rest : List Text),
    scanLines ['-', '-'] number opened (ls ++ rest) =
      scanLines ['-', '-'] (number + ls.length) opened rest

theorem isBalanced_nil : IsBalanced [] := fun _ _ _ => rfl

theorem IsBalanced.append (h : IsBalanced ls) (h' : IsBalanced ls') : IsBalanced (ls ++ ls') := by
  intro number opened rest
  rw [List.append_assoc, h, h', List.length_append, Nat.add_assoc]

theorem isBalanced_of_lines (h : ∀ l ∈ ls, ∀ (number : Nat) (opened : List Place),
    scanLine ['-', '-'] number 1 false opened l = .ok opened) : IsBalanced ls := by
  induction ls with
  | nil => exact isBalanced_nil
  | cons l ls ih =>
    rw [List.forall_mem_cons] at h
    intro number opened rest
    rw [List.cons_append, scanLines, h.1]
    dsimp only
    rw [ih h.2, List.length_cons, Nat.add_assoc, Nat.add_comm 1]

theorem isBalanced_assignments (h : ∀ l ∈ ls, IsBody l ∧ '{' ∉ l ∧ '}' ∉ l) : IsBalanced ls := by
  refine isBalanced_of_lines fun l hl number opened => ?_
  obtain ⟨hbody, hopen, hclose⟩ := h l hl
  exact scanLine_of_not_mem hbody.undashed hbody.quote hopen hclose

theorem scanLine_openLine (h : IsName name) :
    scanLine ['-', '-'] number 1 false opened (openLine name) =
      .ok ((number, name.length + 4) :: opened) := by
  have hline : openLine name = (name ++ [' ', '=', ' ']) ++ ['{'] := by simp [openLine]
  have hundashed : IsUndashed ((name ++ [' ', '=', ' ']) ++ ['{']) :=
    hline ▸ (isBody_openLine h).undashed
  have hnone {c : Char} (hword : isWordChar c = false) (hc : c ∉ [' ', '=', ' ']) :
      c ∉ name ++ [' ', '=', ' '] := by
    rw [List.mem_append, not_or]
    exact ⟨not_mem_of_all h.isWordChar hword, hc⟩
  rw [hline, scanLine_append hundashed (hnone (by decide) (by decide))
    (hnone (by decide) (by decide)) (hnone (by decide) (by decide)), List.length_append,
    Nat.add_comm]
  rfl

theorem IsBalanced.table (h : IsBalanced ls) (hname : IsName name) :
    IsBalanced (openLine name :: ls ++ [['}']]) := by
  intro number opened rest
  have hclose (number : Nat) (place : Place) :
      scanLine ['-', '-'] number 1 false (place :: opened) ['}'] = .ok opened := rfl
  rw [List.append_assoc, List.cons_append, scanLines, scanLine_openLine hname]
  dsimp only
  rw [h, List.singleton_append, scanLines, hclose]
  dsimp only
  congr 1
  simp only [List.length_append, List.length_cons, List.length_nil]
  omega

theorem isBalanced_dottedLines (houter : IsName outer) : IsBalanced (dottedLines outer gs) := by
  refine isBalanced_assignments fun l hl => ⟨isBody_of_mem_dottedLines houter l hl, ?_⟩
  obtain ⟨g, -, hl⟩ := List.mem_flatMap.1 hl
  obtain ⟨c, -, rfl⟩ := List.mem_map.1 hl
  have hall := c.isAssignmentChar_dotted houter g.isName
  exact ⟨not_mem_of_all hall (by decide), not_mem_of_all hall (by decide)⟩

theorem isBalanced_outerLines (houter : IsName outer) : IsBalanced (outerLines outer gs) := by
  refine IsBalanced.table ?_ houter
  unfold tableLines
  induction gs with
  | nil => exact isBalanced_nil
  | cons g gs ih =>
    rw [List.flatMap_cons]
    refine (IsBalanced.table (isBalanced_assignments fun l hl => ?_) g.isName).append ih
    obtain ⟨c, -, rfl⟩ := List.mem_map.1 hl
    exact ⟨c.isBody_assignment, c.not_mem_brace⟩

theorem checkBraces_of_isBalanced (h : IsBalanced ls) (hls : ∀ l ∈ ls, IsPlainLine l) :
    checkBraces ['-', '-'] (unlines ls) = .ok () := by
  have hscan := h 1 [] []
  rw [List.append_nil] at hscan
  rw [checkBraces, lines_unlines fun l hl => (hls l hl).isTidyLine, hscan]
  rfl

/-! ## What definitions are compared by -/

structure Compared where
  id : Text
  type : Text
  typeAndId : Text
  kind : Kind
  code : Text
  hash : Text
  deriving DecidableEq

def Definition.compared (d : Definition) : Compared where
  id := d.id
  type := d.type
  typeAndId := d.typeAndId
  kind := d.kind
  code := d.code
  hash := d.hash

namespace SourceFile

def comparedConstant (f : SourceFile) (group key code : Text) : Compared :=
  let type := Path.typeLabel f.path (some (group ++ "-txt"))
  { id := key, type := type, typeAndId := type ++ '-' :: key, kind := .specialVariable
    code := code, hash := digest (Definition.fingerprint code) }

def comparedConstants (f : SourceFile) (outer : Text) (gs : List ConstantGroup) : List Compared :=
  gs.flatMap fun g => g.constants.map fun c =>
    f.comparedConstant (outer ++ '.' :: g.name) c.key (c.dotted outer g.name)

variable {f : SourceFile}

theorem compared_constant {group id code : Text} :
    ((f.constant group id).setCode code).compared =
      f.comparedConstant group (trim id) (Definition.tidyCode code) := by
  rw [constant, Definition.addTag_eq]
  rfl

theorem compared_addGenericTags (d : Definition) (es : List Element) :
    (d.addGenericTags es).compared = d.compared := by
  rw [Definition.addGenericTags, Definition.addTags_eq]
  rfl

theorem compared_finished {d : Definition} {simple : Bool} (h : d.type ≠ []) :
    (d.finished simple).compared = d.compared := by
  rw [Definition.finished, if_neg h]
  rfl

theorem compared_finishDefinitions {ds : List Definition} {simple : Bool}
    (h : ∀ d ∈ ds, d.type ≠ []) :
    (finishDefinitions simple ds).map (·.compared) = ds.map (·.compared) := by
  have hunnumbered : (finishDefinitions simple ds).map (·.compared) =
      ((finishDefinitions simple ds).map (·.unnumbered)).map (·.compared) := by
    rw [List.map_map]
    rfl
  rw [hunnumbered, unnumbered_finishDefinitions, List.map_map]
  exact List.map_congr_left fun d hd => compared_finished (h d hd)

/-! ## Constants -/

theorem typeLabel_ne_nil {path suffix : Text} (h : isBlank suffix = false) :
    Path.typeLabel path (some suffix) ≠ [] := by
  rw [Path.typeLabel, Option.filter_some, h, Bool.not_false, if_pos rfl, Option.getD_some]
  split
  · rintro rfl
    cases h
  · simp

/-- Whatever a constant is made of, it has a type. -/
theorem type_of_mem_constants {lua : Bool} {e : Element} {d : Definition}
    (hd : d ∈ f.constants lua e) : d.type ≠ [] := by
  have hconstant (group id : Text) : (f.constant group id).type ≠ [] := by
    rw [constant, Definition.addTag_eq]
    exact typeLabel_ne_nil (List.all_eq_false.2 ⟨'t', by simp, by decide⟩)
  have htagged (d : Definition) (es : List Element) : (d.addGenericTags es).type = d.type :=
    congrArg Compared.type (compared_addGenericTags d es)
  unfold constants at hd
  split at hd
  · obtain ⟨⟨group, id⟩, -, rfl⟩ := Option.map_eq_some_iff.1 (Option.mem_toList.1 hd)
    dsimp only [Definition.setCode]
    exact hconstant group id
  split at hd
  · obtain ⟨table, -, htable⟩ := List.mem_flatMap.1 hd
    obtain ⟨item, -, rfl⟩ := List.mem_map.1 htable
    rw [htagged]
    dsimp only [Definition.setCode, itemConstant]
    exact hconstant _ _
  · obtain ⟨item, -, rfl⟩ := List.mem_map.1 hd
    rw [htagged]
    dsimp only [Definition.setCode, itemConstant]
    exact hconstant _ _

theorem format_assigned {skip : Bool} {k : Text} (hv : IsAmount v) :
    Layout.format { skipVariables := skip } (assigned k v) = assignLine k v := by
  have hblank : isBlank v = false := by
    obtain ⟨c, cs, rfl, hc⟩ := hv.bounded.head
    exact List.all_eq_false.2 ⟨c, List.mem_cons_self, by rw [hc]; decide⟩
  have hbody : Layout.body skip 4 0 (assigned k v) = assignLine k v := by
    rw [assigned, Layout.body, leafText_of_not_blank (by decide) hblank]
    simp [assignLine]
  exact hbody

theorem compared_named (c : Constant) {group : Text} (houter : IsName outer)
    (hgroup : IsName group) :
    ((f.constant (outer ++ '.' :: group) c.key).setCode (c.dotted outer group)).compared =
      f.comparedConstant (outer ++ '.' :: group) c.key (c.dotted outer group) := by
  have htidy : Definition.tidyCode (c.dotted outer group) = c.dotted outer group :=
    (c.isBody_dotted houter hgroup).isTidyLine.isTidy.tidyCode_eq
  rw [compared_constant, htidy, c.isName.isAmount.bounded.trim_eq]

theorem compared_assigned (c : Constant) {group : Text} (houter : IsName outer)
    (hgroup : IsName group) :
    (f.constants true (assigned (c.dottedName outer group) c.value)).map (·.compared) =
      [f.comparedConstant (outer ++ '.' :: group) c.key (c.dotted outer group)] := by
  have hkey : '.' ∉ c.key := not_mem_of_all c.isName.isWordChar (by decide)
  have hsplit : splitLast '.' (assigned (c.dottedName outer group) c.value).key =
      some (outer ++ '.' :: group, c.key) := splitLast_append hkey
  have hcode : (assigned (c.dottedName outer group) c.value).format = c.dotted outer group :=
    format_assigned c.isAmount
  rw [← compared_named c houter hgroup, constants, dottedConstant, hsplit, hcode]
  rfl

theorem compared_outerElement (houter : IsName outer) :
    (f.constants true (outerElement outer gs)).map (·.compared) = f.comparedConstants outer gs := by
  have htables : (outerElement outer gs).children.filter (!·.isLeaf) =
      gs.map ConstantGroup.element := by
    refine List.filter_eq_self.2 fun e he => ?_
    obtain ⟨g, -, rfl⟩ := List.mem_map.1 he
    rfl
  have hlua : f.constants true (outerElement outer gs) = f.tableConstants (outerElement outer gs) :=
    rfl
  have hcode (g : ConstantGroup) (c : Constant) : (outer ++ '.' :: g.name) ++ '.' ::
      Layout.format { skipVariables := true } (assigned c.key c.value) = c.dotted outer g.name := by
    rw [format_assigned c.isAmount]
    simp [Constant.dotted, Constant.dottedName, assignLine]
  have hkeys (g : ConstantGroup) : (outerElement outer gs).key ++ '.' :: g.element.key =
      outer ++ '.' :: g.name := rfl
  have hchildren (g : ConstantGroup) :
      g.element.children = g.constants.map fun c => assigned c.key c.value := rfl
  have hitem (g : ConstantGroup) (c : Constant) :
      f.itemConstant (outer ++ '.' :: g.name) (assigned c.key c.value) =
        { f.constant (outer ++ '.' :: g.name) c.key with shownId := some (trim c.key) } := rfl
  rw [hlua, tableConstants, htables, List.flatMap_map, List.map_flatMap]
  refine congrArg List.flatten (List.map_congr_left fun g _ => ?_)
  rw [List.map_map, hchildren, List.map_map]
  refine List.map_congr_left fun c _ => ?_
  dsimp only [Function.comp_apply]
  rw [compared_addGenericTags, hkeys, hitem, hcode, ← compared_named c houter g.isName]
  generalize f.constant (outer ++ '.' :: g.name) c.key = d
  rfl

/-! ## Reading -/

/-- The cleaned lines of a Lua file are checked simply, and what they are parsed as makes the
constants. -/
theorem compared_readDefines {es : List Element} (hfile : isLua f.path = true)
    (hfull : f.checking = .full) (hne : f.lines ≠ []) (hclean : Lua.clean {} f = ls)
    (hlength : ∀ l ∈ ls, l.length ≤ ({} : ScriptSettings).maxLineLength)
    (hplain : ∀ l ∈ ls, IsPlainLine l) (hbalanced : IsBalanced ls)
    (hparse : parse .tolerant ['-', '-'] (unlines ls) = .ok es)
    (hoperator : ∀ e ∈ es, e.operator ≠ none) :
    (f.readDefines {}).map (·.compared) = (es.flatMap (f.constants true)).map (·.compared) := by
  have hread : ({} : ScriptSettings).read ls f.path true = ⟨.ok es, true⟩ := by
    have hbraces := checkBraces_of_isBalanced hbalanced hplain
    rw [← marker_of_isLua hfile] at hbraces hparse
    exact read_of_checks hlength hbraces hparse
  have helements : ({ f with lines := ls, checking := .simple } : SourceFile).elements {} =
      .ok ⟨es, true⟩ := by
    rw [elements, parsed]
    dsimp only
    rw [hread]
    rfl
  have hbare : es.any (fun e => e.isLeaf && e.operator.isNone) = false := by
    refine List.any_eq_false.2 fun e he => ?_
    simp [hoperator e he]
  have hlua : (isLua f.path && decide (f.lines ≠ [])) = true := by simp [hfile, hne]
  have hdefinitions :
      f.readDefines {} = finishDefinitions true (es.flatMap (f.constants true)) := by
    unfold readDefines
    dsimp only
    rw [hlua, if_pos rfl, if_pos hfull, hclean, helements]
    dsimp only
    rw [hbare, if_neg Bool.false_ne_true]
    rfl
  rw [hdefinitions, compared_finishDefinitions]
  intro d hd
  obtain ⟨e, -, he⟩ := List.mem_flatMap.1 hd
  exact type_of_mem_constants he

/-- With a line that is too long, no constants are made. -/
theorem readDefines_tooLong (hfile : isLua f.path = true) (hfull : f.checking = .full)
    (hne : f.lines ≠ []) (hclean : Lua.clean {} f = ls)
    (hlong : ∃ l ∈ ls, ({} : ScriptSettings).maxLineLength < l.length) :
    ∃ number, ∃ l ∈ ls, ({} : ScriptSettings).maxLineLength < l.length ∧ f.readDefines {} =
      [({ f with lines := ls, checking := .simple } : SourceFile).invalidDefinition
        (.lineTooLong number l.length ({} : ScriptSettings).maxLineLength)] := by
  obtain ⟨number, l, hl, hlength, herror⟩ := checkLength_error 1 hlong
  have hread : (({} : ScriptSettings).read ls f.path true).outcome =
      .error (.lineTooLong number l.length ({} : ScriptSettings).maxLineLength) := by
    rw [ScriptSettings.read, checkLineLength, herror]
  have helements : ({ f with lines := ls, checking := .simple } : SourceFile).elements {} =
      .error ⟨.lineTooLong number l.length ({} : ScriptSettings).maxLineLength, some f.origin⟩ := by
    rw [elements, parsed]
    dsimp only
    rw [hread]
    rfl
  have hlua : (isLua f.path && decide (f.lines ≠ [])) = true := by simp [hfile, hne]
  refine ⟨number, l, hl, hlength, ?_⟩
  unfold readDefines
  dsimp only
  rw [hlua, if_pos rfl, if_pos hfull, hclean, helements]

theorem readDefines_of_nil (hfile : isLua f.path = true) (hfull : f.checking = .full)
    (hnil : f.lines = []) : f.readDefines {} = [] := by
  have hcheck : checkStructure ['-', '-'] (unlines []) = .ok () := by
    rw [unlines, join, checkStructure, tokens, Lexer.tokensFrom_nil]
    rfl
  have hparse : parse .strict ['-', '-'] (unlines []) = .ok [] :=
    parse_of_stands plainMarker_dashes trivial (Nat.zero_le _) (by simp [spellAll])
      (.nil (by simp [unlines, join]))
  have hread : ({} : ScriptSettings).read [] f.path false = ⟨.ok [], false⟩ := by
    rw [← marker_of_isLua hfile] at hcheck hparse
    exact read_of_checks (by simp) hcheck hparse
  have hfirst : ({} : ScriptSettings).choosesSimple [] = false := rfl
  have helements : f.elements {} = .ok ⟨[], false⟩ := by
    rw [elements, parsed, hfull, hnil, hfirst]
    dsimp only
    rw [hread]
    rfl
  have hlua : (isLua f.path && decide (f.lines ≠ [])) = false := by simp [hnil]
  unfold readDefines
  dsimp only
  rw [hlua, if_neg Bool.false_ne_true, helements]
  rfl

/-! ## Two ways to write constants -/

theorem compared_dottedElements (houter : IsName outer) :
    ((dottedElements outer gs).flatMap (f.constants true)).map (·.compared) =
      f.comparedConstants outer gs := by
  rw [List.map_flatMap, dottedElements, List.flatMap_assoc, comparedConstants]
  refine congrArg List.flatten (List.map_congr_left fun g _ => ?_)
  rw [List.flatMap_map, List.map_eq_flatMap]
  exact congrArg List.flatten
    (List.map_congr_left fun c _ => compared_assigned c houter g.isName)

theorem compared_readDefines_dotted (hfile : isLua f.path = true) (hfull : f.checking = .full)
    (houter : IsName outer) (h : WritesDotted outer gs f.lines)
    (hlength : ∀ line ∈ dottedLines outer gs, line.length ≤ ({} : ScriptSettings).maxLineLength) :
    (f.readDefines {}).map (·.compared) = f.comparedConstants outer gs := by
  by_cases hne : f.lines = []
  -- without constants there are no lines, and nothing is cleaned
  · have hlines : dottedLines outer gs = [] := by
      rw [WritesDotted, hne] at h
      exact List.forall₂_nil_right_iff.1 h
    have hnone : ∀ g ∈ gs, g.constants = [] := fun g hg =>
      List.map_eq_nil_iff.1 (List.flatMap_eq_nil_iff.1 hlines g hg)
    rw [readDefines_of_nil hfile hfull hne, comparedConstants, List.map_nil, eq_comm,
      List.flatMap_eq_nil_iff]
    exact fun g hg => List.map_eq_nil_iff.2 (hnone g hg)
  have hoperator : ∀ e ∈ dottedElements outer gs, e.operator ≠ none := by
    intro e he
    obtain ⟨g, -, he⟩ := List.mem_flatMap.1 he
    obtain ⟨c, -, rfl⟩ := List.mem_map.1 he
    exact Option.some_ne_none _
  rw [compared_readDefines hfile hfull hne (clean_dotted hfile houter h) hlength
    (fun l hl => (isBody_of_mem_dottedLines houter l hl).toIsPlainLine)
    (isBalanced_dottedLines houter) (parse_dotted houter) hoperator, compared_dottedElements houter]

theorem compared_readDefines_nested (hfile : isLua f.path = true) (hfull : f.checking = .full)
    (houter : IsName outer) (h : WritesNested outer gs f.lines)
    (hlength : ∀ line ∈ outerLines outer gs, line.length ≤ ({} : ScriptSettings).maxLineLength) :
    (f.readDefines {}).map (·.compared) = f.comparedConstants outer gs := by
  have hne : f.lines ≠ [] := by
    obtain ⟨table, trailing, ⟨tables, -, rfl⟩, -, hlines⟩ := h
    simp [hlines]
  have hoperator : ∀ e ∈ [outerElement outer gs], e.operator ≠ none := by
    intro e he
    rw [List.mem_singleton.1 he]
    exact Option.some_ne_none _
  rw [compared_readDefines hfile hfull hne (clean_nested hfile houter h) hlength
    (fun l hl => (isBody_of_mem_outerLines houter l hl).toIsPlainLine)
    (isBalanced_outerLines houter) (parse_nested houter) hoperator, List.flatMap_singleton,
    compared_outerElement houter]

end SourceFile

/-- **Notation does not matter.** In two Lua files at one path, constants that are assigned to
dotted names in the one and stand in nested tables in the other, with separators or without, make
definitions that are equal in all that they are compared by: one for each constant, in order. -/
theorem readDefines_of_either_writing {f f' : SourceFile} (hfile : isLua f.path = true)
    (hpath : f'.path = f.path) (hfull : f.checking = .full) (hfull' : f'.checking = .full)
    (houter : IsName outer) (hdotted : WritesDotted outer gs f.lines)
    (hnested : WritesNested outer gs f'.lines)
    (hlength : ∀ line ∈ dottedLines outer gs ++ outerLines outer gs,
      line.length ≤ ({} : ScriptSettings).maxLineLength) :
    (f.readDefines {}).map (·.compared) = (f'.readDefines {}).map (·.compared) ∧
      (f.readDefines {}).map (·.compared) = f.comparedConstants outer gs := by
  rw [List.forall_mem_append] at hlength
  have hleft : (f.readDefines {}).map (·.compared) = f.comparedConstants outer gs :=
    f.compared_readDefines_dotted hfile hfull houter hdotted hlength.1
  have hright : (f'.readDefines {}).map (·.compared) = f'.comparedConstants outer gs :=
    f'.compared_readDefines_nested (hpath ▸ hfile) hfull' houter hnested hlength.2
  have hsame : f'.comparedConstants outer gs = f.comparedConstants outer gs := by
    unfold SourceFile.comparedConstants SourceFile.comparedConstant
    rw [hpath]
  exact ⟨hleft.trans (hright.trans hsame).symm, hleft⟩

def gameConstants : List ConstantGroup :=
  [⟨"NDiplomacy", [⟨"MAX_TRUST", "100", by decide, by decide⟩,
      ⟨"DECAY", "-0.25", by decide, by decide⟩], by decide⟩,
    ⟨"NGraphics", [], by decide⟩,
    ⟨"NShip", [⟨"MAX_TRUST", "base_3", by decide, by decide⟩], by decide⟩]

def dottedDefines : SourceFile :=
  { path := "common/defines/00_defines.lua"
    lines := ["NGame.NDiplomacy.MAX_TRUST = 100,", "NGame.NDiplomacy.DECAY = -0.25",
      "NGame.NShip.MAX_TRUST = base_3;"] }

def nestedDefines : SourceFile :=
  { path := "common/defines/00_defines.lua"
    lines := ["NGame = \x7b", "NDiplomacy = \x7b", "MAX_TRUST = 100", "DECAY = -0.25,", "\x7d,",
      "NGraphics = \x7b", "\x7d", "NShip = \x7b", "MAX_TRUST = base_3;", "\x7d;", "\x7d",
      "-- the end, = \x7b"] }

theorem writesDotted_gameConstants : WritesDotted "NGame" gameConstants dottedDefines.lines :=
  .cons (.inr ⟨',', rfl, rfl⟩) (.cons (.inl rfl) (.cons (.inr ⟨';', rfl, rfl⟩) .nil))

theorem writesNested_gameConstants : WritesNested "NGame" gameConstants nestedDefines.lines :=
  ⟨_, ["-- the end, = \x7b"],
    ⟨_, .cons (.cons (.inl rfl) (.cons (.inr ⟨',', rfl, rfl⟩) .nil)) (.inr ⟨',', rfl, rfl⟩)
      (.cons .nil (.inl rfl)
        (.cons (.cons (.inr ⟨';', rfl, rfl⟩) .nil) (.inr ⟨';', rfl, rfl⟩) .nil)), rfl⟩,
    by decide, rfl⟩

theorem readDefines_gameConstants :
    WritesDotted "NGame" gameConstants dottedDefines.lines ∧
      WritesNested "NGame" gameConstants nestedDefines.lines ∧
      (dottedDefines.readDefines {}).map (·.compared) =
        (nestedDefines.readDefines {}).map (·.compared) ∧
      (dottedDefines.readDefines {}).map (·.compared) =
        dottedDefines.comparedConstants "NGame" gameConstants :=
  ⟨writesDotted_gameConstants, writesNested_gameConstants,
    readDefines_of_either_writing (by decide) rfl rfl rfl (by decide) writesDotted_gameConstants
      writesNested_gameConstants (by decide)⟩

end GameScript
