import GameScript.Proofs.Reader.Lua
import GameScript.Proofs.Text.WordChar

/-!
# Two ways to write constants

Constants in groups are assigned to dotted names, line by line (`WritesDotted`), or stand in tables
that are nested in an outer one (`WritesNested`). The lines of constants and of closing braces may
end in a separator. Cleaning leaves both without any (`clean_dotted`, `clean_nested`).
-/

namespace GameScript

open Text Lexer Lua

/-! ## Constants in groups -/

/-- A name is made of letters, digits and underscores. -/
structure IsName (t : Text) : Prop where
  ne_nil : t ≠ []
  isWordChar : ∀ c ∈ t, isWordChar c = true

/-- A value may also have dots, and minus signs that stand apart. -/
structure IsAmount (t : Text) : Prop where
  ne_nil : t ≠ []
  chars : ∀ c ∈ t, isWordChar c = true ∨ c = '.' ∨ c = '-'
  undashed : IsUndashed t

instance : DecidablePred IsName := fun t =>
  decidable_of_iff (t ≠ [] ∧ t.all Text.isWordChar = true)
    ⟨fun h => ⟨h.1, List.all_eq_true.1 h.2⟩, fun h => ⟨h.ne_nil, List.all_eq_true.2 h.isWordChar⟩⟩

instance : DecidablePred IsAmount := fun t =>
  decidable_of_iff
    (t ≠ [] ∧ t.all (fun c => Text.isWordChar c || c == '.' || c == '-') = true ∧ IsUndashed t)
    ⟨fun h => ⟨h.1, by simpa [or_assoc] using h.2.1, h.2.2⟩,
      fun h => ⟨h.ne_nil, by simpa [or_assoc] using h.chars, h.undashed⟩⟩

structure Constant where
  key : Text
  value : Text
  isName : IsName key
  isAmount : IsAmount value

structure ConstantGroup where
  name : Text
  constants : List Constant
  isName : IsName name

def assignLine (name value : Text) : Text := name ++ [' ', '=', ' '] ++ value

namespace Constant

def assignment (c : Constant) : Text := assignLine c.key c.value

def dottedName (outer group : Text) (c : Constant) : Text := outer ++ '.' :: group ++ '.' :: c.key

def dotted (outer group : Text) (c : Constant) : Text :=
  assignLine (c.dottedName outer group) c.value

end Constant

def openLine (name : Text) : Text := name ++ [' ', '=', ' ', '{']

/-! ## Writings -/

def dottedLines (outer : Text) (gs : List ConstantGroup) : List Text :=
  gs.flatMap fun g => g.constants.map (·.dotted outer g.name)

def tableLines (gs : List ConstantGroup) : List Text :=
  gs.flatMap fun g => openLine g.name :: g.constants.map (·.assignment) ++ [['}']]

def outerLines (outer : Text) (gs : List ConstantGroup) : List Text :=
  openLine outer :: tableLines gs ++ [['}']]

/-- Each constant assigned to its dotted name, each line ended or not. -/
def WritesDotted (outer : Text) (gs : List ConstantGroup) (lines : List Text) : Prop :=
  List.Forall₂ Ends (dottedLines outer gs) lines

/-- Tables of the constants, the lines of constants and the closing ones ended or not. -/
inductive WritesTables : List ConstantGroup → List Text → Prop where
  | nil : WritesTables [] []
  | cons {g : ConstantGroup} {gs : List ConstantGroup} {entries rest : List Text} {close : Text} :
      List.Forall₂ Ends (g.constants.map (·.assignment)) entries → Ends ['}'] close →
      WritesTables gs rest → WritesTables (g :: gs) (openLine g.name :: entries ++ close :: rest)

def WritesOuter (outer : Text) (gs : List ConstantGroup) (lines : List Text) : Prop :=
  ∃ tables, WritesTables gs tables ∧ lines = openLine outer :: tables ++ [['}']]

/-- The outer table, and anything below that closes nothing. -/
def WritesNested (outer : Text) (gs : List ConstantGroup) (lines : List Text) : Prop :=
  ∃ table trailing, WritesOuter outer gs table ∧ (∀ line ∈ trailing, '}' ∉ line) ∧
    lines = table ++ trailing

/-! ## Lines -/

def isAssignmentChar (c : Char) : Bool :=
  isWordChar c || c == '.' || c == '-' || c == ' ' || c == '='

variable {outer group name t v w : Text} {gs : List ConstantGroup} {ls : List Text}

theorem not_separator_of_not_mem (hcomma : ',' ∉ t) (hsemicolon : ';' ∉ t) :
    ∀ c ∈ t, isSeparator c = false := by
  intro c hc
  refine Bool.eq_false_iff.2 fun hs => ?_
  rcases separator_cases hs with rfl | rfl
  · exact hcomma hc
  · exact hsemicolon hc

theorem not_separator_of_all {p : Char → Bool} (h : ∀ c ∈ t, p c = true) (hcomma : p ',' = false)
    (hsemicolon : p ';' = false) : ∀ c ∈ t, isSeparator c = false :=
  not_separator_of_not_mem (not_mem_of_all h hcomma) (not_mem_of_all h hsemicolon)

theorem IsAmount.isAssignmentChar (h : IsAmount t) : ∀ c ∈ t, isAssignmentChar c = true := by
  intro c hc
  rcases h.chars c hc with hword | rfl | rfl
  · simp [GameScript.isAssignmentChar, hword]
  · rfl
  · rfl

theorem IsAmount.bounded (h : IsAmount t) : Bounded t := by
  refine bounded_of_marks h.ne_nil fun c hc => ?_
  rcases h.chars c hc with hword | rfl | rfl
  · exact not_blank_of_isWordChar hword
  · decide
  · decide

theorem IsName.undashed (h : IsName t) : '-' ∉ t := not_mem_of_all h.isWordChar (by decide)

theorem IsName.isAmount (h : IsName t) : IsAmount t where
  ne_nil := h.ne_nil
  chars c hc := .inl (h.isWordChar c hc)
  undashed := isUndashed_of_not_mem h.undashed

theorem isBody_of_chars (h : ∀ c ∈ t, (isAssignmentChar c || c == '{') = true) (hb : Bounded t)
    (hu : IsUndashed t) : IsBody t where
  bounded := hb
  quote := not_mem_of_all h (by decide)
  tab := not_mem_of_all h (by decide)
  feed := not_mem_of_all h (by decide)
  undashed := hu
  none := not_separator_of_all h (by decide) (by decide)

theorem isAssignmentChar_assignLine (hname : IsAmount name) (hv : IsAmount v) :
    ∀ c ∈ assignLine name v, isAssignmentChar c = true := by
  rw [assignLine, List.forall_mem_append, List.forall_mem_append]
  exact ⟨⟨hname.isAssignmentChar, List.all_eq_true.1 (by decide)⟩, hv.isAssignmentChar⟩

theorem isBody_assignLine (hname : IsAmount name) (hdash : '-' ∉ name) (hv : IsAmount v) :
    IsBody (assignLine name v) := by
  refine isBody_of_chars (fun c hc => ?_) ?_ (isUndashed_append ?_ hv.undashed)
  · rw [isAssignmentChar_assignLine hname hv c hc, Bool.true_or]
  · obtain ⟨c, cs, hc, hb⟩ := hname.bounded.head
    obtain ⟨ds, d, hd, hb'⟩ := hv.bounded.last
    exact ⟨⟨c, cs ++ ([' ', '=', ' '] ++ v), by rw [assignLine, hc]; simp, hb⟩,
      name ++ [' ', '=', ' '] ++ ds, d, by rw [assignLine, hd]; simp, hb'⟩
  · simp [hdash]

theorem IsName.undashed_dotted (houter : IsName outer) (hgroup : IsName group)
    (hname : IsName name) : '-' ∉ outer ++ '.' :: group ++ '.' :: name := by
  simp [houter.undashed, hgroup.undashed, hname.undashed]

/-- Names with dots between them are an amount. -/
theorem IsName.isAmount_dotted (houter : IsName outer) (hgroup : IsName group)
    (hname : IsName name) : IsAmount (outer ++ '.' :: group ++ '.' :: name) where
  ne_nil := by simp
  chars := by
    rw [List.forall_mem_append, List.forall_mem_append, List.forall_mem_cons, List.forall_mem_cons]
    exact ⟨⟨houter.isAmount.chars, .inr (.inl rfl), hgroup.isAmount.chars⟩, .inr (.inl rfl),
      hname.isAmount.chars⟩
  undashed := isUndashed_of_not_mem (houter.undashed_dotted hgroup hname)

namespace Constant

variable (c : Constant)

theorem isBody_assignment : IsBody c.assignment :=
  isBody_assignLine c.isName.isAmount c.isName.undashed c.isAmount

theorem isAmount_dottedName (houter : IsName outer) (hgroup : IsName group) :
    IsAmount (c.dottedName outer group) :=
  houter.isAmount_dotted hgroup c.isName

theorem isAssignmentChar_dotted (houter : IsName outer) (hgroup : IsName group) :
    ∀ x ∈ c.dotted outer group, isAssignmentChar x = true :=
  isAssignmentChar_assignLine (c.isAmount_dottedName houter hgroup) c.isAmount

theorem isBody_dotted (houter : IsName outer) (hgroup : IsName group) :
    IsBody (c.dotted outer group) :=
  isBody_assignLine (c.isAmount_dottedName houter hgroup) (houter.undashed_dotted hgroup c.isName)
    c.isAmount

end Constant

theorem isBody_openLine (h : IsName name) : IsBody (openLine name) := by
  refine isBody_of_chars (fun c hc => ?_) ?_ ?_
  · simp only [openLine, List.mem_append, List.mem_cons, List.not_mem_nil, or_false] at hc
    rcases hc with hc | rfl | rfl | rfl | rfl
    · rw [h.isAmount.isAssignmentChar c hc, Bool.true_or]
    · rfl
    · rfl
    · rfl
    · rfl
  · obtain ⟨c, cs, rfl, hb⟩ := h.isAmount.bounded.head
    exact ⟨⟨c, _, rfl, hb⟩, c :: cs ++ [' ', '=', ' '], '{', by simp [openLine], by decide⟩
  · exact isUndashed_append h.undashed (by decide)

theorem isBody_close : IsBody ['}'] where
  bounded := ⟨⟨'}', [], rfl, by decide⟩, [], '}', rfl, by decide⟩
  quote := by decide
  tab := by decide
  feed := by decide
  undashed := by decide
  none := List.forall_mem_singleton.2 (by decide)

/-! ## What cleaning makes of dotted assignments -/

theorem isBody_of_mem_dottedLines (houter : IsName outer) :
    ∀ l ∈ dottedLines outer gs, IsBody l := by
  intro l hl
  obtain ⟨g, -, hl⟩ := List.mem_flatMap.1 hl
  obtain ⟨c, -, rfl⟩ := List.mem_map.1 hl
  exact c.isBody_dotted houter g.isName

theorem exists_of_forall₂ {α β : Type} {R : α → β → Prop} {as : List α} {bs : List β} {b : β}
    (h : List.Forall₂ R as bs) (hb : b ∈ bs) : ∃ a ∈ as, R a b := by
  induction h with
  | nil => cases hb
  | cons hhead _ ih =>
    rcases List.mem_cons.1 hb with rfl | hb
    · exact ⟨_, List.mem_cons_self, hhead⟩
    · obtain ⟨a, ha, hr⟩ := ih hb
      exact ⟨a, List.mem_cons_of_mem _ ha, hr⟩

theorem isEnded_of_forall₂ {bodies : List Text} (hbodies : ∀ l ∈ bodies, IsBody l)
    (h : List.Forall₂ Ends bodies ls) : ∀ l ∈ ls, IsEnded l := by
  intro l hl
  obtain ⟨body, hbody, hends⟩ := exists_of_forall₂ h hl
  exact ⟨body, hbodies body hbody, hends⟩

theorem clean_kept {f : SourceFile} {bodies : List Text} (hfile : isLua f.path = true)
    (hnested : isNested f.lines = false) (hkept : ∀ l ∈ bodies, IsKept l)
    (h : List.Forall₂ Ends bodies f.lines) : Lua.clean {} f = bodies := by
  have hplain : ∀ l ∈ f.lines, IsPlainLine l := by
    intro l hl
    obtain ⟨body, hbody, hends⟩ := exists_of_forall₂ h hl
    exact (hkept body hbody).toIsPlainLine.ended hends
  rw [Lua.clean, hnested, if_neg (by decide), if_neg (by decide), cleanLines_eq hfile hplain,
    dropAll_kept hkept h, lines_unlines fun l hl => (hkept l hl).isTidyLine]

theorem not_mem_of_ends {x : Char} (hx : x ∉ v) (hsep : isSeparator x = false) (h : Ends v w) :
    x ∉ w := by
  obtain rfl | ⟨c, hc, rfl⟩ := h
  · exact hx
  · rw [List.mem_append, List.mem_singleton, not_or]
    refine ⟨hx, ?_⟩
    rintro rfl
    exact Bool.false_ne_true (hsep.symm.trans hc)

/-- A file that first assigns to a dotted name nests no tables. -/
theorem isNested_assignLine {line : Text} (hname : IsAmount name) (hdot : '.' ∈ name)
    (hends : Ends (assignLine name v) line) : isNested (line :: ls) = false := by
  have hequals : '=' ∉ name ++ [' '] := by
    have hnone : '=' ∉ name := fun hmem => by
      rcases hname.chars _ hmem with h | h | h
      · exact absurd h (by decide)
      · exact absurd h (by decide)
      · exact absurd h (by decide)
    simp [hnone]
  obtain ⟨r, hr⟩ : ∃ r, line = (name ++ [' ']) ++ '=' :: r := by
    obtain rfl | ⟨x, -, rfl⟩ := hends
    · exact ⟨' ' :: v, by simp [assignLine]⟩
    · exact ⟨' ' :: v ++ [x], by simp [assignLine]⟩
  rw [hr, isNested_cons (by simp) hequals]
  simp [hdot]

theorem isNested_dotted (houter : IsName outer) (h : WritesDotted outer gs ls) :
    isNested ls = false := by
  unfold WritesDotted at h
  cases hlines : dottedLines outer gs with
  | nil =>
    rw [hlines] at h
    cases h
    rfl
  | cons body bodies =>
    have hbody : body ∈ dottedLines outer gs := by simp [hlines]
    obtain ⟨g, -, hg⟩ := List.mem_flatMap.1 hbody
    obtain ⟨c, -, rfl⟩ := List.mem_map.1 hg
    rw [hlines] at h
    cases h with
    | cons hends _ =>
      have hdot : '.' ∈ c.dottedName outer g.name := by simp [Constant.dottedName]
      exact isNested_assignLine (c.isAmount_dottedName houter g.isName) hdot hends

/-- Dotted assignments are left without the separators. -/
theorem clean_dotted {f : SourceFile} (hfile : isLua f.path = true) (houter : IsName outer)
    (h : WritesDotted outer gs f.lines) : Lua.clean {} f = dottedLines outer gs := by
  refine clean_kept hfile (isNested_dotted houter h) (fun l hl => ?_) h
  obtain ⟨g, -, hg⟩ := List.mem_flatMap.1 hl
  obtain ⟨c, -, rfl⟩ := List.mem_map.1 hg
  have hplain := c.isAssignmentChar_dotted houter g.isName
  exact (c.isBody_dotted houter g.isName).isKept (not_mem_of_all hplain (by decide))
    (not_mem_of_all hplain (by decide))

/-! ## What cleaning makes of tables -/

theorem isBody_of_mem_assignments {cs : List Constant} : ∀ l ∈ cs.map (·.assignment), IsBody l := by
  intro l hl
  obtain ⟨c, -, rfl⟩ := List.mem_map.1 hl
  exact c.isBody_assignment

theorem isBody_of_mem_tableLines : ∀ l ∈ tableLines gs, IsBody l := by
  intro l hl
  obtain ⟨g, -, hl⟩ := List.mem_flatMap.1 hl
  simp only [List.cons_append, List.mem_cons, List.mem_append, List.not_mem_nil, or_false] at hl
  rcases hl with rfl | hl | rfl
  · exact isBody_openLine g.isName
  · exact isBody_of_mem_assignments l hl
  · exact isBody_close

theorem WritesTables.ends (h : WritesTables gs ls) : List.Forall₂ Ends (tableLines gs) ls := by
  unfold tableLines
  induction h with
  | nil => exact .nil
  | @cons g gs entries rest close hentries hclose _ ih =>
    rw [List.flatMap_cons, ← List.singleton_append (x := close), ← List.append_assoc]
    exact List.rel_append (List.rel_append (.cons (.inl rfl) hentries) (.cons hclose .nil)) ih

theorem forall₂_append {α β : Type} {R : α → β → Prop} {as : List α} {bs bs' : List β}
    (h : List.Forall₂ R as (bs ++ bs')) :
    ∃ as₁ as₂, as = as₁ ++ as₂ ∧ List.Forall₂ R as₁ bs ∧ List.Forall₂ R as₂ bs' :=
  ⟨_, _, (List.take_append_drop bs.length as).symm, List.forall₂_take_append _ _ _ h,
    List.forall₂_drop_append _ _ _ h⟩

theorem forall₂_ends_thins {bodies ls' : List Text} (hbodies : ∀ l ∈ bodies, IsBody l)
    (h : List.Forall₂ Ends bodies ls) (hls : List.Forall₂ Thins ls' ls) :
    List.Forall₂ Ends bodies ls' := by
  induction h generalizing ls' with
  | nil =>
    cases hls
    exact .nil
  | cons hends _ ih =>
    rw [List.forall_mem_cons] at hbodies
    cases hls with
    | cons hhead hrest => exact .cons (hends.thins hbodies.1.none hhead) (ih hbodies.2 hrest)

/-- Whatever separators are dropped, tables remain. -/
theorem WritesTables.thins {ls' : List Text} (h : WritesTables gs ls)
    (hls : List.Forall₂ Thins ls' ls) : WritesTables gs ls' := by
  induction h generalizing ls' with
  | nil =>
    cases hls
    exact .nil
  | @cons g gs entries rest close hentries hclose _ ih =>
    rw [List.cons_append] at hls
    cases hls with
    | @cons openLine' _ below _ hopen hbelow =>
      obtain ⟨entries', below', rfl, hentries', hbelow'⟩ := forall₂_append hbelow
      cases hbelow' with
      | cons hhead htail =>
        rw [hopen.eq_of_none (isBody_openLine g.isName).none]
        exact .cons (forall₂_ends_thins isBody_of_mem_assignments hentries hentries')
          (hclose.thins isBody_close.none hhead) (ih htail)

theorem isBody_of_mem_outerLines (houter : IsName outer) :
    ∀ l ∈ outerLines outer gs, IsBody l := by
  simp only [outerLines, List.cons_append, List.forall_mem_cons, List.forall_mem_append]
  exact ⟨isBody_openLine houter, isBody_of_mem_tableLines, isBody_close, List.forall_mem_nil _⟩

theorem WritesOuter.ends (h : WritesOuter outer gs ls) :
    List.Forall₂ Ends (outerLines outer gs) ls := by
  obtain ⟨tables, htables, rfl⟩ := h
  exact List.rel_append (.cons (.inl rfl) htables.ends) (.cons (.inl rfl) .nil)

theorem WritesOuter.isEnded (houter : IsName outer) (h : WritesOuter outer gs ls) :
    ∀ l ∈ ls, IsEnded l :=
  isEnded_of_forall₂ (isBody_of_mem_outerLines houter) h.ends

theorem WritesOuter.thins {ls' : List Text} (houter : IsName outer) (h : WritesOuter outer gs ls)
    (hls : List.Forall₂ Thins ls' ls) : WritesOuter outer gs ls' := by
  obtain ⟨tables, htables, rfl⟩ := h
  obtain ⟨above, closing, rfl, habove, hclosing⟩ := forall₂_append hls
  cases habove with
  | cons hopen htables' =>
    cases hclosing with
    | cons hclose hnil =>
      cases hnil
      rw [hopen.eq_of_none (isBody_openLine houter).none, hclose.eq_of_none isBody_close.none]
      exact ⟨_, htables.thins htables', rfl⟩

/-- At two open braces, lines without braces lose their separators. -/
theorem dropEntryEnds_entries {bodies rest : List Text} (closed : Nat)
    (hbodies : ∀ l ∈ bodies, IsBody l ∧ '{' ∉ l ∧ '}' ∉ l) (h : List.Forall₂ Ends bodies ls) :
    dropEntryEnds (closed + 2) closed (ls.map (dropAfterClose false) ++ rest) =
      bodies ++ dropEntryEnds (closed + 2) closed rest := by
  induction h with
  | nil => rfl
  | @cons body line _ _ hends _ ih =>
    rw [List.forall_mem_cons] at hbodies
    obtain ⟨hbody, hopen, hclose⟩ := hbodies.1
    have hopen' : line.count '{' = 0 :=
      List.count_eq_zero.2 (not_mem_of_ends hopen (by decide) hends)
    have hclose' : '}' ∉ line := not_mem_of_ends hclose (by decide) hends
    rw [List.map_cons, List.cons_append, dropAfterClose_of_not_mem hclose', dropEntryEnds]
    simp only [hopen', List.count_eq_zero.2 hclose', Nat.add_zero, if_true]
    rw [hends.dropLineEnd_eq hbody.none, ih hbodies.2, List.cons_append]

theorem Constant.not_mem_brace (c : Constant) : '{' ∉ c.assignment ∧ '}' ∉ c.assignment :=
  have hall := isAssignmentChar_assignLine c.isName.isAmount c.isAmount
  ⟨not_mem_of_all hall (by decide), not_mem_of_all hall (by decide)⟩

theorem not_mem_openLine (h : IsName name) :
    '}' ∉ openLine name ∧ (openLine name).count '{' = 1 := by
  have hopen : '{' ∉ name := not_mem_of_all h.isWordChar (by decide)
  have hclose : '}' ∉ name := not_mem_of_all h.isWordChar (by decide)
  constructor
  · simp [openLine, hclose]
  · rw [openLine, List.count_append, List.count_eq_zero.2 hopen]
    rfl

theorem dropAfterClose_close {close : Text} (h : Ends ['}'] close) :
    dropAfterClose false close = ['}'] := by
  obtain rfl | ⟨c, hc, rfl⟩ := h
  · rfl
  · rcases separator_cases hc with rfl | rfl <;> rfl

theorem dropEntryEnds_openLine {opened closed : Nat} {rest : List Text} (h : IsName name) :
    dropEntryEnds opened closed (openLine name :: rest) =
      openLine name :: dropEntryEnds (opened + 1) closed rest := by
  obtain ⟨hname, hcount⟩ := not_mem_openLine h
  have hkept : dropLineEnd (openLine name) = openLine name :=
    Ends.dropLineEnd_eq (isBody_openLine h).none (.inl rfl)
  rw [dropEntryEnds, hcount, List.count_eq_zero.2 hname, hkept, ite_self]
  rfl

theorem dropEntryEnds_close {opened closed : Nat} {rest : List Text} :
    dropEntryEnds opened closed (['}'] :: rest) =
      ['}'] :: dropEntryEnds opened (closed + 1) rest := by
  have hkept : dropLineEnd ['}'] = ['}'] := rfl
  rw [dropEntryEnds, hkept, ite_self]
  rfl

/-- Below the line of the outer table, tables are left without separators. -/
theorem dropEntryEnds_tables {rest : List Text} (h : WritesTables gs ls) (closed : Nat) :
    dropEntryEnds (closed + 1) closed (ls.map (dropAfterClose false) ++ rest) =
      tableLines gs ++ dropEntryEnds (closed + gs.length + 1) (closed + gs.length) rest := by
  induction h generalizing closed with
  | nil => rfl
  | @cons g gs entries below close hentries hclose _ ih =>
    have hbodies : ∀ l ∈ g.constants.map (·.assignment), IsBody l ∧ '{' ∉ l ∧ '}' ∉ l := by
      intro l hl
      obtain ⟨c, -, rfl⟩ := List.mem_map.1 hl
      exact ⟨c.isBody_assignment, c.not_mem_brace⟩
    -- two braces are open behind the first line, and one behind the last
    rw [List.cons_append, List.map_cons, List.map_append, List.map_cons, List.cons_append,
      List.append_assoc, List.cons_append, dropAfterClose_of_not_mem (not_mem_openLine g.isName).1,
      dropAfterClose_close hclose, dropEntryEnds_openLine g.isName,
      dropEntryEnds_entries closed hbodies hentries, dropEntryEnds_close, ih (closed + 1),
      tableLines, tableLines, List.flatMap_cons, List.length_cons,
      show closed + 1 + gs.length = closed + (gs.length + 1) by omega]
    simp only [List.cons_append, List.append_assoc, List.nil_append]

theorem dropEntryEnds_outer (houter : IsName outer) (h : WritesOuter outer gs ls) :
    dropEntryEnds 0 0 (ls.map (dropAfterClose false)) = outerLines outer gs := by
  obtain ⟨tables, htables, rfl⟩ := h
  rw [List.cons_append, List.map_cons, List.map_append, List.map_singleton,
    dropAfterClose_of_not_mem (not_mem_openLine houter).1, dropAfterClose_close (.inl rfl),
    dropEntryEnds_openLine houter, dropEntryEnds_tables htables 0, dropEntryEnds_close, outerLines,
    List.cons_append]
  rfl

/-- The passes over the lines of an outer table drop every separator. -/
theorem dropAll_outer (houter : IsName outer) (h : WritesOuter outer gs ls) :
    dropEntryEnds 0 0
        (lines (dropAfterClose false (dropLoose false (dropBeforeClose (unlines ls))))) =
      outerLines outer gs := by
  -- the lines that the first two passes leave
  have hthins : Thins (dropLoose false (dropBeforeClose (unlines ls))) (unlines ls) :=
    (thins_dropLoose _ _).trans (thins_dropBeforeClose _)
  have hsplit : splitOn '\n' (unlines ls) = ls := by
    refine splitOn_join ?_ fun l hl => (h.isEnded houter l hl).isPlainLine.feed
    obtain ⟨tables, -, rfl⟩ := h
    simp
  have hthinned : List.Forall₂ Thins
      (splitOn '\n' (dropLoose false (dropBeforeClose (unlines ls)))) ls := by
    have hlines : List.Forall₂ Thins (splitOn '\n' _) (splitOn '\n' (unlines ls)) :=
      hthins.splitOn (by decide)
    rwa [hsplit] at hlines
  rw [← join_splitOn '\n' (dropLoose false (dropBeforeClose (unlines ls)))]
  generalize splitOn '\n' (dropLoose false (dropBeforeClose (unlines ls))) = ls' at hthinned ⊢
  have hended : ∀ l ∈ ls', IsEnded l := (h.thins houter hthinned).isEnded houter
  have hended' : ∀ l ∈ ls'.map (dropAfterClose false), IsTidyLine l := by
    intro l hl
    obtain ⟨l', hl', rfl⟩ := List.mem_map.1 hl
    exact ((hended l' hl').thins (thins_dropAfterClose _ _)).isPlainLine.isTidyLine
  rw [← unlines, dropAfterClose_unlines fun l hl => (hended l hl).start, lines_unlines hended',
    dropEntryEnds_outer houter (h.thins houter hthinned)]

/-- Nested tables are left without separators and without what is below them. -/
theorem clean_nested {f : SourceFile} (hfile : isLua f.path = true) (houter : IsName outer)
    (h : WritesNested outer gs f.lines) :
    Lua.clean {} f = outerLines outer gs := by
  obtain ⟨table, trailing, htable, htrailing, hlines⟩ := h
  have hended := htable.isEnded houter
  have hnested : isNested f.lines = true := by
    obtain ⟨tables, -, rfl⟩ := htable
    have hopen : openLine outer = (outer ++ [' ']) ++ '=' :: [' ', '{'] := by simp [openLine]
    have hequals : '=' ∉ outer := not_mem_of_all houter.isWordChar (by decide)
    have hdot : '.' ∉ outer := not_mem_of_all houter.isWordChar (by decide)
    rw [hlines, hopen, List.cons_append, List.cons_append,
      isNested_cons (by simp) (by simp [hequals])]
    simp [hdot]
  have hbody : lines (throughLastBrace f.text) = table := by
    obtain ⟨tables, -, rfl⟩ := htable
    rw [SourceFile.text, hlines, List.append_assoc, List.singleton_append,
      throughLastBrace_unlines htrailing,
      lines_unlines fun l hl => (hended l hl).isPlainLine.isTidyLine]
  rw [Lua.clean, hnested, if_pos rfl, if_pos rfl, hbody,
    cleanLines_eq hfile fun l hl => (hended l hl).isPlainLine, dropAll_outer houter htable]

end GameScript
