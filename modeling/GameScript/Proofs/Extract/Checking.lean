import GameScript.Extract.File
import GameScript.Proofs.Script.Tolerance

/-!
# Checking decides whether a file is read, not what is read

Whatever check a file goes through and whatever is tried again, the elements of a file that is
accepted are those that are built without any check (`read_unchecked`, `parsed_unchecked`).
-/

namespace GameScript

theorem parse_tolerant_of_ok {r : Rigour} {marker source : Text} {es : List Element}
    (h : parse r marker source = .ok es) : parse .tolerant marker source = .ok es := by
  cases r with
  | strict => exact parse_tolerant h
  | tolerant => exact h

theorem checkLength_ok {limit number : Nat} {lines : List Text}
    (h : ∀ line ∈ lines, line.length ≤ limit) :
    Balance.checkLength limit number lines = .ok () := by
  induction lines generalizing number with
  | nil => rfl
  | cons line lines ih =>
    rw [List.forall_mem_cons] at h
    rw [Balance.checkLength, if_neg (Nat.not_lt.2 h.1), ih h.2]

/-- The fault names a line that is too long, if there is one. -/
theorem checkLength_error {limit : Nat} {lines : List Text} (number : Nat)
    (h : ∃ line ∈ lines, limit < line.length) :
    ∃ n, ∃ line ∈ lines, limit < line.length ∧
      Balance.checkLength limit number lines = .error (.lineTooLong n line.length limit) := by
  induction lines generalizing number with
  | nil =>
    obtain ⟨_, hmem, _⟩ := h
    cases hmem
  | cons first lines ih =>
    rw [Balance.checkLength]
    by_cases hfirst : limit < first.length
    · exact ⟨number, first, List.mem_cons_self, hfirst, if_pos hfirst⟩
    · obtain ⟨line, hmem, hlong⟩ := h
      have hrest : line ∈ lines := by
        rcases List.mem_cons.1 hmem with rfl | hmem
        · exact absurd hlong hfirst
        · exact hmem
      obtain ⟨n, line', hmem', hlong', herror⟩ := ih (number + 1) ⟨line, hrest, hlong⟩
      exact ⟨n, line', List.mem_cons_of_mem _ hmem', hlong', by rw [if_neg hfirst, herror]⟩

theorem read_of_checks {s : ScriptSettings} {lines : List Text} {file : Text} {simple : Bool}
    {es : List Element} (hlength : ∀ line ∈ lines, line.length ≤ s.maxLineLength)
    (hcheck : s.check lines file (simple || s.alwaysSimple) = .ok ())
    (hparse : parse (if simple || s.alwaysSimple then .tolerant else .strict) (s.marker file)
      (Text.unlines lines) = .ok es) :
    s.read lines file simple = ⟨.ok es, simple || s.alwaysSimple⟩ := by
  rw [ScriptSettings.read, checkLineLength, checkLength_ok hlength, hcheck, hparse]

/-- A reading that succeeds, checked simply or not, has the elements of an unchecked one. -/
theorem read_unchecked {s : ScriptSettings} {lines : List Text} {file : Text} {simple : Bool}
    {es : List Element} (h : (s.read lines file simple).outcome = .ok es) :
    s.elementsUnchecked lines file = .ok es := by
  rw [ScriptSettings.read] at h
  split at h
  · cases h
  · split at h
    · cases h
    · exact parse_tolerant_of_ok h

theorem read_strict {s : ScriptSettings} {lines : List Text} {file : Text} {simple : Bool}
    {es : List Element} (h : (s.read lines file simple).outcome = .ok es)
    (hsimple : (s.read lines file simple).simple = false) :
    parse .strict (s.marker file) (Text.unlines lines) = .ok es := by
  have hstrict : (simple || s.alwaysSimple) = false := hsimple
  rw [ScriptSettings.read, hstrict] at h
  split at h
  · cases h
  · split at h
    · cases h
    · exact h

theorem map_eq_ok {ε α β : Type} {x : Except ε α} {g : α → β} {b : β} (h : x.map g = .ok b) :
    ∃ a, x = .ok a ∧ g a = b := by
  cases x with
  | error e => cases h
  | ok a => exact ⟨a, rfl, Except.ok.inj h⟩

namespace SourceFile

variable {s : ScriptSettings} {f : SourceFile} {tree : FileTree}

theorem parsed_unchecked (h : f.parsed s = .ok tree) :
    s.elementsUnchecked f.lines f.path = .ok tree.elements := by
  rw [parsed.eq_def] at h
  cases hc : f.checking with
  | skipped =>
    rw [hc] at h
    obtain ⟨es, hes, rfl⟩ := map_eq_ok h
    exact hes
  | simple =>
    rw [hc] at h
    obtain ⟨es, hes, rfl⟩ := map_eq_ok h
    exact read_unchecked hes
  | full =>
    rw [hc] at h
    dsimp only at h
    split at h
    · split at h
      · obtain ⟨es, hes, rfl⟩ := map_eq_ok h
        exact read_unchecked hes
      · cases h
    · next hes =>
      cases h
      exact read_unchecked hes

theorem elements_unchecked (h : f.elements s = .ok tree) :
    s.elementsUnchecked f.lines f.path = .ok tree.elements := by
  rw [elements] at h
  cases hp : f.parsed s with
  | error fault => rw [hp] at h; cases h
  | ok t =>
    rw [hp] at h
    cases h
    exact parsed_unchecked hp

theorem parsed_strict (h : f.parsed s = .ok tree) (hsimple : tree.simple = false) :
    parse .strict (s.marker f.path) f.text = .ok tree.elements := by
  rw [parsed.eq_def] at h
  cases hc : f.checking with
  | skipped =>
    rw [hc] at h
    obtain ⟨es, -, rfl⟩ := map_eq_ok h
    cases hsimple
  | simple =>
    rw [hc] at h
    obtain ⟨es, hes, rfl⟩ := map_eq_ok h
    exact read_strict hes hsimple
  | full =>
    rw [hc] at h
    dsimp only at h
    split at h
    · split at h
      · obtain ⟨es, -, rfl⟩ := map_eq_ok h
        cases hsimple
      · cases h
    · next hes =>
      cases h
      exact read_strict hes hsimple

theorem elements_strict (h : f.elements s = .ok tree) (hsimple : tree.simple = false) :
    parse .strict (s.marker f.path) f.text = .ok tree.elements := by
  rw [elements] at h
  cases hp : f.parsed s with
  | error fault => rw [hp] at h; cases h
  | ok t =>
    rw [hp] at h
    cases h
    exact parsed_strict hp hsimple

/-- Without checks a file has the elements that are built unchecked. -/
theorem elements_skipped {es : List Element} (h : s.elementsUnchecked f.lines f.path = .ok es) :
    { f with checking := .skipped }.elements s = .ok ⟨es, true⟩ := by
  rw [elements, parsed, ScriptSettings.readUnchecked, h]
  rfl

/-- **The kinds of checking never disagree on the tree.** An accepted file has the elements that
are built without checks; so any two kinds of checking that accept it agree, it is accepted when
checks are skipped, and what is accepted when it is read again, simply, could not have been
another tree. This rests on a strict reading being also a tolerant one, of any source. -/
theorem checkings_agree (s : ScriptSettings) (f : SourceFile) :
    (∀ checking tree, { f with checking := checking }.elements s = .ok tree →
      s.elementsUnchecked f.lines f.path = .ok tree.elements ∧
        { f with checking := .skipped }.elements s = .ok ⟨tree.elements, true⟩) ∧
    (∀ checking checking' tree tree',
      { f with checking := checking }.elements s = .ok tree →
      { f with checking := checking' }.elements s = .ok tree' →
        tree.elements = tree'.elements) ∧
    (∀ simple simple' es es', (s.read f.lines f.path simple).outcome = .ok es →
      (s.read f.lines f.path simple').outcome = .ok es' → es = es') ∧
    ∀ marker source es, parse .strict marker source = .ok es →
      parse .tolerant marker source = .ok es := by
  have hunchecked {checking : Checking} {tree : FileTree}
      (h : { f with checking := checking }.elements s = .ok tree) :
      s.elementsUnchecked f.lines f.path = .ok tree.elements :=
    elements_unchecked (f := { f with checking := checking }) h
  refine ⟨?_, ?_, ?_, fun _ _ _ => parse_tolerant⟩
  · intro checking tree h
    exact ⟨hunchecked h, elements_skipped (hunchecked h)⟩
  · intro checking checking' tree tree' h h'
    exact Except.ok.inj ((hunchecked h).symm.trans (hunchecked h'))
  · intro simple simple' es es' h h'
    exact Except.ok.inj ((read_unchecked h).symm.trans (read_unchecked h'))

/-- A file that is read again, since an operator of it has no value. -/
def withoutValue : SourceFile := { path := "common/x.txt", lines := ["a = = b"] }

theorem checkings_agree_withoutValue :
    ∃ tree, withoutValue.elements {} = .ok tree ∧ tree.simple = true ∧
      ({} : ScriptSettings).elementsUnchecked withoutValue.lines withoutValue.path =
        .ok tree.elements := by
  have hok : ((withoutValue.elements {}).toOption.map (·.simple)) = some true := by decide +kernel
  cases h : withoutValue.elements {} with
  | error e => rw [h] at hok; cases hok
  | ok tree =>
    rw [h] at hok
    exact ⟨tree, rfl, Option.some.inj hok,
      ((checkings_agree {} withoutValue).1 .full tree h).1⟩

end SourceFile

end GameScript
