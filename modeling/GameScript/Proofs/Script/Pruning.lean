import GameScript.Script.Layout

/-!
# Leaving out variables

An element laid out without its variables is the element laid out that has none below it
(`format_skipping`). `Element.pruned` takes them away at every depth beforehand, and the layout
drops them level by level; since a block stays what it is without its variables, both find the same
blocks to write on one line (`isInline_prunedAll`).
-/

namespace GameScript

open Text

namespace Element

mutual

def pruned : Element → Element
  | leaf key operator value => leaf key operator value
  | block key operator children => block key operator (prunedAll children)

def prunedAll : List Element → List Element
  | [] => []
  | e :: es => if e.isVariable then prunedAll es else e.pruned :: prunedAll es

end

variable {e : Element} {es : List Element}

theorem prunedAll_variable (h : e.isVariable = true) : prunedAll (e :: es) = prunedAll es := by
  rw [prunedAll, if_pos h]

theorem prunedAll_cons (h : e.isVariable = false) :
    prunedAll (e :: es) = e.pruned :: prunedAll es := by
  rw [prunedAll, if_neg (by simp [h])]

theorem prunedAll_eq (es : List Element) :
    prunedAll es = (es.filter (!·.isVariable)).map pruned := by
  induction es with
  | nil => rfl
  | cons e es ih =>
    cases he : e.isVariable with
    | true => rw [prunedAll_variable he, ih, List.filter_cons_of_neg (by simp [he])]
    | false =>
      rw [prunedAll_cons he, ih, List.filter_cons_of_pos (by simp [he]), List.map_cons]

end Element

open Element

namespace Layout

variable {es : List Element}

theorem keeps_all (e : Element) : keeps false e = true := rfl

theorem keeps_skipping (e : Element) : keeps true e = !e.isVariable := by
  rw [keeps, Bool.true_and]

theorem filter_keeps_prunedAll (es : List Element) :
    (prunedAll es).filter (keeps false) = (es.filter (keeps true)).map pruned := by
  have hkeeps : keeps true = (!·.isVariable) := funext keeps_skipping
  rw [List.filter_eq_self.2 fun e _ => keeps_all e, prunedAll_eq, hkeeps]

/-- The same blocks are written on one line. -/
theorem isInline_prunedAll (operator : Option Text) (es : List Element) :
    isInline false operator (prunedAll es) = isInline true operator es := by
  rw [isInline, isInline, filter_keeps_prunedAll]
  rcases es.filter (keeps true) with _ | ⟨_ | ⟨key, _ | op, children⟩, _ | ⟨f, fs⟩⟩ <;> rfl

mutual

theorem body_pruned (width level : Nat) : (e : Element) →
    body false width level e.pruned = body true width level e
  | .leaf key operator value => rfl
  | .block key operator children => by
    rw [pruned, body, body, isInline_prunedAll, onlyChild_prunedAll width level children,
      childLines_prunedAll width (level + 1) children]

theorem childLines_prunedAll (width level : Nat) : (es : List Element) →
    childLines false width level (prunedAll es) = childLines true width level es
  | [] => rfl
  | e :: es => by
    rw [childLines, keeps_skipping, ← body_pruned width level e,
      ← childLines_prunedAll width level es]
    cases he : e.isVariable with
    | true => rw [prunedAll_variable he]; rfl
    | false => rw [prunedAll_cons he, childLines, keeps_all]; rfl

theorem onlyChild_prunedAll (width level : Nat) : (es : List Element) →
    onlyChild false width level (prunedAll es) = onlyChild true width level es
  | [] => rfl
  | e :: es => by
    rw [onlyChild, keeps_skipping, ← body_pruned width level e,
      ← onlyChild_prunedAll width level es]
    cases he : e.isVariable with
    | true => rw [prunedAll_variable he]; rfl
    | false => rw [prunedAll_cons he, onlyChild, keeps_all]; rfl

end

/-- **Skipping variables is taking them away first**, whatever the level, the width and the block
the element is written in. The element itself is written also when it is a variable. -/
theorem format_skipping (layout : Layout) (e : Element) :
    format { layout with skipVariables := true } e =
      format { layout with skipVariables := false } e.pruned := by
  simp only [format, body_pruned]

-- what is left of the body is written on one line
example : format { skipVariables := true }
    (.block "a" "=" [.leaf "@x" "=" "1", .block "hsv" none [.leaf "@y" "=" "2"]]) =
      "a = hsv \x7b\n\x7d" := by
  decide +kernel

end Layout

end GameScript
