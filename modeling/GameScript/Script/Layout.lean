import GameScript.Script.Element

/-!
# Laying out elements

The canonical text of an element, from which the code of definitions is made. A leaf is written
on a line; a block is its head, one line for each child one level deeper, and the closing brace.
A block with an operator whose only child is an inline value without operator has that child on
its own line.
-/

namespace GameScript

open Text

structure Layout where
  /-- The level of the element itself. -/
  level : Nat := 0
  /-- Spaces for each level. -/
  width : Nat := 4
  /-- Leaves out the variables below the element. -/
  skipVariables : Bool := false
  /-- Writes the element inside a block with this key. -/
  parentKey : Option Text := none

namespace Layout

def pad (width level : Nat) : Text := List.replicate (level * width) ' '

/-- Whether a child is written at all. -/
def keeps (skip : Bool) (e : Element) : Bool := !(skip && e.isVariable)

/-- Whether a block is written on one line with the only child kept of it. -/
def isInline (skip : Bool) (operator : Option Text) (children : List Element) : Bool :=
  match children.filter (keeps skip) with
  | [.block key none _] => operator.isSome && Element.isInlineKeyword key
  | _ => false

/-- A leaf without its indentation. A blank value is not written, nor its operator; nor is a
blank operator. -/
def leafText (key : Text) (operator value : Option Text) : Text :=
  match value.filter (!isBlank ·) with
  | none => key
  | some v =>
    match operator.filter (!isBlank ·) with
    | none => key ++ ' ' :: v
    | some op => key ++ ' ' :: op ++ ' ' :: v

/-- The head of a block up to its brace, without indentation. -/
def headText (key : Text) (operator : Option Text) : Text :=
  match operator with
  | some op => key ++ ' ' :: op
  | none => key

mutual

def body (skip : Bool) (width level : Nat) : Element → Text
  | .leaf key operator value => leafText key operator value
  | .block key operator children =>
    headText key operator ++
      if isInline skip operator children then ' ' :: onlyChild skip width level children
      else
        (if key = [] ∧ operator = none then ['{', '\n'] else [' ', '{', '\n'])
          ++ childLines skip width (level + 1) children ++ pad width level ++ ['}']

def childLines (skip : Bool) (width level : Nat) : List Element → Text
  | [] => []
  | e :: es =>
    if keeps skip e then
      pad width level ++ body skip width level e ++ '\n' :: childLines skip width level es
    else childLines skip width level es

/-- The first child kept, on the line of its parent. -/
def onlyChild (skip : Bool) (width level : Nat) : List Element → Text
  | [] => []
  | e :: es => if keeps skip e then body skip width level e else onlyChild skip width level es

end

def format (layout : Layout) (e : Element) : Text :=
  let line (level : Nat) := pad layout.width level ++ body layout.skipVariables layout.width level e
  match layout.parentKey with
  | none => line layout.level
  | some key =>
    pad layout.width layout.level ++ key ++ [' ', '=', ' ', '{', '\n'] ++ line (layout.level + 1)
      ++ '\n' :: pad layout.width layout.level ++ ['}']

end Layout

def Element.format (e : Element) : Text := Layout.format {} e

/-- The canonical text of a script. -/
def formatAll (es : List Element) : Text := Text.unlines (es.map Element.format)

end GameScript
