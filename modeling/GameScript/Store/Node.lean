import GameScript.Definition.Kind
import GameScript.Text.Case
import GameScript.Text.Order

/-!
# Nodes of an outline

The form in which an outline is shown: directories with the ids in them, each with the files and
mods that contribute.
-/

namespace GameScript

open Text

structure Node where
  name : Text
  /-- What the node is looked up by. -/
  key : Text
  files : List Text := []
  mods : List Text := []
  /-- How many definitions are not from the game. -/
  added : Nat := 0
  reset : ResetState := .unset
  children : List Node := []

namespace Node

def isMatch (n : Node) (term : Text) : Bool := startsLike term n.name

def sortByName (ns : List Node) : List Node := sortBy (fun n => lower n.name) ns

mutual

def sorted : Node → Node
  | ⟨name, key, files, mods, added, reset, children⟩ =>
    ⟨name, key, files, mods, added, reset, sortByName (allSorted children)⟩

def allSorted : List Node → List Node
  | [] => []
  | n :: ns => sorted n :: allSorted ns

end

end Node

end GameScript
