import GameScript.Definition.Basic
import GameScript.Store.Node
import GameScript.Store.Table

/-!
# The outline

The definitions of a store by the directory that they are listed under and then by id, both
without regard to case. What every definition contributes is kept by itself, so that removing
one takes away nothing else; name and key of a place are those of its first definition. The
nodes that are shown are made from the contributions.
-/

namespace GameScript

open Text

/-- What a definition adds to the topic it belongs to. -/
structure Contribution where
  file : Text
  modName : Text
  isFromGame : Bool
  deriving DecidableEq

def Contribution.of (d : Definition) : Contribution := ⟨d.file, d.modName, d.isFromGame⟩

/-- The definitions with one id in a directory. -/
structure Topic where
  name : Text
  key : Text
  contributions : List Contribution := []
  reset : ResetState := .unset

structure Folder where
  name : Text
  topics : Table Text Topic := []

abbrev Outline := Table Text Folder

namespace Outline

def folderKey (d : Definition) : Text := lower d.listedDirectory

def topicKey (d : Definition) : Text := lower d.id

/-! ## Changes -/

def contribute (d : Definition) (t : Option Topic) : Topic :=
  let t := t.getD { name := d.id, key := d.typeAndId }
  { t with contributions := t.contributions ++ [.of d] }

def insert (d : Definition) (o : Outline) : Outline :=
  o.alter (folderKey d) fun folder =>
    let folder := folder.getD { name := d.listedDirectory }
    some { folder with
      topics := folder.topics.alter (topicKey d) fun t => some (contribute d t) }

def topic? (d : Definition) (o : Outline) : Option Topic :=
  (o.get? (folderKey d)).bind (·.topics.get? (topicKey d))

/-- Changes the topic of a definition. A topic that is gone takes an empty folder with it. -/
def alterTopic (d : Definition) (change : Topic → Option Topic) (o : Outline) : Outline :=
  o.alter (folderKey d) fun folder =>
    folder.bind fun folder =>
      match folder.topics.alter (topicKey d) (·.bind change) with
      | [] => none
      | topics => some { folder with topics := topics }

/-- Removes one contribution like that of a definition, if there is one. -/
def erase? (d : Definition) (o : Outline) : Option Outline :=
  if (o.topic? d).any (·.contributions.contains (.of d)) then
    some (o.alterTopic d fun t =>
      match t.contributions.erase (.of d) with
      | [] => none
      | rest => some { t with contributions := rest })
  else none

/-- Sets the reset state of the topic of a definition, if there is one. -/
def setReset? (d : Definition) (reset : ResetState) (o : Outline) : Option Outline :=
  if (o.topic? d).isSome then some (o.alterTopic d fun t => some { t with reset := reset })
  else none

def hasReset (o : Outline) : Bool := o.any fun (_, f) => f.topics.any fun (_, t) => t.reset.isReset

end Outline

/-! ## What is shown -/

/-- The names that are not empty, each at its first place. -/
def distinctNames (ts : List Text) : List Text :=
  ts.foldl (fun seen t => if t = [] || seen.contains t then seen else seen ++ [t]) []

/-- The contributions that do not come from the game. -/
def Topic.added (t : Topic) : List Contribution := t.contributions.filter (!·.isFromGame)

def Topic.node (t : Topic) : Node where
  name := t.name
  key := t.key
  files := distinctNames (t.contributions.map (·.file))
  mods := distinctNames (t.added.map (·.modName))
  added := t.added.length
  reset := t.reset

/-- Of several states, resolved goes before ignored. -/
def combinedReset (states : List ResetState) : ResetState :=
  if .resolved ∈ states then .resolved else if .ignored ∈ states then .ignored else .unset

def Folder.node (key : Text) (f : Folder) : Node :=
  let children := Node.sortByName (f.topics.map (·.2.node))
  { name := f.name
    key := key
    mods := distinctNames (children.flatMap (·.mods))
    added := children.foldl (fun n c => n + c.added) 0
    reset := combinedReset (children.map (·.reset))
    children := children }

/-- The directories with their ids, both sorted by name. -/
def Outline.nodes (o : Outline) : List Node := Node.sortByName (o.map fun (key, f) => f.node key)

end GameScript
