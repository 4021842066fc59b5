import GameScript.Definition.Basic
import GameScript.Script.Element
import GameScript.Text.Order

/-!
# Ids and tags from elements

Which keys carry the identity of an object, and how a block gets its id: from the first child
that supplies one, else its key, after the sorted locales of a list of languages. A `Naming`
holds the rules in which folders differ.
-/

namespace GameScript

open Text

/-- Keys whose values identify or label an object. -/
def genericKeys : List Text := ["id", "name", "key", "format", "world", "localization"]

def isGenericKey (key : Text) : Bool := genericKeys.any (same · key)

def namespaceKeys : List Text := ["namespace", "add_namespace"]

def isNamespaceKey (key : Text) : Bool := namespaceKeys.any (same · key)

namespace Element

/-- The value of a leaf keyed `id`. -/
def idValue (e : Element) : Option Text :=
  if e.isLeaf && e.hasKey "id" then e.unquotedValue else none

def locales (children : List Element) : List Text :=
  match children.find? fun c => !c.isLeaf && c.hasKey "languages" with
  | some languages =>
    SortedSet.ofList ((languages.children.map (unquote ·.key)).filter (· ≠ []))
  | none => []

/-- The id of a block with these children, where `childId` tells what a child supplies. -/
def blockId (childId : Element → Option Text) (children : List Element) (key : Text) : Text :=
  let id := (children.findSome? childId).getD key
  match locales children with
  | [] => id
  | ls => join ['-'] ls ++ '-' :: id

def inlineScriptKey : Text := "inline_script"

def wrapsInlineScript (e : Element) : Bool :=
  match e.children with
  | [only] => only.hasKey inlineScriptKey
  | _ => false

/-- The id of a block whose only child is an inline script with parameters: the first value
that is not that of the script itself. -/
def inlineScriptId (e : Element) : Option Text :=
  match e.children with
  | [.block key _ parameters] =>
    if same key inlineScriptKey then
      ((parameters.filter fun p => p.isLeaf && !p.hasKey "script").findSome? unquotedValue).filter
        (· ≠ [])
    else none
  | _ => none

end Element

/-- Tags a definition with the values of children with generic keys. -/
def Definition.addGenericTags (d : Definition) (children : List Element) : Definition :=
  d.addTags ((children.filter fun c => c.isLeaf && isGenericKey c.key).filterMap
    Element.unquotedValue)

/-- The rules of a folder for ids and kinds. -/
structure Naming where
  /-- The id that a child of a block supplies. -/
  childId : Element → Option Text := Element.idValue
  /-- The id of a block with these children and this key. -/
  blockId : List Element → Text → Text := Element.blockId childId
  /-- Adjusts a definition once it is classified. -/
  adjust : Definition → Element → Definition := fun d _ => d

end GameScript
