import GameScript.Extract.File
import GameScript.Extract.Naming
import GameScript.Script.Layout

/-!
# Definitions of a file

The definitions that single elements and whole files make, each with the provenance of the file
and the type that its path gives. A file that cannot be read makes one invalid definition.
-/

namespace GameScript.SourceFile

open Text

/-- An empty definition of a kind, with the provenance and type of the file. -/
def draft (f : SourceFile) (kind : Kind) : Definition :=
  { (({} : Definition).setFile f.path).setType (Path.typeLabel f.path none) with
    modName := f.modName
    dependencies := f.dependencies
    contentHash := f.contentHash
    isFromGame := f.isFromGame
    kind := kind }

/-- A draft with an id, some code, shown as it is, and a tag. -/
def simpleDefinition (f : SourceFile) (kind : Kind) (id code tag : Text) : Definition :=
  { (((f.draft kind).setId id).setCode code).addTag tag with shownCode := code }

/-- What stands for a file that cannot be read. -/
def invalidDefinition (f : SourceFile) (fault : Fault) : Definition :=
  let d := (f.draft .invalid).setType (Path.typeLabel f.path (some "invalid"))
  { ((d.setId f.name).setCode f.text).addTag f.name with
    shownCode := f.text
    errorLine := fault.line
    errorColumn := fault.column
    errorMessage := some fault.message }

/-- The whole file as one definition. When `tagged`, the keys of its top-level blocks and their
generic values are tags, as far as the cleaned file can be read at all. -/
def wholeDefinition (s : ScriptSettings) (f : SourceFile) (tagged : Bool) : Definition :=
  let d := f.simpleDefinition .wholeFile f.name f.text f.name
  if tagged then
    match s.elementsUnchecked (s.cleanLines f.path f.lines) f.path with
    | .ok es =>
      (es.filter (!·.isLeaf)).foldl
        (fun d e => (d.addTag (unquote e.key)).addGenericTags e.children) d
    | .error _ => d
  else d

def binaryDefinition (f : SourceFile) : Definition :=
  let d := (f.draft .binary).setType (Path.typeLabel f.path (some "binary"))
  ((d.setId f.name).setCode []).addTag f.name

def variableDefinition (f : SourceFile) (e : Element) : Definition :=
  f.simpleDefinition .plainVariable e.key e.format e.key

def namespaceDefinition (f : SourceFile) (e : Element) : Definition :=
  let value := e.unquotedValue.getD []
  f.simpleDefinition .namespaceKey (value ++ '-' :: e.key) e.format value

/-- An object made of a block. Below a parent its code is wrapped in the parent's block, and
its type has the parent's key. -/
def objectDefinition (f : SourceFile) (naming : Naming) (e : Element) (parent : Option Text) :
    Definition :=
  let inlineId := e.inlineScriptId
  let id := inlineId.getD (naming.blockId e.children e.key)
  let id := if id = [] then f.name else id
  let d := (f.draft .object).setId id
  let d :=
    match parent with
    | none => d
    | some key =>
      { d.setType (Path.typeLabel f.path (some (key ++ '/' :: Path.typeSuffix f.path))) with
        codeTag := some key
        codeSeparator := some ['}'] }
  let d := d.setCode (Layout.format { parentKey := parent } e)
  ({ d with
      hasInlineId := inlineId.isSome || e.wrapsInlineScript
      shownCode := Layout.format { parentKey := parent, skipVariables := true } e
    }.addTag id).addGenericTags e.children

end GameScript.SourceFile
