import GameScript.Extract.Classify
import GameScript.Reader.Settings

/-!
# Readers of objects

Readers that split a file into objects and differ in what names an object, in how its kind is
adjusted, and in the level that the objects stand on.
-/

namespace GameScript

open Text

/-! ## What names an object -/

namespace Element

def nameValue (e : Element) : Option Text :=
  if e.isLeaf && e.hasKey "name" then e.unquotedValue else none

/-- The value of a leaf with a generic key, unless it is blank. -/
def genericValue (e : Element) : Option Text :=
  if e.isLeaf && isGenericKey e.key then e.unquotedValue.filter (!isBlank ·) else none

/-- The value of a leaf keyed `id`, and with `generic` of one with any generic key. -/
def idOrGenericValue (generic : Bool) (e : Element) : Option Text :=
  if generic && e.isLeaf && isGenericKey e.key then e.unquotedValue else e.idValue

/-- The value of a leaf keyed `key` or `id`, and with `named` of one keyed `name`. -/
def keyValue (named : Bool) (e : Element) : Option Text :=
  if e.isLeaf && ((named && e.hasKey "name") || e.hasKey "key") then e.unquotedValue
  else e.idValue

/-- The first value of a leaf with this key, unless it is empty. -/
def sideValue (key : Text) (children : List Element) : Option Text :=
  ((children.filter fun c => c.isLeaf && c.hasKey key).findSome? unquotedValue).filter (· ≠ [])

/-- The two sides of a link, as far as they are given, else the key. -/
def linkId (children : List Element) (key : Text) : Text :=
  match sideValue "from" children, sideValue "to" children with
  | some a, some b => a ++ '-' :: b
  | some one, none | none, some one => one
  | none, none => key

end Element

/-! ## What kind it gets -/

/-- Makes an object one of another kind; nothing else changes. -/
def Definition.reclassify (target : Kind) (d : Definition) : Definition :=
  if d.kind = .object then { d with kind := target } else d

/-- Whether a block has children and one of the keys is that of all of them. -/
def Element.isFlat (keys : List Text) (e : Element) : Bool :=
  e.children ≠ [] && keys.any fun key => e.children.all (·.hasKey key)

/-- Makes an object one of a directory that is merged into a single file. -/
def ReaderSettings.mergeObject (s : ReaderSettings) (directory : Text) (d : Definition)
    (e : Element) : Definition :=
  if d.kind = .object then
    { d with
      kind := .overwrittenSingleFile
      allowsDuplicate := s.allowsDuplicate directory d.id
      flatMerge := e.isFlat (s.flatMergeKeys directory) }
  else d

/-! ## The readers -/

namespace SourceFile

variable (s : ReaderSettings) (f : SourceFile)

/-- Objects of which the last mod wins; a planet class is named by a generic key. -/
def readOverwritten : List Definition :=
  f.extractRoot s.script
    { childId := Element.idOrGenericValue (Path.isWithin "common/planet_classes" f.path)
      adjust := fun d _ => d.reclassify .overwritten }

/-- Objects of which the last mod wins, in a file whose name is kept. -/
def readKeptFileName : List Definition :=
  f.extractRoot s.script { adjust := fun d _ => d.reclassify .overwrittenKeepingFile }

def readSingleFile : List Definition :=
  (f.extractRoot s.script { adjust := s.mergeObject f.directory }).map
    ({ · with isSpecialFolder := true })

/-- Every leaf with an operator is a variable whose folder decides its priority. -/
def readScriptedVariables : List Definition :=
  (f.extractAllLeaves s.script {}).map fun d =>
    if d.kind = .plainVariable then { d with kind := .specialVariable } else d

/-- Links, named by their two sides. -/
def readTerraform : List Definition :=
  f.extractRoot s.script { blockId := Element.linkId }

def readInitializers : List Definition :=
  f.extractRoot s.script { childId := fun _ => none }

/-- Inner objects that are named by a key, bookmarks by a name as well. -/
def readInnerKeyed : List Definition :=
  f.extractSecondLevel s.script
    { childId := Element.keyValue (Path.isWithin "common/bookmarks" f.path) }

def readInnerLayer : List Definition := f.extractSecondLevel s.script {}

/-- One object for every element, leaf or block. -/
def readKeyValues : List Definition :=
  f.extract s.script fun es => es.map fun e =>
    let id := trim (Element.blockId Element.idValue e.children e.key)
    (f.simpleDefinition .object id e.format id).addGenericTags e.children

def readKeyed : List Definition :=
  f.extractRoot s.script { childId := Element.genericValue }

/-- The directory whose file the file of a `replace` folder stands for. -/
def replacedDirectory? : Option Text := stripEnd? "/replace" f.directory

/-- Inner objects that are named by a name. In a `replace` folder they stand for those of the
file of the same name one folder up. -/
def readGraphics : List Definition :=
  let ds := f.extractSecondLevel s.script { childId := Element.nameValue }
  match f.replacedDirectory? with
  | some target =>
    let path := target ++ '/' :: f.name
    ds.map fun d => (d.setVirtualPath (some path)).setType (Path.typeLabel path none)
  | none => ds

def readObjects : List Definition := f.extractRoot s.script {}

end SourceFile

end GameScript
