import GameScript.Extract.Classify
import GameScript.Reader.Lua
import GameScript.Reader.Settings

/-!
# Defines

The constants of the engine, each a special variable whose type has the name of its group. In
Lua the group is written with the key, as `NGame.KEY = 1`, or around it as nested tables; a
script writes it as a block.
-/

namespace GameScript.SourceFile

open Text

variable (s : ReaderSettings) (f : SourceFile)

def constant (group id : Text) : Definition :=
  let d := (f.draft .specialVariable).setType (Path.typeLabel f.path (some (group ++ "-txt")))
  (d.setId (trim id)).addTag (trim id)

def itemConstant (group : Text) (item : Element) : Definition :=
  { f.constant group (Element.blockId Element.idValue item.children item.key) with
    shownId := some (trim item.key) }

/-- The constant of a leaf with a dotted key; the group is all before the last dot. -/
def dottedConstant (e : Element) : Option Definition :=
  (splitLast '.' e.key).map fun (group, id) =>
    { (f.constant group id).setCode e.format with
      shownCode := Layout.format { skipVariables := true } e }

/-- The constants in the tables of a table. Their code is written with a dotted key. -/
def tableConstants (outer : Element) : List Definition :=
  (outer.children.filter (!·.isLeaf)).flatMap fun table =>
    let group := outer.key ++ '.' :: table.key
    table.children.map fun item =>
      let code := group ++ '.' :: Layout.format { skipVariables := true } item
      ({ (f.itemConstant group item).setCode code with shownCode := code }).addGenericTags
        item.children

/-- The constants of a block. Their code is wrapped in it. -/
def blockConstants (group : Element) : List Definition :=
  group.children.map fun item =>
    let code := Layout.format { parentKey := some group.key } item
    ({ (f.itemConstant group.key item).setCode code with
        shownCode := Layout.format { skipVariables := true } item
        codeSeparator := some ['}']
        codeTag := some group.key }).addGenericTags item.children

def constants (lua : Bool) (e : Element) : List Definition :=
  if e.isLeaf then (f.dottedConstant e).toList
  else if lua then f.tableConstants e
  else f.blockConstants e

/-- A file of defines. A bare word at its top level makes all of it invalid. -/
def readDefines : List Definition :=
  let lua := isLua f.path && f.lines ≠ []
  let f :=
    if lua then
      { f with
        lines := Lua.clean s.script f
        checking := if f.checking = .full then .simple else f.checking }
    else f
  match f.elements s.script with
  | .error e => [f.invalidDefinition e.fault]
  | .ok p =>
    if p.elements.any fun e => e.isLeaf && e.operator.isNone then
      [f.invalidDefinition
        (.defective ("There appears to be a syntax error detected in: " ++ f.path) none none)]
    else finishDefinitions p.simple (p.elements.flatMap (f.constants lua))

end GameScript.SourceFile
