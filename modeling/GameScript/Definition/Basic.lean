import GameScript.Definition.Kind
import GameScript.Path
import GameScript.Text.Condensed
import GameScript.Text.Digest
import GameScript.Text.Order

/-!
# Definitions

A definition is one object, variable, namespace or whole file that a mod contributes. Two
definitions describe the same game object when their `typeAndId` agree, and carry the same
content when their `hash` agree.

What is looked up or compared often (small forms, directories, the single line of the code) is
kept beside the field it follows from, and set together with it. `typeAndId` and `codeHash` stay
empty until a setter first gives them.
-/

namespace GameScript

open Text

inductive AliasSet where
  | additional
  | generated
  | overwritten
  deriving DecidableEq

structure Definition where
  id : Text := []
  type : Text := []
  typeAndId : Text := []
  file : Text := []
  fileKey : Text := []
  directory : Text := []
  directoryKey : Text := []
  diskFile : Option Text := none
  diskFileKey : Option Text := none
  /-- Where the game sees the file, when that is elsewhere. -/
  virtualPath : Option Text := none
  virtualDirectory : Option Text := none
  additionalNames : SortedSet := []
  generatedNames : SortedSet := []
  overwrittenNames : SortedSet := []
  code : Text := []
  singleLine : Text := []
  codeHash : Text := []
  /-- A hash that replaces the computed one. -/
  givenHash : Option Text := none
  /-- The hash of the raw file. -/
  contentHash : Text := []
  tags : List Text := []
  /-- The code as it is shown. -/
  shownCode : Text := []
  /-- The key that the id was made from. -/
  shownId : Option Text := none
  /-- The name of the file before it was merged. -/
  initialFileName : Option Text := none
  modName : Text := []
  initialModName : Option Text := none
  dependencies : List Text := []
  kind : Kind := .object
  /-- The same id may occur again. -/
  allowsDuplicate : Bool := false
  /-- The folder is merged into a single file. -/
  isSpecialFolder : Bool := false
  isFromGame : Bool := false
  /-- The id comes from an inline script. -/
  hasInlineId : Bool := false
  /-- Children are concatenated in a merge. -/
  flatMerge : Bool := false
  /-- The file was read with the simple check. -/
  simplyChecked : Bool := false
  /-- What closes the block the code was wrapped in. -/
  codeSeparator : Option Text := none
  /-- The key of the block the code was wrapped in. -/
  codeTag : Option Text := none
  reset : ResetState := .unset
  /-- The reader that produced the definition. -/
  reader : Option Text := none
  /-- The place among the definitions of the file. -/
  order : Nat := 0
  /-- The version a localization key declares. -/
  version : Int := 0
  errorLine : Option Nat := none
  errorColumn : Option Nat := none
  errorMessage : Option Text := none
  deriving DecidableEq

namespace Definition

/-! ## Identity -/

def setId (d : Definition) (id : Text) : Definition :=
  { d with id := id, typeAndId := d.type ++ '-' :: id }

def setType (d : Definition) (type : Text) : Definition :=
  { d with type := type, typeAndId := type ++ '-' :: d.id }

/-! ## Files -/

/-- Sets the file, which leaves the alias sets: they are always reported with it. -/
def setFile (d : Definition) (file : Text) : Definition :=
  let file := Path.normalize file
  let directory := Path.directory file
  { d with
    file := file
    fileKey := lower file
    directory := directory
    directoryKey := lower directory
    additionalNames := SortedSet.erase file d.additionalNames
    generatedNames := SortedSet.erase file d.generatedNames
    overwrittenNames := SortedSet.erase file d.overwrittenNames }

def setDiskFile (d : Definition) (file : Option Text) : Definition :=
  let file := file.map Path.normalize
  { d with diskFile := file, diskFileKey := file.map lower }

def setVirtualPath (d : Definition) (path : Option Text) : Definition :=
  let path := path.map Path.normalize
  { d with virtualPath := path, virtualDirectory := path.map Path.directory }

def listedDirectory (d : Definition) : Text := d.virtualDirectory.getD d.directory

/-! ## Aliases -/

/-- The names added to a set, without the current file. -/
def addedNames (d : Definition) : AliasSet → SortedSet
  | .additional => d.additionalNames
  | .generated => d.generatedNames
  | .overwritten => d.overwrittenNames

/-- The names of a set, among them the current file. -/
def aliases (d : Definition) (set : AliasSet) : SortedSet :=
  if d.file = [] then d.addedNames set else SortedSet.insert d.file (d.addedNames set)

/-- Adds a file name to a set; the current file is not added. -/
def addAlias (d : Definition) (set : AliasSet) (name : Text) : Definition :=
  let name := Path.normalize name
  if name = d.file then d
  else
    match set with
    | .additional => { d with additionalNames := SortedSet.insert name d.additionalNames }
    | .generated => { d with generatedNames := SortedSet.insert name d.generatedNames }
    | .overwritten => { d with overwrittenNames := SortedSet.insert name d.overwrittenNames }

/-! ## Content -/

/-- Code as it is kept: four spaces for a tab, and no blank lines. -/
def tidyCode (code : Text) : Text :=
  unlines ((lines (replaceChar '\t' (List.replicate 4 ' ') code)).filter (!isBlank ·))

/-- The text that is hashed for tidied code. -/
def fingerprint (code : Text) : Text := condense (Text.singleLine code)

def setCode (d : Definition) (code : Text) : Definition :=
  let code := tidyCode code
  { d with
    code := code
    singleLine := Text.singleLine code
    codeHash := digest (fingerprint code) }

/-- The hash that content is compared by: the given one, for binary content that of the raw
file, else that of the code. -/
def hash (d : Definition) : Text :=
  d.givenHash.getD (if d.kind = .binary then d.contentHash else d.codeHash)

/-! ## Tags -/

/-- Adds a tag in small letters, unless it is blank or known. -/
def addTag (d : Definition) (tag : Text) : Definition :=
  let tag := lower (trim tag)
  if tag = [] ∨ tag ∈ d.tags then d else { d with tags := d.tags ++ [tag] }

def addTags (d : Definition) (tags : List Text) : Definition := tags.foldl addTag d

/-- Whether the mod name and id begin with the term, ignoring case. -/
def isMatch (d : Definition) (term : Text) : Bool :=
  startsLike term (d.modName ++ " - " ++ d.id)

end Definition

end GameScript
