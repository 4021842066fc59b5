import GameScript.Text.Case

/-!
# Logical paths

Files are named by their path below the root of the game or of a mod. Both separators are
read; every comparison is made on normalized paths and ignores case.
-/

namespace GameScript.Path

open Text

/-- Writes every separator as `/` and drops those at the ends. -/
def normalize (path : Text) : Text := trimChar '/' (replaceChar '\\' ['/'] path)

def segments (path : Text) : List Text := splitOn '/' (normalize path)

/-- All but the last segment; empty for a bare name. -/
def directory (path : Text) : Text := join ['/'] (segments path).dropLast

def fileName (path : Text) : Text := (segments path).getLastD []

/-- The extension of the file name in small letters, with its dot. A name that starts with its
last dot has none. -/
def extension (path : Text) : Text :=
  match splitLast '.' (fileName path) with
  | some (stem, ext) => if stem = [] then [] else lower ('.' :: ext)
  | none => []

/-- The extensions of text content; every other file is binary. -/
def textExtensions : List Text :=
  [".txt", ".lua", ".gui", ".gfx", ".asset", ".map", ".shader", ".fxh", ".yml", ".csv", ".sfx",
   ".font", ".fnt", ".settings", ".cfg", ".mod", ".json", ".xml", ".sav"]

def isText (path : Text) : Bool := textExtensions.contains (extension path)

/-- Whether `path` is `folder` or lies below it. Nothing but a whole segment counts, and
everything lies below the empty folder. -/
def isWithin (folder path : Text) : Bool :=
  let folder := lower (normalize folder)
  folder == [] ||
    match stripStart? folder (lower (normalize path)) with
    | some rest => rest == [] || rest.head? == some '/'
    | none => false

/-- Equality of paths, ignoring the case of `A` to `Z`. -/
def same (a b : Text) : Bool := Text.same (normalize a) (normalize b)

/-- What stands for the content of a file in its type: a text extension without the dot, else
`txt`. -/
def typeSuffix (path : Text) : Text :=
  if isText path then (extension path).dropWhile (· == '.') else "txt"

/-- The type of the definitions of a file: its directory and a suffix, by default `typeSuffix`.
A blank suffix counts as none. -/
def typeLabel (path : Text) (suffix : Option Text) : Text :=
  let suffix := (suffix.filter (!isBlank ·)).getD (typeSuffix path)
  if directory path = [] then suffix else directory path ++ '/' :: suffix

end GameScript.Path
