import GameScript.Extract.Classify
import GameScript.Reader.Settings
import GameScript.Text.WordChar

/-!
# Localization

Lines such as `KEY:0 "text"` below the header of a locale, each a special variable typed by the
locale and moved to a folder of it, so that the files of one locale meet wherever they lie. The
version after the key is kept, and written as one and the same in the code. One malformed line
makes the file invalid, and the faults of all lines are told.
-/

namespace GameScript

open Text

namespace Localization

def locales : List Text :=
  ["l_default", "l_english", "l_braz_por", "l_french", "l_german", "l_polish", "l_russian",
   "l_simp_chinese", "l_spanish", "l_chinese", "l_traditional_chinese"]

def folder (locale : Text) : Text := (stripStart? "l_" locale).getD locale

def longest? : List Text → Option Text
  | [] => none
  | t :: ts =>
    match longest? ts with
    | some u => if t.length < u.length then some u else some t
    | none => some t

/-- The locale in the name of a file, else that of a folder it lies in. -/
def localeOfFile (file : Text) : Option Text :=
  let file := lower file
  let directories := splitOn '/' (Path.directory file)
  match longest? (locales.filter fun l => (stripEnd? (l ++ ".yml") file).isSome) with
  | some l => some l
  | none => locales.find? fun l => directories.contains (folder l)

/-- The locale that a header line declares. -/
def localeOfHeader (line : Text) : Option Text :=
  locales.find? fun l =>
    same l (line.take l.length) && (trimStart (line.drop l.length)).head? == some ':'

/-- A line without byte order marks in front and without blank ends. -/
def bareLine (raw : Text) : Text := trim (raw.dropWhile (· == '\uFEFF'))

def isSilent (line : Text) : Bool := line == [] || line.head? == some '#'

def isKeyChar (c : Char) : Bool := isWordChar c || c == '\'' || c == '.' || c == '-'

/-- What is wrong with the key of a line; `previous` is the last key that was read. -/
def keyFault (previous line : Text) : Option Text :=
  match splitFirst ':' (condense line) with
  | none => some ("Missing separator near key: " ++ previous ++ ".")
  | some (key, _) =>
    if (trim key).all isKeyChar then none
    else some ("Line contains invalid characters in key: " ++ trim key ++ ".")

/-- The version that is written for every key. -/
def commonVersion : Text := "1000"

/-- The code of a line, with the common version, and the version it had. A line without text
stays as it is, one with a text that is not quoted is malformed. -/
def codeAndVersion (line : Text) : Except Text (Text × Int) :=
  match splitFirst ':' line with
  | none | some ([], _) => .ok (line, 0)
  | some (key, value) =>
    if isBlank value then .ok (line, 0)
    else if !value.contains '"' then
      .error ("Invalid quotes detected near line: " ++ line ++ ".")
    else
      .ok (key ++ ':' :: commonVersion ++ ' ' :: value.dropWhile (· ≠ '"'),
        (readInt32? (trim (value.takeWhile (· ≠ '"')))).getD 0)

end Localization

namespace SourceFile

open GameScript.Localization

variable (f : SourceFile)

def localized (locale code : Text) (version : Int) : Definition :=
  let root := (splitOn '/' f.path).headD []
  let path := root ++ '/' :: folder locale ++ '/' :: f.name
  let id := trim (code.takeWhile (· ≠ ':'))
  let d := (f.draft .specialVariable).setType (Path.typeLabel path (some (locale ++ "-yml")))
  let d := ((d.setVirtualPath (some path)).setCode (locale ++ ":\n " ++ code)).setId id
  { d.addTag id with
    version := version
    shownCode := code
    codeSeparator := some [':']
    codeTag := some locale }

/-- The definition that a bare line makes below the header of a locale. -/
def localizedLine (locale previous line : Text) : Except Text Definition :=
  match keyFault previous line with
  | some message => .error message
  | none => (codeAndVersion line).map fun (code, version) => f.localized locale code version

/-- What the lines make, one by one; `locale` is in effect once there was a header. -/
def localizedLines (locale : Option Text) (previous : Text) :
    List Text → List (Except Text Definition)
  | [] => []
  | raw :: rest =>
    let line := bareLine raw
    if isSilent line then localizedLines locale previous rest
    else
      match localeOfHeader line, locale with
      | some l, _ => localizedLines (some ((localeOfFile f.path).getD l)) previous rest
      | none, none => localizedLines none previous rest
      | none, some l =>
        match f.localizedLine l previous line with
        | .ok d => .ok d :: localizedLines (some l) d.id rest
        | .error message => .error message :: localizedLines (some l) previous rest

def readLocalization : List Definition :=
  let outcomes := f.localizedLines none [] f.lines
  match outcomes.filterMap fun | .error message => some message | .ok _ => none with
  | [] => finishDefinitions false (outcomes.filterMap Except.toOption)
  | messages => [f.invalidDefinition (.defective (unlines messages) none none)]

end SourceFile

end GameScript
