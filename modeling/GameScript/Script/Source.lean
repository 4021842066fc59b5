import GameScript.Script.Balance
import GameScript.Script.Settings
import GameScript.Script.Tree

/-!
# Reading a source file

The lines of a file are checked and made into elements. With the simple check the tree is built
tolerantly; without any check too. `cleanLines` drops comments and blank lines without building
a tree.
-/

namespace GameScript

open Text

/-- What came of reading a file, and whether it was read with the simple check. -/
structure Reading where
  outcome : Except Fault (List Element)
  simple : Bool

namespace ScriptSettings

variable (s : ScriptSettings)

/-- The check that comes before the tree, simple if asked for or always. -/
def check (lines : List Text) (file : Text) (simple : Bool) : Except Fault Unit :=
  if simple || s.alwaysSimple then checkBraces (s.marker file) (unlines lines)
  else checkStructure (s.marker file) (unlines lines)

def elementsUnchecked (lines : List Text) (file : Text) : Except Fault (List Element) :=
  parse .tolerant (s.marker file) (unlines lines)

/-- Checks the length of the lines and the structure, then builds the tree. -/
def read (lines : List Text) (file : Text) (simple : Bool) : Reading :=
  let simple := simple || s.alwaysSimple
  let rigour : Rigour := if simple then .tolerant else .strict
  { simple := simple
    outcome :=
      match checkLineLength s.maxLineLength lines with
      | .error e => .error e
      | .ok _ =>
        match s.check lines file simple with
        | .error e => .error e
        | .ok _ => parse rigour (s.marker file) (unlines lines) }

def readUnchecked (lines : List Text) (file : Text) : Reading :=
  ⟨s.elementsUnchecked lines file, true⟩

end ScriptSettings

/-- The part of a line before its first comment outside quotes. -/
def beforeComment (marker : Text) (quoted : Bool) : Text → Text
  | [] => []
  | c :: cs =>
    if c = '"' then c :: beforeComment marker (!quoted) cs
    else if !quoted && Lexer.isCommentAt marker (c :: cs) then []
    else c :: beforeComment marker quoted cs

/-- The lines of a file without comments, blank ends and blank lines. -/
def ScriptSettings.cleanLines (s : ScriptSettings) (file : Text) (lines : List Text) : List Text :=
  (lines.map fun line => trimEnd (beforeComment (s.marker file) false line)).filter (!isBlank ·)

def isLua (file : Text) : Bool := Path.extension file = ".lua"

end GameScript
