import GameScript.Extract.Classify
import GameScript.Reader.Settings

/-!
# Readers of files without structure

Files that are compared as a whole, and lists with one tag a line.
-/

namespace GameScript.SourceFile

open Text

variable (s : ReaderSettings) (f : SourceFile)

def readWholeFile : List Definition := finishDefinitions false [f.wholeDefinition s.script true]

def readBinary : List Definition := finishDefinitions false [f.binaryDefinition]

/-- Images are binary, lists of flags and colors are whole files. -/
def readFlags : List Definition :=
  finishDefinitions false
    [if Path.isText f.path then f.wholeDefinition s.script false else f.binaryDefinition]

/-- Every line is a variable. -/
def readComponentTags : List Definition :=
  let tags := ((s.script.cleanLines f.path f.lines).map trim).filter (· ≠ [])
  finishDefinitions false (tags.map fun tag => f.simpleDefinition .plainVariable tag tag tag)

end GameScript.SourceFile
