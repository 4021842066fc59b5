import GameScript.Definition.Basic
import GameScript.Script.Source

/-!
# Files to extract from

A file is its logical path, its lines and what is known of its mod. `SourceFile.elements` builds
its tree as its kind of checking says. A strictly read file whose tree cannot be built is read
once more, simply; a failed check is final.
-/

namespace GameScript

open Text

inductive Checking where
  /-- The full check, or the simple one where the file chooses it. -/
  | full
  | simple
  | skipped
  deriving DecidableEq

structure SourceFile where
  path : Text
  lines : List Text
  modName : Text := []
  dependencies : List Text := []
  /-- The hash of the raw content. -/
  contentHash : Text := []
  checking : Checking := .full
  isFromGame : Bool := false

/-- The elements of a file, and whether they were read simply. -/
structure FileTree where
  elements : List Element
  simple : Bool

namespace SourceFile

def ofLines (path : Text) (lines : List Text) : SourceFile :=
  { path := Path.normalize path, lines := lines }

def name (f : SourceFile) : Text := Path.fileName f.path

def directory (f : SourceFile) : Text := Path.directory f.path

def origin (f : SourceFile) : Origin := .ofFile f.path f.modName

def text (f : SourceFile) : Text := unlines f.lines

def parsed (s : ScriptSettings) (f : SourceFile) : Except Fault FileTree :=
  let attempt (r : Reading) : Except Fault FileTree := r.outcome.map fun es => ⟨es, r.simple⟩
  match f.checking with
  | .skipped => attempt (s.readUnchecked f.lines f.path)
  | .simple => attempt (s.read f.lines f.path true)
  | .full =>
    let first := s.read f.lines f.path (s.choosesSimple f.lines)
    match first.outcome with
    | .error fault =>
      if fault.isMalformed && !first.simple then
        (s.read f.lines f.path true).outcome.map fun es => ⟨es, true⟩
      else .error fault
    | .ok es => .ok ⟨es, first.simple⟩

/-- The elements, or the failure with the file as its origin. -/
def elements (s : ScriptSettings) (f : SourceFile) : Except Failure FileTree :=
  (f.parsed s).mapError fun fault => ⟨fault, some f.origin⟩

end SourceFile

end GameScript
