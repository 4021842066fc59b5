import GameScript.Reader.BuiltIn
import GameScript.Script.Settings

/-!
# Reader settings

What the built-in readers are told: how scripts are read, which files each of them claims, and
two rules of folders that are merged into a single file.
-/

namespace GameScript

open Text

structure ReaderSettings where
  script : ScriptSettings := {}
  /-- The files that a reader claims by their path. -/
  files : BuiltIn → PathSet := BuiltIn.defaultFiles
  /-- Directories with an id that may occur again in them. -/
  repeatable : List (Text × Text) := [("common/ethics", "ethic_categories")]
  /-- Directories with a key: blocks whose children all have the key are concatenated. -/
  flatMerges : List (Text × Text) := []

namespace ReaderSettings

/-- Replaces the files that one reader claims. -/
def withFiles (s : ReaderSettings) (b : BuiltIn) (files : PathSet) : ReaderSettings :=
  { s with files := fun c => if c = b then files else s.files c }

/-- Whether an id may occur again in a directory. -/
def allowsDuplicate (s : ReaderSettings) (directory id : Text) : Bool :=
  s.repeatable.any fun (d, i) => Path.same d directory && same i id

/-- The keys whose blocks are concatenated in a directory. -/
def flatMergeKeys (s : ReaderSettings) (directory : Text) : List Text :=
  (s.flatMerges.filter fun m => Path.same m.1 directory).map (·.2)

end ReaderSettings

end GameScript
