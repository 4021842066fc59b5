import GameScript.Path

/-!
# Sets of paths

A reader claims the files of a set, which is described by folders, directories, single files
and extensions. Nothing in it depends on case.
-/

namespace GameScript

structure PathSet where
  /-- With everything below them. -/
  folders : List Text := []
  /-- With the files directly in them. -/
  directories : List Text := []
  files : List Text := []
  /-- With their dots. -/
  extensions : List Text := []

namespace PathSet

def contains (s : PathSet) (file : Text) : Bool :=
  s.folders.any (Path.isWithin · file)
    || s.files.any (Path.same file)
    || s.directories.any (Path.same (Path.directory file))
    || s.extensions.any (Text.same · (Path.extension file))

def isEmpty (s : PathSet) : Bool :=
  s.folders.isEmpty && s.directories.isEmpty && s.files.isEmpty && s.extensions.isEmpty

end PathSet

end GameScript
