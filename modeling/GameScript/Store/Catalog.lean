import GameScript.Store.KeyCount
import GameScript.Store.Outline
import GameScript.Store.TagTrie

/-!
# The catalog of a store

The stored definitions in the order of adding, with an index for each thing that they are looked
up by, the known keys, the outline, and the tags once a search was asked for. `insert` and
`erase?` keep all of them in step.
-/

namespace GameScript

open Text

structure Entry where
  handle : Handle
  /-- Whether the definition was put into the outline. -/
  outlined : Bool

structure Catalog where
  entries : List Entry := []
  /-- Whether definitions are put into the outline. -/
  keepsOutline : Bool := true
  byFile : Index Text := []
  byDiskFile : Index Text := []
  byDirectory : Index Text := []
  byType : Index Text := []
  byTypeAndId : Index Text := []
  byKind : Index Kind := []
  files : KeySet := {}
  types : KeySet := {}
  typeAndIds : KeySet := {}
  directories : KeySet := {}
  outline : Outline := []
  tags : Option TagTrie := none
  /-- How many definitions come from the game. -/
  fromGame : Nat := 0
  /-- A number that no handle has yet. -/
  next : Nat := 0

/-- What a path is looked up by. -/
def pathKey (path : Text) : Text := lower (Path.normalize path)

namespace Definition

def typeKey (d : Definition) : Text := lower d.type

/-- The names that a definition makes known as files. -/
def fileKeys (d : Definition) : SortedSet :=
  SortedSet.ofList (d.fileKey :: d.diskFileKey.toList ++ (d.aliases .overwritten).map pathKey)

end Definition

namespace Catalog

/-- Adds a handle. It is left out of the outline when `hidden` or when none is kept. -/
def insert (c : Catalog) (h : Handle) (hidden : Bool) : Catalog :=
  let d := h.definition
  let outlined := c.keepsOutline && !hidden
  { c with
    entries := c.entries ++ [⟨h, outlined⟩]
    byFile := c.byFile.insert d.fileKey h
    byDiskFile := d.diskFileKey.elim c.byDiskFile (c.byDiskFile.insert · h)
    byDirectory := c.byDirectory.insert d.directoryKey h
    byType := c.byType.insert d.typeKey h
    byTypeAndId := c.byTypeAndId.insert d.typeAndId h
    byKind := c.byKind.insert d.kind h
    files := d.fileKeys.foldl (fun ks k => ks.add k) c.files
    types := c.types.add d.typeKey
    typeAndIds := c.typeAndIds.add d.typeAndId
    directories := c.directories.add d.directoryKey
    outline := if outlined then c.outline.insert d else c.outline
    tags := c.tags.map (·.insert h)
    fromGame := if d.isFromGame then c.fromGame + 1 else c.fromGame
    next := max c.next (h.number + 1) }

def add (c : Catalog) (d : Definition) (hidden : Bool) : Catalog := c.insert ⟨c.next, d⟩ hidden

/-- Takes the first entry of an object out, and the object out of every index. -/
def drop (c : Catalog) (e : Entry) : Catalog :=
  let h := e.handle
  let d := h.definition
  { c with
    entries := c.entries.eraseP (·.handle.number = h.number)
    byFile := c.byFile.erase d.fileKey h
    byDiskFile := d.diskFileKey.elim c.byDiskFile (c.byDiskFile.erase · h)
    byDirectory := c.byDirectory.erase d.directoryKey h
    byType := c.byType.erase d.typeKey h
    byTypeAndId := c.byTypeAndId.erase d.typeAndId h
    byKind := c.byKind.erase d.kind h
    files := d.fileKeys.foldl (fun ks k => ks.erase k) c.files
    types := c.types.erase d.typeKey
    typeAndIds := c.typeAndIds.erase d.typeAndId
    directories := c.directories.erase d.directoryKey
    outline := if e.outlined then (c.outline.erase? d).getD c.outline else c.outline
    tags := c.tags.map (·.erase h)
    fromGame := if d.isFromGame then c.fromGame - 1 else c.fromGame }

def erase? (c : Catalog) (d : Definition) : Option Catalog := do
  let h ← (c.byTypeAndId.under d.typeAndId).find? (·.definition = d)
  let e ← c.entries.find? (·.handle.number = h.number)
  return c.drop e

/-- Lists the tags of every stored definition. -/
def indexTags (c : Catalog) : Catalog :=
  { c with tags := some (c.entries.foldl (fun n e => n.insert e.handle) .empty) }

def definitions (c : Catalog) : List Definition := c.entries.map (·.handle.definition)

end Catalog

end GameScript
