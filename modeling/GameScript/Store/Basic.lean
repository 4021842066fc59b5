import GameScript.Fault
import GameScript.Store.Catalog

/-!
# The store of definitions

A store answers look-ups until it is disposed. After that it is empty for every reader, and every
change is refused.
-/

namespace GameScript

open Text

structure Store where
  /-- Nothing once the store is disposed. -/
  catalog? : Option Catalog := some {}

namespace Store

/-! ## Changes -/

def change (s : Store) (f : Catalog → Catalog) : Except Fault Store :=
  match s.catalog? with
  | some c => .ok ⟨some (f c)⟩
  | none => .error .disposed

/-- A change that need not apply; the answer says whether it did. -/
def changeIf (s : Store) (f : Catalog → Option Catalog) : Except Fault (Store × Bool) :=
  match s.catalog? with
  | some c => .ok (match f c with | some c => (⟨some c⟩, true) | none => (s, false))
  | none => .error .disposed

/-- Adds a handle, which may be stored already. -/
def insert (s : Store) (h : Handle) (hidden : Bool) : Except Fault Store :=
  s.change (·.insert h hidden)

def add (s : Store) (d : Definition) (hidden : Bool) : Except Fault Store :=
  s.change (·.add d hidden)

/-- Adds definitions, and says whether an outline is kept from now on. -/
def addAll (s : Store) (ds : List Definition) (keepsOutline : Bool) : Except Fault Store :=
  s.change fun c => ds.foldl (·.add · false) { c with keepsOutline := keepsOutline }

def remove (s : Store) (d : Definition) : Except Fault (Store × Bool) := s.changeIf (·.erase? d)

/-- Makes the store searchable by tags. -/
def startSearch (s : Store) : Except Fault Store := s.change (·.indexTags)

/-- Gives the topic of a definition in the outline the reset state of the definition. -/
def setReset (s : Store) (d : Definition) : Except Fault (Store × Bool) :=
  s.changeIf fun c => (c.outline.setReset? d d.reset).map fun o => { c with outline := o }

def dispose (_ : Store) : Store := ⟨none⟩

/-! ## Look-ups -/

def isDisposed (s : Store) : Bool := s.catalog?.isNone

/-- The catalog, empty when the store is disposed. -/
def catalog (s : Store) : Catalog := s.catalog?.getD {}

def definitions (s : Store) : List Definition := s.catalog.definitions

def size (s : Store) : Nat := s.definitions.length

def isEmpty (s : Store) : Bool := s.size = 0

def under {κ : Type} [DecidableEq κ] (i : Index κ) (k : κ) : List Definition :=
  (i.under k).map (·.definition)

def byFile (s : Store) (file : Text) : List Definition := under s.catalog.byFile (pathKey file)

def byDiskFile (s : Store) (file : Text) : List Definition :=
  under s.catalog.byDiskFile (pathKey file)

def byDirectory (s : Store) (directory : Text) : List Definition :=
  under s.catalog.byDirectory (pathKey directory)

def byType (s : Store) (type : Text) : List Definition := under s.catalog.byType (lower type)

/-- Case counts here. -/
def byTypeAndId (s : Store) (typeAndId : Text) : List Definition :=
  under s.catalog.byTypeAndId typeAndId

def byKind (s : Store) (kind : Kind) : List Definition := under s.catalog.byKind kind

/-- Whether a file is known, also as a disk file or as an overwritten one. -/
def hasFile (s : Store) (file : Text) : Bool := s.catalog.files.contains (pathKey file)

def hasGameDefinitions (s : Store) : Bool := 0 < s.catalog.fromGame

def hasReset (s : Store) : Bool := s.catalog.outline.hasReset

def files (s : Store) : SortedSet := s.catalog.files.known

def types (s : Store) : SortedSet := s.catalog.types.known

def typeAndIds (s : Store) : SortedSet := s.catalog.typeAndIds.known

def directories (s : Store) : SortedSet := s.catalog.directories.known

def outline (s : Store) : List Node := s.catalog.outline.nodes

/-- The definitions with a tag that begins with the term; none before the search was started. -/
def search (s : Store) (term : Text) : List Definition :=
  (s.catalog.tags.elim [] (·.search term)).map (·.definition)

end Store

end GameScript
