import GameScript.Store.Table
import GameScript.Text.Order

/-!
# Counted keys

A key is known as long as it was added more often than erased. The empty key is never known. A
`KeySet` counts its keys and keeps the known ones at hand.
-/

namespace GameScript

open Text

abbrev KeyCount := Table Text Nat

namespace KeyCount

def add (k : Text) (c : KeyCount) : KeyCount :=
  if k = [] then c else c.alter k fun n => some (n.getD 0 + 1)

/-- Takes one adding of a key back; an unknown key is left alone. -/
def erase (k : Text) (c : KeyCount) : KeyCount :=
  c.alter k fun
    | some (n + 2) => some (n + 1)
    | _ => none

def contains (k : Text) (c : KeyCount) : Bool := (c.get? k).isSome

end KeyCount

structure KeySet where
  counts : KeyCount := []
  known : SortedSet := []

namespace KeySet

/-- Counts a key; one that was not counted before becomes known. -/
def add (k : Text) (s : KeySet) : KeySet :=
  if k = [] then s
  else
    { counts := s.counts.add k
      known := if s.counts.contains k then s.known else SortedSet.insert k s.known }

/-- Takes one adding of a key back; with the last one the key is no longer known. -/
def erase (k : Text) (s : KeySet) : KeySet :=
  if s.counts.contains k then
    let counts := s.counts.erase k
    { counts := counts
      known := if counts.contains k then s.known else SortedSet.erase k s.known }
  else s

def contains (k : Text) (s : KeySet) : Bool := s.counts.contains k

end KeySet

end GameScript
