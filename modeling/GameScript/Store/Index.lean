import GameScript.Definition.Basic
import GameScript.Store.Table

/-!
# Indexes of definitions

A store holds handles: definitions with a number that says which of them are one and the same
object. An index lists handles under keys, each list in the order of adding.
-/

namespace GameScript

structure Handle where
  /-- Handles with the same number are the same object. -/
  number : Nat
  definition : Definition
  deriving DecidableEq

abbrev Index (κ : Type) := Table κ (List Handle)

namespace Index

variable {κ : Type} [DecidableEq κ]

def under (k : κ) (i : Index κ) : List Handle := (i.get? k).getD []

def insert (k : κ) (h : Handle) (i : Index κ) : Index κ :=
  i.alter k fun hs => some (hs.getD [] ++ [h])

/-- Removes an object from under a key, however often it is listed there. -/
def erase (k : κ) (h : Handle) (i : Index κ) : Index κ :=
  i.alter k fun hs =>
    match (hs.getD []).filter (·.number ≠ h.number) with
    | [] => none
    | rest => some rest

end Index

end GameScript
