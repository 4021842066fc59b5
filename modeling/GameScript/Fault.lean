import GameScript.Text.Numeral

/-!
# Faults

What can go wrong with a file, a batch or a store, and the wording of each. A `Failure` is a
fault together with the file it was met in, when that is known.
-/

namespace GameScript

open Text

/-- The causes of failure. Lines and columns count from one. -/
inductive Fault where
  /-- The tree of a file cannot be built; `source` is the line of the fault. -/
  | malformed (message : Text) (line column : Nat) (source : Text)
  /-- A check found a defect, perhaps at a known place. -/
  | defective (message : Text) (line column : Option Nat)
  | lineTooLong (line length limit : Nat)
  | cancelled
  | disposed
  deriving DecidableEq

namespace Fault

/-- Lines and columns are reported in 32 bits. -/
def maxPlace : Nat := 4294967295

def line : Fault → Option Nat
  | malformed _ l _ _ => some l
  | defective _ l _ => l
  | lineTooLong l _ _ => some l
  | cancelled | disposed => none

def column : Fault → Option Nat
  | malformed _ _ c _ => some c
  | defective _ _ c => c
  | lineTooLong _ _ limit => some (min (limit + 1) maxPlace)
  | cancelled | disposed => none

/-- The place of a defect, as far as it is known. -/
def place : Option Nat → Option Nat → Text
  | some l, some c => " at " ++ decimal l ++ ":" ++ decimal c
  | some l, none => " at line " ++ decimal l
  | none, _ => []

def describe : Fault → Text
  | malformed m l c _ => "parse error at " ++ decimal l ++ ":" ++ decimal c ++ ": " ++ m
  | defective m l c => "validation error" ++ place l c ++ ": " ++ m
  | lineTooLong l length limit =>
    "line " ++ decimal l ++ " is " ++ decimal length ++ " characters long, the limit is "
      ++ decimal limit
  | cancelled => "operation cancelled"
  | disposed => "definition store has been disposed"

/-- The bare message where the fault carries one, else the description. -/
def message : Fault → Text
  | malformed m _ _ _ => m
  | defective m _ _ => m
  | f => f.describe

/-- Whether the tree could not be built, as opposed to a failed check. -/
def isMalformed : Fault → Bool
  | malformed .. => true
  | _ => false

end Fault

/-- The file and mod a fault was met in. -/
structure Origin where
  file : Text
  modName : Option Text
  deriving DecidableEq

namespace Origin

def ofFile (file modName : Text) : Origin := ⟨file, if modName = [] then none else some modName⟩

def describe (o : Origin) : Text :=
  match o.modName with
  | some m => o.file ++ " (" ++ m ++ ")"
  | none => o.file

end Origin

structure Failure where
  fault : Fault
  origin : Option Origin := none
  deriving DecidableEq

namespace Failure

def describe (f : Failure) : Text :=
  match f.origin with
  | some o => o.describe ++ ": " ++ f.fault.describe
  | none => f.fault.describe

end Failure

instance : Coe Fault Failure := ⟨fun f => ⟨f, none⟩⟩

end GameScript
