import GameScript.Text.Basic

/-!
# Kinds of definition

The part a definition plays when mods are merged, and the state of a conflict that was settled
and reset.
-/

namespace GameScript

/-- The part a definition plays in a merge. -/
inductive Kind where
  /-- The whole file is one unit. -/
  | wholeFile
  /-- An `@name = value` leaf. -/
  | plainVariable
  /-- A variable whose folder decides its priority. -/
  | specialVariable
  | namespaceKey
  | object
  /-- The last mod wins, object by object. -/
  | overwritten
  | overwrittenKeepingFile
  /-- As `overwritten`, with the whole folder merged into one file. -/
  | overwrittenSingleFile
  | binary
  /-- Content that could not be read. -/
  | invalid
  deriving DecidableEq

namespace Kind

def all : List Kind :=
  [wholeFile, plainVariable, specialVariable, namespaceKey, object, overwritten,
   overwrittenKeepingFile, overwrittenSingleFile, binary, invalid]

def name : Kind → Text
  | wholeFile => "whole-text-file"
  | plainVariable => "variable"
  | specialVariable => "special-variable"
  | namespaceKey => "namespace"
  | object => "object"
  | overwritten => "overwritten-object"
  | overwrittenKeepingFile => "overwritten-object-preserve-file-name"
  | overwrittenSingleFile => "overwritten-object-single-file"
  | binary => "binary"
  | invalid => "invalid"

def isVariable : Kind → Bool
  | plainVariable | specialVariable => true
  | _ => false

def isOverwritten : Kind → Bool
  | overwritten | overwrittenKeepingFile | overwrittenSingleFile => true
  | _ => false

end Kind

/-- Whether a settled conflict was reset, and how it had been settled. -/
inductive ResetState where
  | unset
  | resolved
  | ignored
  deriving DecidableEq

def ResetState.isReset : ResetState → Bool
  | .unset => false
  | .resolved | .ignored => true

end GameScript
