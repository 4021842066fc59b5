import GameScript.Reader.Registry
import GameScript.Store.Basic

/-!
# Taking files in

Files are read one after the other by the readers that a registry selects, into a list or into a
store. A batch that is cancelled fails at its first file.
-/

namespace GameScript

/-- A file and the game it is for. -/
structure GameFile where
  source : SourceFile
  game : Game

def GameFile.candidate (f : GameFile) : Candidate := ⟨f.source.path, f.game, f.source.lines⟩

namespace Registry

variable (r : Registry)

def read (f : GameFile) : List Definition :=
  let chosen := r.select f.candidate
  (chosen.read f.source).map ({ · with reader := some chosen.name })

def readAll (cancelled : Bool) : List GameFile → Except Failure (List Definition)
  | [] => .ok []
  | f :: fs =>
    if cancelled then .error ⟨.cancelled, some f.source.origin⟩
    else (readAll cancelled fs).map (r.read f ++ ·)

def addEach (store : Store) : List Definition → Except Fault Store
  | [] => .ok store
  | d :: ds =>
    match store.add d false with
    | .ok store => addEach store ds
    | .error fault => .error fault

def readInto (cancelled : Bool) (store : Store) : List GameFile → Except Failure Store
  | [] => .ok store
  | f :: fs =>
    if cancelled then .error ⟨.cancelled, some f.source.origin⟩
    else
      match addEach store (r.read f) with
      | .ok store => readInto cancelled store fs
      | .error fault => .error ⟨fault, some f.source.origin⟩

end Registry

end GameScript
