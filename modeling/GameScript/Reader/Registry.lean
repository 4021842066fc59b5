import GameScript.Reader.Basic

/-!
# The registry of readers

Of the readers that claim a file, one for the game goes before a general one, and the fallback
reads what nobody claims. Within a family the highest priority wins, and of equal ones the
reader that was registered first.
-/

namespace GameScript

structure Registry where
  /-- The readers for one game, in the order of registration. -/
  game : List Reader := []
  general : List Reader := []
  fallback : Reader

namespace Registry

/-- A registry without readers other than the built-in fallback. -/
def bare (s : ReaderSettings) : Registry := { fallback := BuiltIn.fallback.reader s }

def register (r : Registry) (reader : Reader) : Registry :=
  match reader.family with
  | .game => { r with game := r.game ++ [reader] }
  | .general => { r with general := r.general ++ [reader] }
  | .fallback => { r with fallback := reader }

/-- The registry of all built-in readers. -/
def standard (s : ReaderSettings) : Registry :=
  BuiltIn.all.foldl (fun r b => r.register (b.reader s)) (bare s)

/-- The first reader of the highest priority. -/
def foremost : List Reader → Option Reader
  | [] => none
  | r :: rs =>
    match foremost rs with
    | some best => if r.priority < best.priority then some best else some r
    | none => some r

def choose (rs : List Reader) (c : Candidate) : Option Reader := foremost (rs.filter (·.claims c))

def select (r : Registry) (c : Candidate) : Reader :=
  ((choose r.game c).or (choose r.general c)).getD r.fallback

def readers (r : Registry) : List Reader := r.game ++ r.general ++ [r.fallback]

def names (r : Registry) : List Text := r.readers.map (·.name)

def size (r : Registry) : Nat := r.readers.length

end Registry

end GameScript
