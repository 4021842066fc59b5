import GameScript.Store.Index

/-!
# A trie of tags

The objects with a tag are listed at the node that its characters lead to, from the root on. What
begins with a term is then all that lies below the node of the term. A node that lists nothing and
leads nowhere is cut off when the last object below it is removed.
-/

namespace GameScript

open Text

inductive TagTrie where
  /-- Branches are kept in the order of their characters. -/
  | node (entries : List Handle) (branches : List (Char × TagTrie))

namespace TagTrie

def entries : TagTrie → List Handle
  | node hs _ => hs

def branches : TagTrie → Table Char TagTrie
  | node _ bs => bs

def empty : TagTrie := node [] []

def isEmpty (n : TagTrie) : Bool := n.entries.isEmpty && n.branches.isEmpty

/-- Replaces the branch of a character, or adds one in its place. -/
def setBranch (c : Char) (n : TagTrie) : List (Char × TagTrie) → List (Char × TagTrie)
  | [] => [(c, n)]
  | (d, m) :: bs =>
    if c = d then (c, n) :: bs
    else if c < d then (c, n) :: (d, m) :: bs
    else (d, m) :: setBranch c n bs

/-- Adds an object to a list, unless it is in it. -/
def take (seen : List Handle) (h : Handle) : List Handle :=
  if seen.any (·.number = h.number) then seen else seen ++ [h]

/-- Lists an object at the end of a path, unless it is listed there. -/
def addAt (h : Handle) : Text → TagTrie → TagTrie
  | [], n => node (take n.entries h) n.branches
  | c :: cs, n =>
    node n.entries (setBranch c (addAt h cs ((n.branches.get? c).getD empty)) n.branches)

def insert (h : Handle) (n : TagTrie) : TagTrie :=
  h.definition.tags.foldl (fun n tag => n.addAt h tag) n

/-- Removes an object from the end of a path, and the branches that become empty. -/
def eraseAt (h : Handle) : Text → TagTrie → TagTrie
  | [], n => node (n.entries.filter (·.number ≠ h.number)) n.branches
  | c :: cs, n =>
    match n.branches.get? c with
    | none => n
    | some m =>
      let m := eraseAt h cs m
      node n.entries (if m.isEmpty then n.branches.erase c else setBranch c m n.branches)

def erase (h : Handle) (n : TagTrie) : TagTrie :=
  h.definition.tags.foldl (fun n tag => n.eraseAt h tag) n

def node? : Text → TagTrie → Option TagTrie
  | [], n => some n
  | c :: cs, n => (n.branches.get? c).bind (node? cs)

mutual

/-- Takes every object below a node that was not seen yet. -/
def collect (seen : List Handle) : TagTrie → List Handle
  | node hs bs => collectAll (hs.foldl take seen) bs

def collectAll (seen : List Handle) : List (Char × TagTrie) → List Handle
  | [] => seen
  | (_, n) :: bs => collectAll (collect seen n) bs

end

/-- The objects with a tag that begins with the term, which is trimmed and lowercased. An empty
term finds nothing. -/
def search (term : Text) (n : TagTrie) : List Handle :=
  let term := lower (trim term)
  if term = [] then [] else (n.node? term).elim [] (collect [])

end TagTrie

end GameScript
