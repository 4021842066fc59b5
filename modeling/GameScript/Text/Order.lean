import GameScript.Text.Basic

/-!
# The order of texts

Texts are ordered by code points, the shorter first where one begins the other. `sortBy` is a
stable sort by a text key; a `SortedSet` is kept as its members in strictly increasing order.
-/

namespace GameScript.Text

/-- `a` comes before `b` or is equal to it. -/
def le : Text → Text → Bool
  | [], _ => true
  | _ :: _, [] => false
  | a :: as, b :: bs => a < b || (a == b && le as bs)

/-- Puts `a` before the first entry whose key is not smaller. -/
def insertBy {α : Type} (key : α → Text) (a : α) : List α → List α
  | [] => [a]
  | b :: bs => if le (key a) (key b) then a :: b :: bs else b :: insertBy key a bs

/-- Sorts by key; entries with the same key keep their order. -/
def sortBy {α : Type} (key : α → Text) (as : List α) : List α := as.foldr (insertBy key) []

/-- A set of texts, in increasing order and without repetition. -/
abbrev SortedSet := List Text

namespace SortedSet

def insert (t : Text) : SortedSet → SortedSet
  | [] => [t]
  | u :: us => if t = u then u :: us else if le t u then t :: u :: us else u :: insert t us

def erase (t : Text) (s : SortedSet) : SortedSet := s.filter (· ≠ t)

def ofList (ts : List Text) : SortedSet := ts.foldr insert []

end SortedSet

end GameScript.Text
