import GameScript.Text.Case

/-!
# Script elements

A script is a list of elements. A leaf is a bare key or a key with an operator and a value; a
block has a braced body. Keys and values keep their quotes, and keys are looked up without
regard to the case of `A` to `Z`.
-/

namespace GameScript

open Text

inductive Element where
  | leaf (key : Text) (operator value : Option Text)
  /-- A block; an anonymous one has the empty key. -/
  | block (key : Text) (operator : Option Text) (children : List Element)

namespace Element

mutual

def decEq : (a b : Element) → Decidable (a = b)
  | leaf k o v, leaf k' o' v' => decidable_of_iff (k = k' ∧ o = o' ∧ v = v') (by simp)
  | block k o es, block k' o' es' =>
    have := decEqList es es'
    decidable_of_iff (k = k' ∧ o = o' ∧ es = es') (by simp)
  | leaf .., block .. => isFalse (by simp)
  | block .., leaf .. => isFalse (by simp)

def decEqList : (as bs : List Element) → Decidable (as = bs)
  | [], [] => isTrue rfl
  | a :: as, b :: bs =>
    have := decEq a b
    have := decEqList as bs
    decidable_of_iff (a = b ∧ as = bs) (by simp)
  | [], _ :: _ => isFalse (by simp)
  | _ :: _, [] => isFalse (by simp)

end

instance : DecidableEq Element := decEq

def key : Element → Text
  | leaf k _ _ => k
  | block k _ _ => k

def operator : Element → Option Text
  | leaf _ o _ => o
  | block _ o _ => o

def value : Element → Option Text
  | leaf _ _ v => v
  | block .. => none

def unquotedValue (e : Element) : Option Text := e.value.map unquote

def children : Element → List Element
  | leaf .. => []
  | block _ _ es => es

def isLeaf : Element → Bool
  | leaf .. => true
  | block .. => false

/-- Whether the element is a leaf keyed with an at sign. -/
def isVariable (e : Element) : Bool := e.isLeaf && e.key.head? == some '@'

def isAnonymous (e : Element) : Bool := !e.isLeaf && e.key == []

def hasKey (key : Text) (e : Element) : Bool := same e.key key

def child? (e : Element) (key : Text) : Option Element := e.children.find? (·.hasKey key)

/-- The unquoted value of the first leaf child with the key. -/
def childValue? (e : Element) (key : Text) : Option Text :=
  (e.children.find? fun c => c.isLeaf && c.hasKey key).bind unquotedValue

/-- The keywords of blocks that stand as a value, as in a colour. -/
def inlineKeywords : List Text := ["hsv", "rgb"]

def isInlineKeyword (t : Text) : Bool := inlineKeywords.any (same · t)

end Element

end GameScript
