/-!
# Texts

A text is a list of characters, so that every function on it is a recursion a proof can
follow. Here are the cuts that the rest of the library makes: at blank ends, at a separator,
at line feeds, at the last occurrence of a character.
-/

namespace GameScript

/-- A text, one entry per Unicode scalar value. -/
abbrev Text := List Char

instance : Coe String Text := ⟨String.toList⟩

namespace Text

/-! ## Character classes -/

/-- Whether a character lies in one of the closed ranges of code points. -/
def inRanges (ranges : List (Nat × Nat)) (c : Char) : Bool :=
  ranges.any fun r => r.1 ≤ c.toNat && c.toNat ≤ r.2

/-- The Unicode property White_Space. -/
def blankRanges : List (Nat × Nat) :=
  [(0x09, 0x0D), (0x20, 0x20), (0x85, 0x85), (0xA0, 0xA0), (0x1680, 0x1680), (0x2000, 0x200A),
   (0x2028, 0x2029), (0x202F, 0x202F), (0x205F, 0x205F), (0x3000, 0x3000)]

def isBlankChar (c : Char) : Bool := inRanges blankRanges c

/-- The Unicode category Cc. -/
def isControl (c : Char) : Bool := c.toNat < 0x20 || (0x7F ≤ c.toNat && c.toNat < 0xA0)

def isDigit (c : Char) : Bool := '0' ≤ c && c ≤ '9'

/-! ## Trimming -/

def trimStart (t : Text) : Text := t.dropWhile isBlankChar

def trimEnd (t : Text) : Text := (t.reverse.dropWhile isBlankChar).reverse

def trim (t : Text) : Text := trimEnd (trimStart t)

def isBlank (t : Text) : Bool := t.all isBlankChar

def trimChar (c : Char) (t : Text) : Text :=
  ((t.dropWhile (· == c)).reverse.dropWhile (· == c)).reverse

/-! ## Splitting and joining -/

/-- The pieces between the occurrences of `sep`; there is always one more than occurrences. -/
def splitOn (sep : Char) : Text → List Text
  | [] => [[]]
  | c :: cs =>
    match splitOn sep cs with
    | [] => [[c]]
    | piece :: pieces => if c = sep then [] :: piece :: pieces else (c :: piece) :: pieces

/-- The texts before and after the first `sep`. -/
def splitFirst (sep : Char) : Text → Option (Text × Text)
  | [] => none
  | c :: cs =>
    if c = sep then some ([], cs) else (splitFirst sep cs).map fun (a, b) => (c :: a, b)

/-- The texts before and after the last `sep`. -/
def splitLast (sep : Char) : Text → Option (Text × Text)
  | [] => none
  | c :: cs =>
    match splitLast sep cs with
    | some (a, b) => some (c :: a, b)
    | none => if c = sep then some ([], cs) else none

def join (sep : Text) : List Text → Text
  | [] => []
  | [t] => t
  | t :: ts => t ++ sep ++ join sep ts

/-- Drops one carriage return at the end. -/
def dropReturn (t : Text) : Text := if t.getLast? = some '\r' then t.dropLast else t

/-- Turns the pieces between line feeds into lines: a piece that a line feed ends loses one
carriage return, and an empty last piece is no line. -/
def closeLines : List Text → List Text
  | [] => []
  | [last] => if last = [] then [] else [last]
  | line :: rest => dropReturn line :: closeLines rest

/-- The lines of a text, without their line ends. -/
def lines (t : Text) : List Text := closeLines (splitOn '\n' t)

def unlines (ts : List Text) : Text := join ['\n'] ts

def replaceChar (old : Char) (new : Text) (t : Text) : Text :=
  t.flatMap fun c => if c = old then new else [c]

def stripStart? (affix t : Text) : Option Text := affix.isPrefixOf? t

def stripEnd? (affix t : Text) : Option Text :=
  (affix.reverse.isPrefixOf? t.reverse).map List.reverse

/-- Removes one pair of surrounding double quotes. -/
def unquote : Text → Text
  | '"' :: cs => if cs.getLast? = some '"' then cs.dropLast else '"' :: cs
  | t => t

end Text

end GameScript
