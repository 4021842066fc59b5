import GameScript.Text.Basic

/-!
# Positions in a source

A position counts UTF-8 bytes from zero, and lines and columns from one; a column is a
character. A span is a position and the offset where it ends.
-/

namespace GameScript

open Text

structure Position where
  offset : Nat := 0
  line : Nat := 1
  column : Nat := 1
  deriving DecidableEq

namespace Position

def next (p : Position) (c : Char) : Position :=
  if c = '\n' then ⟨p.offset + c.utf8Size, p.line + 1, 1⟩
  else ⟨p.offset + c.utf8Size, p.line, p.column + 1⟩

def advance (p : Position) (t : Text) : Position := t.foldl next p

end Position

structure Span where
  start : Position
  stop : Nat
  deriving DecidableEq

def splitAtOffset : Nat → Text → Text × Text
  | 0, cs => ([], cs)
  | _, [] => ([], [])
  | n + 1, c :: cs =>
    let (before, after) := splitAtOffset (n + 1 - c.utf8Size) cs
    (c :: before, after)

/-- The whole line that a span starts on: from the last line feed before its offset to the next
one after it. -/
def Span.lineText (span : Span) (source : Text) : Text :=
  let (before, after) := splitAtOffset span.start.offset source
  let head :=
    match splitLast '\n' before with
    | some (_, t) => t
    | none => before
  head ++ after.takeWhile (· ≠ '\n')

end GameScript
