import GameScript.Fault
import GameScript.Script.Lexer

/-!
# Checks before a tree is built

The full check goes over the tokens and finds illegal input and unbalanced braces. The simple
one only looks at braces, line by line: a quote starts or ends quoted text on its line, whatever
stands before it. Both report the first closing brace that closes nothing, else the first
opening brace that is never closed. Lines may not be longer than a limit.
-/

namespace GameScript

open Text

namespace Balance

abbrev Place := Nat × Nat

def faultAt (message : Text) (place : Place) : Fault :=
  .defective message (some place.1) (some place.2)


/-! ## Lines -/

/-- The first line beyond the limit is a fault; `number` is that of the first line. -/
def checkLength (limit : Nat) (number : Nat) : List Text → Except Fault Unit
  | [] => .ok ()
  | line :: rest =>
    if limit < line.length then .error (.lineTooLong number line.length limit)
    else checkLength limit (number + 1) rest

/-! ## The full check -/

/-- Checks tokens; `opened` are the places of the open braces, innermost first. -/
def checkTokens (opened : List Place) : List Token → Except Fault Unit
  | [] =>
    match opened.getLast? with
    | some place => .error (faultAt "opening bracket is never closed" place)
    | none => .ok ()
  | t :: ts =>
    let place := (t.span.start.line, t.span.start.column)
    match t.kind with
    | .illegal cause => .error (faultAt cause.message place)
    | .openBrace => checkTokens (place :: opened) ts
    | .closeBrace =>
      match opened with
      | [] => .error (faultAt "unexpected closing bracket" place)
      | _ :: outer => checkTokens outer ts
    | _ => checkTokens opened ts

/-! ## The simple check -/

/-- Reads the braces of a line from a column on. What is left are the open braces, or the place
of a closing brace without one. -/
def scanLine (marker : Text) (number column : Nat) (quoted : Bool) (opened : List Place) :
    Text → Except Place (List Place)
  | [] => .ok opened
  | c :: cs =>
    if !quoted && Lexer.isCommentAt marker (c :: cs) then .ok opened
    else if c = '"' then scanLine marker number (column + 1) (!quoted) opened cs
    else if quoted then scanLine marker number (column + 1) quoted opened cs
    else if c = '{' then
      scanLine marker number (column + 1) quoted ((number, column) :: opened) cs
    else if c = '}' then
      match opened with
      | [] => .error (number, column)
      | _ :: outer => scanLine marker number (column + 1) quoted outer cs
    else scanLine marker number (column + 1) quoted opened cs

def scanLines (marker : Text) (number : Nat) (opened : List Place) :
    List Text → Except Place (List Place)
  | [] => .ok opened
  | line :: rest =>
    match scanLine marker number 1 false opened line with
    | .ok opened => scanLines marker (number + 1) opened rest
    | .error place => .error place

end Balance

open Balance

/-- Rejects the first line of more than `limit` characters. -/
def checkLineLength (limit : Nat) (lines : List Text) : Except Fault Unit :=
  checkLength limit 1 lines

/-- Rejects illegal input and unbalanced braces, as the tokens have them. -/
def checkStructure (marker source : Text) : Except Fault Unit :=
  checkTokens [] (tokens marker source)

/-- Rejects unbalanced braces, as the lines have them. -/
def checkBraces (marker source : Text) : Except Fault Unit :=
  let mismatch := faultAt "open and close curly brackets do not match"
  match scanLines marker 1 [] (lines source) with
  | .error place => .error (mismatch place)
  | .ok opened =>
    match opened.getLast? with
    | some place => .error (mismatch place)
    | none => .ok ()

end GameScript
