import GameScript.Extract.File

/-!
# Lua tables as script

Defines in Lua assign either to dotted names, line by line, or to nested tables. Without its
comments and separators such a file is a script. A separator stays where the next brace closes:
there it belongs to a list of values.
-/

namespace GameScript.Lua

open Text

/-- Whether the file nests tables: the first assignment is not to a dotted name. -/
def isNested (lines : List Text) : Bool :=
  match lines.find? (·.contains '=') with
  | some line => ((splitOn '=' line).find? (· ≠ [])).any fun key => !key.contains '.'
  | none => false

def throughLastBrace (t : Text) : Text :=
  match splitLast '}' t with
  | some (before, _) => before ++ ['}']
  | none => []

def isSeparator (c : Char) : Bool := c == ',' || c == ';'

/-- Drops each separator that only white space parts from a closing brace. -/
def dropBeforeClose : Text → Text
  | [] => []
  | c :: cs =>
    if isSeparator c && (trimStart cs).head? == some '}' then dropBeforeClose cs
    else c :: dropBeforeClose cs

/-- Whether there is a next brace and it closes. -/
def closesNext (t : Text) : Bool := t.find? (fun c => c == '{' || c == '}') == some '}'

/-- Drops each separator outside of quotes that belongs to no list. Quotes end with the line. -/
def dropLoose (quoted : Bool) : Text → Text
  | [] => []
  | c :: cs =>
    if isSeparator c && !quoted && !closesNext cs then dropLoose quoted cs
    else c :: dropLoose (if c = '"' then !quoted else c != '\n' && quoted) cs

/-- Drops the first separator after each closing brace that only white space parts from it;
`closed` says whether such a brace is behind. -/
def dropAfterClose (closed : Bool) : Text → Text
  | [] => []
  | c :: cs =>
    if closed && isSeparator c then dropAfterClose false cs
    else c :: dropAfterClose (c == '}' || (closed && isBlankChar c)) cs

def dropLineEnd (line : Text) : Text :=
  if line.getLast?.any isSeparator then line.dropLast else line

/-- Drops the separators that end lines at which just two braces are open, given how many were
opened and closed before. -/
def dropEntryEnds (opened closed : Nat) : List Text → List Text
  | [] => []
  | line :: lines =>
    let opened := opened + line.count '{'
    let closed := closed + line.count '}'
    (if opened = closed + 2 then dropLineEnd line else line) :: dropEntryEnds opened closed lines

/-- The lines of a Lua file as script. In a file of nested tables nothing after the last closing
brace counts. -/
def clean (s : ScriptSettings) (f : SourceFile) : List Text :=
  let nested := isNested f.lines
  let body := if nested then lines (throughLastBrace f.text) else f.lines
  let text := unlines (s.cleanLines f.path body)
  let cleaned := lines (dropAfterClose false (dropLoose false (dropBeforeClose text)))
  if nested then dropEntryEnds 0 0 cleaned else cleaned

end GameScript.Lua
