import GameScript.Text.Basic

/-!
# Condensed text

The form of code that is compared: one line, each run of blanks outside quotes written as one
space, and none beside `=`, `{` and `}`. Quoted segments are copied, escapes included.
-/

namespace GameScript.Text

/-- The characters that need no space around them. -/
def isTight (c : Char) : Bool := c == '=' || c == '{' || c == '}'

/-- Where the condenser stands: outside quotes, knowing whether the last character written is
tight and whether blanks were read since; or inside quotes, perhaps after a backslash. -/
inductive Condenser where
  | outside (tight pending : Bool)
  | quoted
  | escaped

def condenseFrom : Condenser → Text → Text
  | _, [] => []
  | .escaped, c :: cs => c :: condenseFrom .quoted cs
  | .quoted, c :: cs =>
    c :: condenseFrom
      (if c = '\\' then .escaped else if c = '"' then .outside false false else .quoted) cs
  | .outside tight pending, c :: cs =>
    if c = ' ' ∨ c = '\t' then condenseFrom (.outside tight true) cs
    else
      (if pending && !isTight c && !tight then [' '] else []) ++
        c :: condenseFrom (if c = '"' then .quoted else .outside (isTight c) false) cs

/-- Collapses the blanks of a trimmed text. -/
def condense (t : Text) : Text := condenseFrom (.outside false false) (trim t)

/-- The trimmed lines that are not blank, joined by single spaces. -/
def singleLine (code : Text) : Text :=
  join [' '] (((lines code).map trim).filter (· ≠ []))

end GameScript.Text
