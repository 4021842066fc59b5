import GameScript.Path

/-!
# Script settings

Which comments a file uses, and when a file is only checked simply: when it is long, when one
of its lines asks for it, or always.
-/

namespace GameScript

open Text

structure CommentStyle where
  /-- What starts a comment, up to the end of the line. -/
  marker : Text

/-- The comment in a file that is there to blank out the file of another mod. -/
def CommentStyle.emptyFileComment (style : CommentStyle) : Text :=
  style.marker ++ " This mod contains empty code. Possibly to overwrite other mods."

structure ScriptSettings where
  /-- Files of more lines than this are checked simply. -/
  simpleAbove : Option Nat := some 25000
  /-- A line that asks for the simple check. -/
  simpleLine : Option Text := some "# Dear Irony please fallback to simple parser"
  alwaysSimple : Bool := false
  maxLineLength : Nat := 50000
  /-- Comment styles by small extension, with its dot. -/
  commentStyles : List (Text × CommentStyle) :=
    [(".lua", ⟨"--"⟩), (".shader", ⟨"//"⟩), (".fxh", ⟨"//"⟩)]
  defaultStyle : CommentStyle := ⟨"#"⟩

namespace ScriptSettings

/-- Settings that never choose the simple check. -/
def strict : ScriptSettings := { simpleAbove := none, simpleLine := none }

/-- Settings that always choose the simple check. -/
def lenient : ScriptSettings := { alwaysSimple := true }

/-- Gives an extension a comment style, in place of the one it has. -/
def withCommentStyle (s : ScriptSettings) (extension : Text) (style : CommentStyle) :
    ScriptSettings :=
  let extension := lower extension
  { s with commentStyles := s.commentStyles.filter (·.1 ≠ extension) ++ [(extension, style)] }

def commentStyle (s : ScriptSettings) (file : Text) : CommentStyle :=
  ((s.commentStyles.find? (·.1 = Path.extension file)).map (·.2)).getD s.defaultStyle

def marker (s : ScriptSettings) (file : Text) : Text := (s.commentStyle file).marker

def choosesSimple (s : ScriptSettings) (lines : List Text) : Bool :=
  s.alwaysSimple || s.simpleAbove.any (· < lines.length)
    || s.simpleLine.any fun wanted => lines.any (trim · = wanted)

end ScriptSettings

end GameScript
