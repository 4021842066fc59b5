import GameScript.Script.Position
import GameScript.Text.Numeral

/-!
# Tokens of a script

A script is made of braces, operators, words and comments. A word is whatever is none of the
others, a quoted string included. Input that is no token becomes an illegal token with its
cause, and every list of tokens ends with one end of input.
-/

namespace GameScript

open Text

/-- Why input is no token. -/
inductive Illegal where
  | control (c : Char)
  /-- A quote that is never closed, where it was opened. -/
  | unterminated (line column : Nat)
  deriving DecidableEq

def Illegal.message : Illegal → Text
  | control c => "unexpected control character U+" ++ hex4 c.toNat
  | unterminated l c =>
    "unterminated string starting at line " ++ decimal l ++ ", column " ++ decimal c

inductive TokenKind where
  | openBrace
  | closeBrace
  | operator (text : Text)
  /-- A word, with its quotes. -/
  | word (text : Text)
  /-- A comment, without its marker. -/
  | comment (text : Text)
  | endOfInput
  | illegal (cause : Illegal)
  deriving DecidableEq

namespace TokenKind

def name : TokenKind → Text
  | openBrace => "'\x7b'"
  | closeBrace => "'\x7d'"
  | operator t => "operator '" ++ t ++ "'"
  | word t => "'" ++ t ++ "'"
  | comment _ => "comment"
  | endOfInput => "end of input"
  | illegal _ => "invalid input"

def isComment : TokenKind → Bool
  | comment _ => true
  | _ => false

end TokenKind

structure Token where
  kind : TokenKind
  span : Span
  deriving DecidableEq

end GameScript
