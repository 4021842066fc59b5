import GameScript.Reader.Defines
import GameScript.Reader.Files
import GameScript.Reader.Localization
import GameScript.Reader.Objects
import GameScript.Script.Lexer

/-!
# Readers

A reader says which files it claims and turns a file into definitions. It never fails: a file
that cannot be read becomes one invalid definition. Built-in readers claim by path, some by
content as well.
-/

namespace GameScript

open Text

/-- What a claim is decided on. -/
structure Candidate where
  file : Text
  game : Game
  lines : List Text := []

structure Reader where
  name : Text
  family : Family
  priority : Int := 1
  claims : Candidate → Bool
  read : SourceFile → List Definition

/-! ## Claims by content -/

/-- Whether tokens after a key make it a leaf with a value that is not blank. -/
def givesValue : List TokenKind → Bool
  | .operator _ :: .word value :: rest =>
    rest.head? != some .openBrace && !isBlank (unquote value)
  | _ => false

/-- Whether, at this depth of braces, a block at the top level has a generic key with a
value. -/
def hasGenericLeaf (depth : Nat) : List TokenKind → Bool
  | [] => false
  | .openBrace :: ts => hasGenericLeaf (depth + 1) ts
  | .closeBrace :: ts => hasGenericLeaf (depth - 1) ts
  | .word key :: ts =>
    (depth == 1 && isGenericKey key && givesValue ts) || hasGenericLeaf depth ts
  | _ :: ts => hasGenericLeaf depth ts

/-- Whether some object in the lines is named by a generic key, as far as their tokens tell. -/
def namesByGenericKey (lines : List Text) : Bool :=
  hasGenericLeaf 0 (((tokens ['#'] (unlines lines)).map (·.kind)).filter (!·.isComment))

/-! ## The built-in readers -/

namespace BuiltIn

def claimsFile (s : ReaderSettings) (b : BuiltIn) (c : Candidate) : Bool :=
  match b with
  | fallback => true
  | binary => !Path.isText c.file
  | keyed => Path.isText c.file && namesByGenericKey c.lines
  | wholeFile =>
    (s.files wholeFile).contains c.file
      || (Path.isWithin "sound" c.file && Path.isText c.file)
      || Path.same (Path.directory c.file) "common"
  | b => (s.files b).contains c.file

def claims (s : ReaderSettings) (b : BuiltIn) (c : Candidate) : Bool :=
  b.game?.all (· == c.game) && b.claimsFile s c

def read (s : ReaderSettings) (b : BuiltIn) (f : SourceFile) : List Definition :=
  match b with
  | stellarisOverwritten => f.readOverwritten s
  | stellarisKeptFileName => f.readKeptFileName s
  | stellarisSingleFile => f.readSingleFile s
  | stellarisScriptedVariables => f.readScriptedVariables s
  | stellarisWholeFile | hoi4WholeFile | wholeFile => f.readWholeFile s
  | stellarisFlags => f.readFlags s
  | stellarisComponentTags => f.readComponentTags s
  | stellarisTerraform => f.readTerraform s
  | stellarisInitializers => f.readInitializers s
  | hoi4Keyed => f.readInnerKeyed s
  | hoi4InnerLayer => f.readInnerLayer s
  | hoi4KeyValues => f.readKeyValues s
  | graphics => f.readGraphics s
  | defines => f.readDefines s
  | localization => f.readLocalization
  | binary => f.readBinary
  | keyed => f.readKeyed s
  | fallback => f.readObjects s

def reader (s : ReaderSettings) (b : BuiltIn) : Reader where
  name := b.name
  family := b.family
  priority := b.priority
  claims := b.claims s
  read := b.read s

end BuiltIn

end GameScript
