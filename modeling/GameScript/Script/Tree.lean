import GameScript.Fault
import GameScript.Script.Element
import GameScript.Script.Lexer

/-!
# From tokens to elements

Elements are read by recursive descent, comments aside. A strict reading stops at the first token
out of place. A tolerant one skips stray operators, closing braces and illegal tokens, takes an
operator without a value, and closes what is open at the end; only depth stops it.
-/

namespace GameScript

open Text

/-- What is done with tokens out of place. -/
inductive Rigour where
  | strict
  | tolerant
  deriving DecidableEq

/-- Why tokens make no tree. -/
inductive Misfit where
  | unclosedBlock
  | strayClosing
  | strayOperator (operator : Text)
  | illegal (cause : Illegal)
  | tooDeep
  | missingValue (operator : Text) (found : TokenKind)
  deriving DecidableEq

def Misfit.message : Misfit → Text
  | unclosedBlock => "block is never closed"
  | strayClosing => "unexpected '\x7d'"
  | strayOperator op => "unexpected operator '" ++ op ++ "'"
  | illegal cause => cause.message
  | tooDeep => "blocks are nested too deeply"
  | missingValue op found => "expected a value after '" ++ op ++ "', found " ++ found.name

namespace Tree

/-- A misfit and the token it is laid to. -/
structure Misplaced where
  misfit : Misfit
  span : Span
  deriving DecidableEq

/-- Blocks nest at most this deep. -/
def maxDepth : Nat := 256

/-- What was read from the front of `ts`, and the tokens after it. -/
structure Reading (α : Type) (ts : List Token) where
  value : α
  rest : List Token
  isSuffix : rest <:+ ts

namespace Reading

variable {α β : Type} {ts us : List Token}

def within (x : Reading α us) (h : us <:+ ts) : Reading α ts :=
  ⟨x.value, x.rest, x.isSuffix.trans h⟩

def map (f : α → β) (x : Reading α ts) : Reading β ts := ⟨f x.value, x.rest, x.isSuffix⟩

end Reading

def skipComments (ts : List Token) : List Token := ts.dropWhile (·.kind.isComment)

theorem skipComments_suffix (ts : List Token) : skipComments ts <:+ ts := List.dropWhile_suffix _

/-- Takes the brace that closes a block, if there is one. -/
def dropClosing : List Token → List Token
  | [] => []
  | t :: ts => if t.kind = .closeBrace then ts else t :: ts

theorem dropClosing_suffix (ts : List Token) : dropClosing ts <:+ ts := by
  cases ts with
  | nil => exact List.suffix_rfl
  | cons t ts =>
    rw [dropClosing]
    split
    · exact List.suffix_cons t ts
    · exact List.suffix_rfl

/-- Passes over a token that begins no element, or stops at it. -/
def passOver (rigour : Rigour) (t : Token) : Except Misplaced Unit :=
  match rigour, t.kind with
  | .strict, .closeBrace => .error ⟨.strayClosing, t.span⟩
  | .strict, .operator op => .error ⟨.strayOperator op, t.span⟩
  | .strict, .illegal cause => .error ⟨.illegal cause, t.span⟩
  | _, _ => .ok ()

/-- Stops at the end of the input, if a block must be closed. -/
def closeAtEnd (rigour : Rigour) (opened : Option Span) : Except Misplaced Unit :=
  match rigour, opened with
  | .strict, some span => .error ⟨.unclosedBlock, span⟩
  | _, _ => .ok ()

/-- Why there is no value at the front of the tokens, after an operator at `operatorSpan`. -/
def lackOfValue (operator : Text) (operatorSpan : Span) : List Token → Misplaced
  | [] => ⟨.missingValue operator .endOfInput, operatorSpan⟩
  | found :: _ =>
    match found.kind with
    | .illegal cause => ⟨.illegal cause, found.span⟩
    | kind => ⟨.missingValue operator kind, operatorSpan⟩

mutual

/-- Reads elements up to the end of the input, or of the block opened at `opened`. Those before,
latest first, are `done`. -/
def readElements (rigour : Rigour) (opened : Option Span) (depth : Nat) (done : List Element) :
    (ts : List Token) → Except Misplaced (Reading (List Element) ts)
  | [] => do
    closeAtEnd rigour opened
    return ⟨done.reverse, [], List.suffix_rfl⟩
  | t :: ts =>
    match t.kind, opened with
    | .endOfInput, opened => do
      closeAtEnd rigour opened
      return ⟨done.reverse, t :: ts, List.suffix_rfl⟩
    | .closeBrace, some _ => return ⟨done.reverse, t :: ts, List.suffix_rfl⟩
    | .openBrace, opened => do
      let body ← readBody rigour depth t.span ts
      let all ← readElements rigour opened depth (.block [] none body.value :: done) body.rest
      return all.within (body.isSuffix.trans (List.suffix_cons t ts))
    | .word key, opened => do
      let e ← readKeyed rigour depth key (skipComments ts)
      let all ← readElements rigour opened depth (e.value :: done) e.rest
      return all.within ((e.isSuffix.trans (skipComments_suffix ts)).trans (List.suffix_cons t ts))
    | _, opened => do
      passOver rigour t
      let all ← readElements rigour opened depth done ts
      return all.within (List.suffix_cons t ts)
termination_by ts => 2 * ts.length
decreasing_by
  · grind
  · have := body.isSuffix.length_le
    grind
  · have := (skipComments_suffix ts).length_le
    grind
  · have := (skipComments_suffix ts).length_le
    have := e.isSuffix.length_le
    grind
  · grind

/-- Reads the body of a block after its opening brace, and takes the closing one. -/
def readBody (rigour : Rigour) (depth : Nat) (opened : Span) (ts : List Token) :
    Except Misplaced (Reading (List Element) ts) :=
  if maxDepth ≤ depth then .error ⟨.tooDeep, opened⟩
  else do
    let body ← readElements rigour (some opened) (depth + 1) [] ts
    return ⟨body.value, dropClosing body.rest, (dropClosing_suffix _).trans body.isSuffix⟩
termination_by 2 * ts.length + 1
decreasing_by grind

/-- Reads what follows a key. -/
def readKeyed (rigour : Rigour) (depth : Nat) (key : Text) :
    (ts : List Token) → Except Misplaced (Reading Element ts)
  | [] => return ⟨.leaf key none none, [], List.suffix_rfl⟩
  | t :: ts =>
    match t.kind with
    | .openBrace => do
      let body ← readBody rigour depth t.span ts
      return (body.map (.block key none)).within (List.suffix_cons t ts)
    | .operator op => do
      let e ← readOperand rigour depth key op t.span (skipComments ts)
      return e.within ((skipComments_suffix ts).trans (List.suffix_cons t ts))
    | _ => return ⟨.leaf key none none, t :: ts, List.suffix_rfl⟩
termination_by ts => 2 * ts.length
decreasing_by
  · grind
  · have := (skipComments_suffix ts).length_le
    grind

/-- Reads what follows a key and an operator. -/
def readOperand (rigour : Rigour) (depth : Nat) (key op : Text) (span : Span) (ts : List Token) :
    Except Misplaced (Reading Element ts) :=
  match ts with
  | ⟨.openBrace, opened⟩ :: ts => do
    let body ← readBody rigour depth opened ts
    return (body.map (.block key (some op))).within (List.suffix_cons _ ts)
  | ⟨.word value, _⟩ :: ts => do
    let e ← readValued rigour depth key op value (skipComments ts)
    return e.within ((skipComments_suffix ts).trans (List.suffix_cons _ ts))
  | ts =>
    match rigour with
    | .strict => .error (lackOfValue op span ts)
    | .tolerant => return ⟨.leaf key (some op) none, ts, List.suffix_rfl⟩
termination_by 2 * ts.length
decreasing_by
  · grind
  · have := (skipComments_suffix ts).length_le
    grind

/-- Reads what follows a value. After the keyword of an inline value it may be a body. -/
def readValued (rigour : Rigour) (depth : Nat) (key op value : Text) :
    (ts : List Token) → Except Misplaced (Reading Element ts)
  | [] => return ⟨.leaf key (some op) (some value), [], List.suffix_rfl⟩
  | t :: ts =>
    if Element.isInlineKeyword value ∧ t.kind = .openBrace then do
      let body ← readBody rigour depth t.span ts
      let wrap := fun es => .block key (some op) [.block value none es]
      return (body.map wrap).within (List.suffix_cons t ts)
    else return ⟨.leaf key (some op) (some value), t :: ts, List.suffix_rfl⟩
termination_by ts => 2 * ts.length
decreasing_by grind

end

/-- The fault that a misplaced token makes in a source. -/
def Misplaced.toFault (m : Misplaced) (source : Text) : Fault :=
  .malformed m.misfit.message m.span.start.line m.span.start.column (m.span.lineText source)

end Tree

/-- The elements that a list of tokens spells. -/
def elementsOf (rigour : Rigour) (ts : List Token) : Except Tree.Misplaced (List Element) :=
  (Tree.readElements rigour none 0 [] ts).map (·.value)

/-- The elements of a source, with `marker` starting a comment. -/
def parse (rigour : Rigour) (marker source : Text) : Except Fault (List Element) :=
  (elementsOf rigour (tokens marker source)).mapError (·.toFault source)

end GameScript
