import GameScript.Script.Tree

/-!
# Reading one token at a time

The descent of `readElements` as a machine that takes one token after the other. The state holds
the blocks still open, innermost first (so the depth is the length of that list), the elements of
the innermost one so far, and an element that the next token may continue. That both read the same
is `elementsOf_tokens`.
-/

namespace GameScript.Tree

open Text

/-- The head of a block. Between operator and brace may stand the keyword of an inline value. -/
structure Head where
  key : Text := []
  operator : Option Text := none
  keyword : Option Text := none
  deriving DecidableEq

def Head.block (h : Head) (children : List Element) : Element :=
  match h.keyword with
  | none => .block h.key h.operator children
  | some keyword => .block h.key h.operator [.block keyword none children]

structure OpenBlock where
  head : Head
  opened : Span
  /-- The elements before the block, latest first. -/
  before : List Element
  deriving DecidableEq

/-- An element that the next token may continue. -/
inductive Pending where
  | nothing
  | key (key : Text)
  | operator (key operator : Text) (span : Span)
  /-- A leaf whose value is a keyword of inline values. -/
  | keyword (key operator value : Text)
  deriving DecidableEq

structure State where
  blocks : List OpenBlock := []
  /-- The elements of the innermost open block, latest first. -/
  done : List Element := []
  pending : Pending := .nothing
  deriving DecidableEq

namespace State

def settle (s : State) : State :=
  match s.pending with
  | .nothing => s
  | .key k => { s with done := .leaf k none none :: s.done, pending := .nothing }
  | .operator k op _ => { s with done := .leaf k (some op) none :: s.done, pending := .nothing }
  | .keyword k op v =>
    { s with done := .leaf k (some op) (some v) :: s.done, pending := .nothing }

/-- Opens a block at a brace, unless that is too deep. -/
def enter (s : State) (head : Head) (span : Span) : Except Misplaced State :=
  if maxDepth ≤ s.blocks.length then .error ⟨.tooDeep, span⟩
  else .ok ⟨⟨head, span, s.done⟩ :: s.blocks, [], .nothing⟩

end State

/-- Skips a token that is out of place, or stops at it. -/
def skip (rigour : Rigour) (misfit : Misfit) (span : Span) (s : State) : Except Misplaced State :=
  match rigour with
  | .strict => .error ⟨misfit, span⟩
  | .tolerant => .ok s

def start (rigour : Rigour) (s : State) (t : Token) : Except Misplaced State :=
  match t.kind with
  | .word key => .ok { s with pending := .key key }
  | .openBrace => s.enter {} t.span
  | .closeBrace =>
    match s.blocks with
    | b :: bs => .ok ⟨bs, b.head.block s.done.reverse :: b.before, .nothing⟩
    | [] => skip rigour .strayClosing t.span s
  | .operator op => skip rigour (.strayOperator op) t.span s
  | .illegal cause => skip rigour (.illegal cause) t.span s
  | .comment _ | .endOfInput => .ok s

def step (rigour : Rigour) (s : State) (t : Token) : Except Misplaced State :=
  match s.pending, t.kind with
  | _, .comment _ => .ok s
  | .key k, .openBrace => s.enter ⟨k, none, none⟩ t.span
  | .key k, .operator op => .ok { s with pending := .operator k op t.span }
  | .operator k op _, .openBrace => s.enter ⟨k, some op, none⟩ t.span
  | .operator k op _, .word v =>
    let s := { s with pending := .keyword k op v }
    .ok (if Element.isInlineKeyword v then s else s.settle)
  | .operator _ op span, _ =>
    match rigour with
    | .strict => .error (lackOfValue op span [t])
    | .tolerant => start .tolerant s.settle t
  | .keyword k op v, .openBrace => s.enter ⟨k, some op, some v⟩ t.span
  | _, _ => start rigour s.settle t

/-- Reads tokens up to the first that is out of place. -/
def run (rigour : Rigour) (s : State) : List Token → Except Misplaced State
  | [] => .ok s
  | t :: ts =>
    match step rigour s t with
    | .ok s' => run rigour s' ts
    | .error e => .error e

/-- Closes every open block; `done` are the innermost elements, latest first. -/
def closeAll (done : List Element) : List OpenBlock → List Element
  | [] => done.reverse
  | b :: bs => closeAll (b.head.block done.reverse :: b.before) bs

def finish (rigour : Rigour) (s : State) : Except Misplaced (List Element) :=
  match rigour, s.blocks with
  | .strict, b :: _ => .error ⟨.unclosedBlock, b.opened⟩
  | _, _ => .ok (closeAll s.settle.done s.blocks)

def readFrom (rigour : Rigour) (s : State) (ts : List Token) : Except Misplaced (List Element) :=
  (run rigour s ts).bind (finish rigour)

end GameScript.Tree
