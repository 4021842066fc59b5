import GameScript.Script.Token

/-!
# Cutting a source into tokens

`Lexer.cut` takes the first token off a text that does not start with a gap, and `tokens` cuts
until nothing is left. A double-quoted segment belongs to its word, with everything inside it.
Between square brackets blanks and operators do not end a word; brackets switch, they do not
nest.
-/

namespace GameScript

open Text

namespace Lexer

/-- What separates tokens: white space and the byte order mark. -/
def isGap (c : Char) : Bool := isBlankChar c || c == '\uFEFF'

def isOperatorChar (c : Char) : Bool := c == '=' || c == '<' || c == '>' || c == '!'

/-- Whether `c`, followed by `rest`, belongs to an operator. A question mark does only before an
equals sign. -/
def isOperatorAt (c : Char) (rest : Text) : Bool :=
  isOperatorChar c || (c == '?' && rest.head? == some '=')

/-- Whether a comment starts here. With an empty marker there are no comments. -/
def isCommentAt (marker t : Text) : Bool := marker != [] && marker.isPrefixOf t

/-- The maximal run of operator characters, and what follows it. -/
def spanOperator : Text → Text × Text
  | [] => ([], [])
  | c :: cs =>
    if isOperatorAt c cs then
      let (op, rest) := spanOperator cs
      (c :: op, rest)
    else ([], c :: cs)

/-- Where the reading of a word stands, with the bracket switch. In a quoted segment, also how
many characters were read since its opening quote. -/
inductive WordState where
  | plain (bracketed : Bool)
  | quoted (bracketed : Bool) (since : Nat)
  | escaped (bracketed : Bool) (since : Nat)

/-- A word and what follows it; `unclosed` counts the characters from a quote that is never
closed. -/
structure WordSpan where
  word : Text
  rest : Text
  unclosed : Option Nat

def WordSpan.cons (c : Char) (w : WordSpan) : WordSpan := { w with word := c :: w.word }

/-- Whether `c`, followed by `rest`, ends a word that is not in quotes. -/
def endsWord (marker : Text) (bracketed : Bool) (c : Char) (rest : Text) : Bool :=
  (!bracketed && (isBlankChar c || isOperatorAt c rest || isCommentAt marker (c :: rest)))
    || (isControl c && !isBlankChar c)

/-- Reads a word on from a state. -/
def spanWord (marker : Text) : WordState → Text → WordSpan
  | .plain _, [] => ⟨[], [], none⟩
  | .quoted _ n, [] => ⟨[], [], some n⟩
  | .escaped _ n, [] => ⟨[], [], some n⟩
  | .escaped b n, c :: cs => (spanWord marker (.quoted b (n + 1)) cs).cons c
  | .quoted b n, c :: cs =>
    if c = '"' then (spanWord marker (.plain b) cs).cons c
    else if c = '\\' then (spanWord marker (.escaped b (n + 1)) cs).cons c
    else (spanWord marker (.quoted b (n + 1)) cs).cons c
  | .plain b, c :: cs =>
    if c = '"' then (spanWord marker (.quoted b 1) cs).cons c
    else if c = '{' ∨ c = '}' ∨ c = '\n' ∨ c = '\r' then ⟨[], c :: cs, none⟩
    else if c = '[' then (spanWord marker (.plain true) cs).cons c
    else if c = ']' then (spanWord marker (.plain false) cs).cons c
    else if endsWord marker b c cs then ⟨[], c :: cs, none⟩
    else (spanWord marker (.plain b) cs).cons c

/-- A token cut off the front of a text: the characters it covers and those that follow. -/
structure Cut where
  kind : TokenKind
  lexeme : Text
  rest : Text

/-- Cuts the token that starts with `c` at `start`. -/
def cut (marker : Text) (start : Position) (c : Char) (cs : Text) : Cut :=
  if isCommentAt marker (c :: cs) then
    let after := (c :: cs).drop marker.length
    let body := after.takeWhile (· ≠ '\n')
    ⟨.comment (trimEnd body), marker ++ body, after.dropWhile (· ≠ '\n')⟩
  else if c = '{' then ⟨.openBrace, [c], cs⟩
  else if c = '}' then ⟨.closeBrace, [c], cs⟩
  else if isOperatorAt c cs then
    let (op, rest) := spanOperator (c :: cs)
    ⟨.operator op, op, rest⟩
  else if isControl c then ⟨.illegal (.control c), [c], cs⟩
  else
    let w := spanWord marker (.plain false) (c :: cs)
    match w.unclosed with
    | none => ⟨.word w.word, w.word, w.rest⟩
    | some n =>
      let quote := start.advance (w.word.take (w.word.length - n))
      ⟨.illegal (.unterminated quote.line quote.column), w.word, w.rest⟩

/-! ## Progress -/

theorem length_spanOperator (t : Text) : (spanOperator t).2.length ≤ t.length := by
  induction t with
  | nil => simp [spanOperator]
  | cons c cs ih =>
    unfold spanOperator
    split
    · simp only [List.length_cons]; omega
    · simp

theorem length_spanWord (marker : Text) (s : WordState) (t : Text) :
    (spanWord marker s t).rest.length ≤ t.length := by
  fun_induction spanWord marker s t <;> simp_all [WordSpan.cons] <;> omega

theorem length_dropWhile_le (p : Char → Bool) (t : Text) : (t.dropWhile p).length ≤ t.length :=
  (List.dropWhile_sublist p).length_le

theorem length_spanWord_cons (marker : Text) {c : Char} {cs : Text}
    (hgap : isGap c = false) (hc : isCommentAt marker (c :: cs) = false)
    (hop : isOperatorAt c cs = false) (hctl : isControl c = false) (ho : c ≠ '{') (hcl : c ≠ '}') :
    (spanWord marker (.plain false) (c :: cs)).rest.length ≤ cs.length := by
  have hb : isBlankChar c = false := by
    simp only [isGap, Bool.or_eq_false_iff] at hgap; exact hgap.1
  have hn : c ≠ '\n' := by rintro rfl; revert hb; decide
  have hr : c ≠ '\r' := by rintro rfl; revert hb; decide
  unfold spanWord
  simp only [ho, hcl, hn, hr, or_self, if_false, endsWord, hb, hop, hc, hctl, Bool.or_false,
    Bool.and_false, Bool.false_and, Bool.not_false, Bool.false_eq_true]
  split
  · exact length_spanWord ..
  · split
    · exact length_spanWord ..
    · split <;> exact length_spanWord ..

/-- A cut takes at least one character, since a gap is never cut. -/
theorem length_cut (marker : Text) (start : Position) (c : Char) (cs : Text)
    (h : isGap c = false) : (cut marker start c cs).rest.length < (c :: cs).length := by
  unfold cut
  split
  · rename_i hc
    have hm : marker ≠ [] := by
      simp only [isCommentAt, Bool.and_eq_true, bne_iff_ne] at hc; exact hc.1
    have h1 := length_dropWhile_le (· ≠ '\n') ((c :: cs).drop marker.length)
    have h2 := List.length_pos_iff.2 hm
    simp only [List.length_drop, List.length_cons] at h1 ⊢
    omega
  · rename_i hc
    split
    · simp
    · rename_i ho
      split
      · simp
      · rename_i hcl
        split
        · rename_i hop
          have h1 := length_spanOperator cs
          simp only [spanOperator, hop, if_true, List.length_cons]
          omega
        · rename_i hop
          split
          · simp
          · rename_i hctl
            have h1 := length_spanWord_cons marker h (by simpa using hc)
              (by simpa using hop) (by simpa using hctl) ho hcl
            simp only [List.length_cons]
            split <;> simp only <;> omega

/-- The tokens of a text that stands at `here`. -/
def tokensFrom (marker : Text) (here : Position) : Text → List Token
  | [] => [⟨.endOfInput, ⟨here, here.offset⟩⟩]
  | c :: cs =>
    if _h : isGap c then tokensFrom marker (here.next c) cs
    else
      let t := cut marker here c cs
      let after := here.advance t.lexeme
      ⟨t.kind, ⟨here, after.offset⟩⟩ :: tokensFrom marker after t.rest
termination_by t => t.length
decreasing_by
  · simp
  · exact length_cut marker here c cs (by simpa using _h)

end Lexer

/-- The tokens of a source, comments included, with `marker` starting a comment. -/
def tokens (marker source : Text) : List Token := Lexer.tokensFrom marker {} source

end GameScript
