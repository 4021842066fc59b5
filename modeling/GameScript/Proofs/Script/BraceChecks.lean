import GameScript.Proofs.Script.Acceptance
import GameScript.Proofs.Script.BraceTally
import GameScript.Proofs.Script.Evident
import GameScript.Proofs.Script.LineByLine

/-!
# The braces that the two checks count

The full check tallies the braces among the tokens (`checkTokens_eq`), the simple one those that it
sees on the lines (`checkBraces_eq`). Over a line whose tokens it passes without a trace, it sees
the braces of the tokens at their places (`tokenBraces_line`), and so over all lines
(`tokenBraces_source`). Words with square brackets or escapes in quotes may leave a trace; what
passes the full check passes the simple one if they do not (`checkBraces_of_checkStructure`).
-/

namespace GameScript

open Text Lexer

/-- Whether a pass over characters goes over the token without a trace. -/
def TokenKind.IsTracelessTo (m : Text) (k : TokenKind) : Prop :=
  k.isUnclosed = false ∧ ∀ w, k = .word w → IsTraceless m w

def Position.place (p : Position) : Balance.Place := (p.line, p.column)

namespace Balance

def tokenBrace? : TokenKind → Option Brace
  | .openBrace => some .opening
  | .closeBrace => some .closing
  | _ => none

def tokenBraces (ts : List Token) : Braces :=
  ts.filterMap fun t => (tokenBrace? t.kind).map (·, t.span.start.place)

def brace? (c : Char) : Option Brace :=
  if c = '{' then some .opening else if c = '}' then some .closing else none

/-- The braces that a pass over a line sees from a column on. -/
def lineBraces (m : Text) (number column : Nat) (quoted : Bool) : Text → Braces
  | [] => []
  | c :: cs =>
    if !quoted && isCommentAt m (c :: cs) then []
    else if c = '"' then lineBraces m number (column + 1) (!quoted) cs
    else if quoted then lineBraces m number (column + 1) quoted cs
    else ((brace? c).map (·, (number, column))).toList ++
      lineBraces m number (column + 1) quoted cs

/-- The braces that it sees on lines, the first of which has this number. -/
def linesBraces (m : Text) (number : Nat) : List Text → Braces
  | [] => []
  | line :: rest => lineBraces m number 1 false line ++ linesBraces m (number + 1) rest

/-- What a check says of a tally, in these words of a closing brace that closes nothing and of an
opening brace that is never closed. -/
def verdict (stray unclosed : Text) : Except Place (List Place) → Except Fault Unit
  | .error place => .error (faultAt stray place)
  | .ok o =>
    match o.getLast? with
    | some place => .error (faultAt unclosed place)
    | none => .ok ()

section

variable {m r t u w cs : Text} {c : Char} {ts us : List Token} {ls : List Text} {p : Position}
  {opened o : List Place} {number column : Nat} {quoted : Bool} {place : Place}

theorem verdict_eq_ok_iff {stray unclosed : Text} {x : Except Place (List Place)} :
    verdict stray unclosed x = .ok () ↔ x = .ok [] := by
  fun_cases verdict stray unclosed x with
  | case1 p => simp
  | case2 o p hp =>
    simp only [reduceCtorEq, Except.ok.injEq, false_iff]
    rintro rfl
    cases hp
  | case3 o hp => simp [List.getLast?_eq_none_iff.1 hp]

/-! ## The full check -/

/-- The full check of tokens that are legal tallies their braces. -/
theorem checkTokens_eq (h : ∀ t ∈ ts, ∀ cause, t.kind ≠ .illegal cause) :
    checkTokens opened ts =
      verdict "unexpected closing bracket" "opening bracket is never closed"
        (tally opened (tokenBraces ts)) := by
  induction ts generalizing opened with
  | nil => rfl
  | cons t ts ih =>
    rw [List.forall_mem_cons] at h
    rw [tokenBraces, List.filterMap_cons]
    cases hk : t.kind with
    | illegal cause => exact absurd hk (h.1 cause)
    | openBrace =>
      simp only [checkTokens, hk]
      exact ih h.2
    | closeBrace =>
      simp only [checkTokens, hk]
      cases opened with
      | nil => rfl
      | cons q opened => exact ih h.2
    | operator op | word w | comment body | endOfInput =>
      simp only [checkTokens, hk]
      exact ih h.2

/-! ## The simple check -/

theorem scanLine_eq (m : Text) (number column : Nat) (quoted : Bool) (opened : List Place)
    (t : Text) :
    scanLine m number column quoted opened t =
      tally opened (lineBraces m number column quoted t) := by
  induction t generalizing column quoted opened with
  | nil => rfl
  | cons c t ih =>
    rw [scanLine.eq_def, lineBraces]
    dsimp only
    split
    · rfl
    · split
      · exact ih (column + 1) (!quoted) opened
      · split
        · exact ih (column + 1) quoted opened
        · split
          · next hopen =>
            rw [brace?, if_pos hopen]
            exact ih (column + 1) quoted ((number, column) :: opened)
          · next hopen =>
            rw [brace?, if_neg hopen]
            split
            · cases opened with
              | nil => rfl
              | cons q opened => exact ih (column + 1) quoted opened
            · exact ih (column + 1) quoted opened

theorem scanLines_eq (m : Text) (number : Nat) (opened : List Place) (ls : List Text) :
    scanLines m number opened ls = tally opened (linesBraces m number ls) := by
  induction ls generalizing number opened with
  | nil => rfl
  | cons l ls ih =>
    rw [scanLines, linesBraces, tally_append, scanLine_eq]
    cases tally opened (lineBraces m number 1 false l) with
    | error q => rfl
    | ok o => exact ih (number + 1) o

theorem lineBraces_return (hm : '\r' ∉ m) :
    lineBraces m number column quoted (t ++ ['\r']) = lineBraces m number column quoted t := by
  induction t generalizing column quoted with
  | nil =>
    have hcomment : isCommentAt m ['\r'] = false := isCommentAt_foreign hm []
    rw [List.nil_append, lineBraces, lineBraces, hcomment, Bool.and_false]
    cases quoted <;> rfl
  | cons c t ih =>
    have hcomment : isCommentAt m (c :: (t ++ ['\r'])) = isCommentAt m (c :: t) :=
      isCommentAt_append (t := c :: t) (by simpa using hm)
    rw [List.cons_append, lineBraces, lineBraces, hcomment, ih, ih]

theorem lineBraces_dropReturn (hm : '\r' ∉ m) :
    lineBraces m number column quoted (dropReturn t) = lineBraces m number column quoted t := by
  rw [dropReturn]
  split
  · next h =>
    obtain ⟨u, rfl⟩ := List.getLast?_eq_some_iff.1 h
    rw [List.dropLast_concat, lineBraces_return hm]
  · rfl

/-- It does not matter how lines end. -/
theorem linesBraces_closeLines (hm : '\r' ∉ m) (number : Nat) (ls : List Text) :
    linesBraces m number (closeLines ls) = linesBraces m number ls := by
  fun_induction closeLines ls generalizing number with
  | case1 => rfl
  | case2 => rfl
  | case3 => rfl
  | case4 l ls _ ih => rw [linesBraces, linesBraces, lineBraces_dropReturn hm, ih]

/-- The simple check tallies the braces of the lines. -/
theorem checkBraces_eq (hm : '\r' ∉ m) (source : Text) :
    checkBraces m source =
      verdict "open and close curly brackets do not match"
        "open and close curly brackets do not match"
        (tally [] (linesBraces m 1 (splitOn '\n' source))) := by
  rw [checkBraces, scanLines_eq, lines, linesBraces_closeLines hm]
  rfl

/-! ## Passing over tokens -/

/-- A pass sees the braces of what it passes over outside of quotes, and goes on. -/
theorem lineBraces_append (hm : '"' ∉ m) (h : Passes m r quoted w) :
    lineBraces m number column quoted (w ++ r) =
      lineBraces [] number column quoted w ++ lineBraces m number (column + w.length) false r := by
  induction w generalizing quoted column with
  | nil =>
    obtain rfl : quoted = false := h
    rfl
  | cons c w ih =>
    have hplace : column + (c :: w).length = column + 1 + w.length := by
      rw [List.length_cons]
      omega
    have hno : isCommentAt [] (c :: w) = false := rfl
    rw [Passes] at h
    rw [List.cons_append, lineBraces, lineBraces, hno, Bool.and_false, if_neg Bool.false_ne_true,
      hplace]
    by_cases hquote : c = '"'
    · rw [if_pos hquote] at h
      subst hquote
      rw [isCommentAt_foreign hm, Bool.and_false, if_neg Bool.false_ne_true, if_pos rfl, if_pos rfl]
      exact ih h
    · rw [if_neg hquote] at h
      have hcomment : (!quoted && isCommentAt m (c :: (w ++ r))) = false := by
        cases quoted with
        | true => rfl
        | false => exact h.1 rfl
      rw [hcomment, if_neg Bool.false_ne_true, if_neg hquote, if_neg hquote, ih h.2]
      cases quoted with
      | true => rfl
      | false => exact (List.append_assoc ..).symm

theorem lineBraces_eq_nil (hopen : '{' ∉ outsideQuotes quoted w)
    (hclose : '}' ∉ outsideQuotes quoted w) : lineBraces [] number column quoted w = [] := by
  induction w generalizing quoted column with
  | nil => rfl
  | cons c w ih =>
    have hno : isCommentAt [] (c :: w) = false := rfl
    rw [lineBraces, hno, Bool.and_false, if_neg Bool.false_ne_true]
    rw [outsideQuotes] at hopen hclose
    split
    · next hquote =>
      rw [if_pos hquote] at hopen hclose
      exact ih hopen hclose
    · next hquote =>
      rw [if_neg hquote] at hopen hclose
      split
      · next hin =>
        rw [if_pos hin] at hopen hclose
        exact ih hopen hclose
      · next hin =>
        rw [if_neg hin, List.mem_cons, not_or] at hopen hclose
        rw [brace?, if_neg (Ne.symm hopen.1), if_neg (Ne.symm hclose.1), ih hopen.2 hclose.2]
        rfl

/-! ## Lines -/

theorem advance_line (h : '\n' ∉ t) :
    (p.advance t).line = p.line ∧ (p.advance t).column = p.column + t.length := by
  induction t generalizing p with
  | nil => exact ⟨rfl, rfl⟩
  | cons c t ih =>
    rw [List.mem_cons, not_or] at h
    have hnext : p.next c = ⟨p.offset + c.utf8Size, p.line, p.column + 1⟩ := if_neg (Ne.symm h.1)
    obtain ⟨hline, hcolumn⟩ := ih (p := p.next c) h.2
    rw [hnext] at hline hcolumn
    rw [Position.advance, List.foldl_cons, hnext, List.length_cons]
    refine ⟨hline, hcolumn.trans ?_⟩
    show p.column + 1 + t.length = p.column + (t.length + 1)
    omega

theorem tokenBraces_cons (t : Token) (ts : List Token) :
    tokenBraces (t :: ts) =
      ((tokenBrace? t.kind).map (·, t.span.start.place)).toList ++ tokenBraces ts := by
  rw [tokenBraces, List.filterMap_cons]
  cases tokenBrace? t.kind <;> rfl

/-- A token that is no comment shows the brace that it is. -/
theorem lineBraces_cut (hgap : isGap c = false) (hcomment : (cut m p c cs).kind.isComment = false)
    (hclosed : (cut m p c cs).kind.isUnclosed = false)
    (hword : ∀ w, (cut m p c cs).kind = .word w → IsTraceless m w) :
    lineBraces [] number column false (cut m p c cs).lexeme =
      ((tokenBrace? (cut m p c cs).kind).map (·, (number, column))).toList := by
  rcases cutsOff_or_control hgap hcomment hclosed with ⟨hlexeme, hcut⟩ | ⟨hcontrol, hall⟩
  · rw [hlexeme]
    cases hkind : (cut m p c cs).kind with
    | word w =>
      obtain ⟨-, hopen, hclose⟩ := hword w hkind
      exact lineBraces_eq_nil hopen hclose
    | operator o =>
      rw [hkind] at hcut
      obtain ⟨_, _, _, _, _, hspan⟩ := cutsOff_operator_iff.1 hcut
      have hbrace {d : Char} (hd : isOperatorChar d = false ∧ d ≠ '?') :
          d ∉ outsideQuotes false o := fun hmem => by
        obtain ⟨ds, hds⟩ := isOperatorAt_of_mem hspan d (outsideQuotes_subset false o hmem)
        simp [isOperatorAt, hd.1, hd.2] at hds
      exact lineBraces_eq_nil (hbrace (by decide)) (hbrace (by decide))
    | openBrace | closeBrace | comment body | endOfInput | illegal cause => rfl
  · rw [hall]
    have hbrace {e : Char} (he : isControl e = false) : e ∉ outsideQuotes false [c] := by
      intro hmem
      obtain rfl := List.mem_singleton.1 (outsideQuotes_subset false [c] hmem)
      exact Bool.false_ne_true (he.symm.trans hcontrol)
    exact lineBraces_eq_nil (hbrace (by decide)) (hbrace (by decide))

/-- **On a line that a pass goes over without a trace, it sees the braces of the tokens.** -/
theorem tokenBraces_line (hm : IsRepeated m) (hline : '\n' ∉ t)
    (h : ∀ x ∈ tokensFrom m p t, x.kind.IsTracelessTo m) :
    tokenBraces (tokensFrom m p t) = lineBraces m p.line p.column false t := by
  have hquote : '"' ∉ m := hm.foreign (.inr (.inr (by simp)))
  fun_induction tokensFrom m p t with
  | case1 p => rfl
  | case2 p c cs hgap ih =>
    rw [List.mem_cons, not_or] at hline
    have hc : c ∉ m ∧ c ≠ '"' := ⟨hm.foreign (.inl hgap), by rintro rfl; cases hgap⟩
    have hpass : Passes m cs false [c] := passes_of_foreign (List.forall_mem_singleton.2 hc)
    obtain ⟨hsame, hcolumn⟩ := advance_line (p := p) (t := [c]) (by simpa using hline.1)
    have hbrace {d : Char} (hd : isGap d = false) : d ∉ outsideQuotes false [c] := fun hmem => by
      obtain rfl := List.mem_singleton.1 (outsideQuotes_subset false [c] hmem)
      exact Bool.false_ne_true (hd.symm.trans hgap)
    rw [ih hline.2 h, ← List.singleton_append, lineBraces_append hquote hpass,
      lineBraces_eq_nil (hbrace (by decide)) (hbrace (by decide)), List.nil_append, ← hsame,
      ← hcolumn]
    rfl
  | case3 p c cs hgap x after ih =>
    have hgap : isGap c = false := by simpa using hgap
    have hall : x.lexeme ++ x.rest = c :: cs := cut_append ..
    rw [List.forall_mem_cons] at h
    by_cases hat : isCommentAt m (c :: cs) = true
    · -- the comment takes the rest of the line
      obtain ⟨body, hx⟩ : ∃ body, x = ⟨.comment body, c :: cs, []⟩ := cut_lastComment hat hline
      rw [tokenBraces_cons, hx, tokensFrom_nil, lineBraces, hat]
      rfl
    · have hcomment : x.kind.isComment = false := not_isComment_cut (Bool.eq_false_iff.2 hat)
      have hpass : Passes m x.rest false x.lexeme :=
        passes_cut hm hgap hcomment h.1.1 fun w hw => (h.1.2 w hw).1
      have hin : '\n' ∉ x.lexeme := fun hmem => hline (hall ▸ List.mem_append_left _ hmem)
      have hout : '\n' ∉ x.rest := fun hmem => hline (hall ▸ List.mem_append_right _ hmem)
      obtain ⟨hsame, hcolumn⟩ :
          after.line = p.line ∧ after.column = p.column + x.lexeme.length := advance_line hin
      rw [tokenBraces_cons, ← hall, lineBraces_append hquote hpass, ih hout h.2,
        lineBraces_cut hgap hcomment h.1.1 h.1.2, hsame, hcolumn]
      rfl

/-! ## All lines -/

theorem tokenBraces_append : tokenBraces (ts ++ us) = tokenBraces ts ++ tokenBraces us :=
  List.filterMap_append

theorem tokenBraces_dropLast : tokenBraces (tokensFrom m p t).dropLast =
    tokenBraces (tokensFrom m p t) := by
  obtain ⟨ts, q, hts, -⟩ := tokensFrom_eq_append (m := m) p t
  rw [hts, List.dropLast_concat, tokenBraces_append]
  exact (List.append_nil _).symm

theorem isTracelessTo_unplaced (k : TokenKind) :
    k.unplaced.IsTracelessTo m ↔ k.IsTracelessTo m := by
  fun_cases TokenKind.unplaced k with
  | case1 i j => exact and_congr Iff.rfl (by simp)
  | case2 k hk => exact Iff.rfl

/-- **On lines that a pass goes over without a trace, it sees the braces of the tokens.** -/
theorem tokenBraces_lines (hm : IsRepeated m) (hne : ls ≠ []) (hls : ∀ l ∈ ls, '\n' ∉ l)
    (h : ∀ l ∈ ls, ∀ x ∈ tokens m l, x.kind.IsTracelessTo m) (hp : p.column = 1) :
    tokenBraces (tokensFrom m p (unlines ls)) = linesBraces m p.line ls := by
  induction ls generalizing p with
  | nil => exact absurd rfl hne
  | cons l ls ih =>
    rw [List.forall_mem_cons] at hls h
    have htraceless := forall_kind_tokensFrom isTracelessTo_unplaced {} p h.1
    have hline := tokenBraces_line hm hls.1 htraceless
    rw [hp] at hline
    rw [linesBraces]
    cases ls with
    | nil => rw [linesBraces, List.append_nil, ← hline, unlines, join]
    | cons l' ls =>
      obtain ⟨hsame, -⟩ := advance_line (p := p) hls.1
      have hnext : p.advance (l ++ ['\n']) = (p.advance l).next '\n' := List.foldl_append
      rw [unlines_cons_cons, tokensFrom_feed hm.feed_not_mem hls.1 fun x hx => (htraceless x hx).1,
        tokenBraces_append, tokenBraces_dropLast, hline, hnext,
        ih (List.cons_ne_nil _ _) hls.2 h.2 rfl]
      show _ ++ linesBraces m ((p.advance l).line + 1) (l' :: ls) = _
      rw [hsame]

theorem tokenBraces_source {source : Text} (hm : IsRepeated m)
    (h : ∀ l ∈ splitOn '\n' source, ∀ x ∈ tokens m l, x.kind.IsTracelessTo m) :
    tokenBraces (tokens m source) = linesBraces m 1 (splitOn '\n' source) := by
  have hls : ∀ l ∈ splitOn '\n' source, '\n' ∉ l := fun l => not_mem_of_mem_splitOn
  have hbraces := tokenBraces_lines (p := {}) hm splitOn_ne_nil hls h rfl
  rwa [unlines_splitOn] at hbraces

/-- Where no token spans lines, the tokens of a line are those of the source. -/
theorem isTracelessTo_lines {source : Text} (hm : IsRepeated m)
    (hlines : ∀ x ∈ tokens m source, '\n' ∉ x.span.slice source)
    (h : ∀ x ∈ tokens m source, x.kind.IsTracelessTo m) :
    ∀ l ∈ splitOn '\n' source, ∀ x ∈ tokens m l, x.kind.IsTracelessTo m := by
  have hpieces : AllPieces (fun k u => '\n' ∉ u ∧ k.IsTracelessTo m) m source []
      (unlines (splitOn '\n' source)) := by
    rw [unlines_splitOn]
    exact fun x hx => ⟨hlines x hx, h x hx⟩
  have hwhole : [] ++ unlines (splitOn '\n' source) <+: source := by
    rw [unlines_splitOn]
    exact List.prefix_refl source
  obtain ⟨hpiece, -⟩ := hpieces.lines hm.feed_not_mem (fun l => not_mem_of_mem_splitOn)
    ⟨List.not_mem_nil, rfl, fun w hw => by cases hw⟩ (fun k u hu => hu.1) hwhole
  intro l hl
  obtain ⟨front, -, hfront⟩ := hpiece l hl
  exact forall_kind_tokensFrom isTracelessTo_unplaced (.behind front) {} fun x hx => (hfront x hx).2

/-- Tokens leave no trace if the intricate words among them leave none. -/
theorem isTracelessTo_of_words {source : Text} (hm : IsRepeated m)
    (hclosed : ∀ k ∈ kinds m source, k.isUnclosed = false)
    (hwords : ∀ w, .word w ∈ kinds m source → IsIntricate w → IsTraceless m w) :
    ∀ x ∈ tokens m source, x.kind.IsTracelessTo m := by
  intro x hx
  refine ⟨hclosed _ (List.mem_map_of_mem hx), fun w hw => ?_⟩
  have hmem : .word w ∈ kinds m source := hw ▸ List.mem_map_of_mem hx
  by_cases hintricate : IsIntricate w
  · exact hwords w hmem hintricate
  · obtain ⟨r, hcut⟩ := cutsOff_word_of_mem_kinds hmem
    exact hcut.isTraceless hm hintricate

end

end Balance

open Balance

/-! ## The one check and the other -/

/-- **What passes the full check passes the simple one**, if no token spans lines and the intricate
words show neither a comment nor a brace to a pass over characters. -/
theorem checkBraces_of_checkStructure {m source : Text} (hm : m ∈ usualMarkers)
    (hlines : ∀ x ∈ tokens m source, '\n' ∉ x.span.slice source)
    (hwords : ∀ w, .word w ∈ kinds m source → IsIntricate w → IsTraceless m w)
    (h : checkStructure m source = .ok ()) : checkBraces m source = .ok () := by
  have hrep := isRepeated_of_usual hm
  have hlegal : ∀ cause, .illegal cause ∉ kinds m source := ((checkTokens_eq_ok_iff rfl).1 h).1
  have hclosed : ∀ k ∈ kinds m source, k.isUnclosed = false := fun k hk =>
    Bool.eq_false_iff.2 fun hu => by
      obtain ⟨i, j, rfl⟩ := isUnclosed_iff.1 hu
      exact hlegal _ hk
  have htraceless := isTracelessTo_lines hrep hlines (isTracelessTo_of_words hrep hclosed hwords)
  rw [checkStructure, checkTokens_eq, verdict_eq_ok_iff, tokenBraces_source hrep htraceless] at h
  · rw [checkBraces_eq (hrep.foreign (.inr (.inl rfl))), verdict_eq_ok_iff, h]
  · exact fun x hx cause hk => hlegal cause (hk ▸ List.mem_map_of_mem hx)

def quotedScript : Text := "c = \x7b a = \"x\\\"y\\\"\"# \x7d\nb[c d] \x7d"

theorem checkBraces_of_checkStructure_quotedScript :
    (['#'] : Text) ∈ usualMarkers ∧ (∀ x ∈ tokens ['#'] quotedScript,
      '\n' ∉ x.span.slice quotedScript) ∧ IsTraceless ['#'] "\"x\\\"y\\\"\"" ∧
      checkStructure ['#'] quotedScript = .ok () ∧ checkBraces ['#'] quotedScript = .ok () := by
  have hm : (['#'] : Text) ∈ usualMarkers := List.mem_cons_self
  have hkinds : kinds ['#'] quotedScript = [.word "c", .operator "=", .openBrace, .word "a",
      .operator "=", .word "\"x\\\"y\\\"\"", .comment " \x7d", .word "b[c d]", .closeBrace,
      .endOfInput] := by decide +kernel
  have hlines : ∀ x ∈ tokens ['#'] quotedScript, '\n' ∉ x.span.slice quotedScript := by
    decide +kernel
  have hquoted : IsTraceless ['#'] "\"x\\\"y\\\"\"" := by decide +kernel
  have hbracketed : IsTraceless ['#'] "b[c d]" := by decide +kernel
  have hcheck : checkStructure ['#'] quotedScript = .ok () := by decide +kernel
  refine ⟨hm, hlines, hquoted, hcheck, checkBraces_of_checkStructure hm hlines ?_ hcheck⟩
  intro w hw hintricate
  simp only [hkinds, List.mem_cons, List.not_mem_nil, or_false, reduceCtorEq, false_or,
    TokenKind.word.injEq] at hw
  rcases hw with rfl | rfl | rfl | rfl
  · revert hintricate
    decide
  · revert hintricate
    decide
  · exact hquoted
  · exact hbracketed

def escapedScript : Text := "a = \"\\\"\x7b\""

def bracketedScript : Text := "a = \x7b [b # \x7d"

/-- The simple check is stricter where an escaped quote ends quoted text for it, so that a brace
shows, and where a comment starts for it between square brackets, so that a brace is hidden. -/
theorem checkBraces_stricter :
    ((∀ x ∈ tokens ['#'] escapedScript, '\n' ∉ x.span.slice escapedScript) ∧
      checkStructure ['#'] escapedScript = .ok () ∧ checkBraces ['#'] escapedScript ≠ .ok ()) ∧
    ((∀ x ∈ tokens ['#'] bracketedScript, '\n' ∉ x.span.slice bracketedScript) ∧
      checkStructure ['#'] bracketedScript = .ok () ∧
        checkBraces ['#'] bracketedScript ≠ .ok ()) := by
  decide +kernel

end GameScript
