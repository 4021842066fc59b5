import GameScript.Proofs.Script.Grammar
import GameScript.Proofs.Script.Lexing
import GameScript.Proofs.Script.Descent
import GameScript.Script.Balance

/-!
# What a strict reading accepts

A strict step takes a token that fits behind those before it, and refuses every other one
(`step_cases`); so a run takes tokens that all fit (`run_cases`), and a source is accepted when it
is grammatical. The full check asks of the tokens that they are well braced
(`checkStructure_eq_ok_iff`). What passes it is refused for an operator, a value or depth.
-/

namespace GameScript

open Text Lexer

variable {before : List TokenKind} {k : TokenKind}

/-- Whether a misfit is one of order or depth, and not of illegal or unbalanced tokens. -/
def Misfit.IsMisplacement : Misfit → Prop
  | strayOperator _ | missingValue _ _ | tooDeep => True
  | unclosedBlock | strayClosing | illegal _ => False

namespace Tree

variable {r : Rigour} {s : State} {t : Token} {ts : List Token}

/-- A state that the tokens `before` lead to, as far as it decides what can be read next. -/
structure State.Follows (s : State) (before : List TokenKind) : Prop where
  depth : before.count .openBrace = before.count .closeBrace + s.blocks.length
  key : EndsInKey before ↔ ∃ k, s.pending = .key k
  operator : EndsInOperator before ↔ ∃ k op span, s.pending = .operator k op span

theorem follows_start : State.Follows {} [] where
  depth := rfl
  key := ⟨fun h => absurd h not_endsInKey_nil, fun ⟨_, h⟩ => by cases h⟩
  operator := ⟨fun h => absurd h not_endsInOperator_nil, fun ⟨_, _, _, h⟩ => by cases h⟩

theorem State.Follows.ready (hs : s.Follows before) (h : ¬ EndsInOperator before) : s.Ready :=
  fun k op span hp => h (hs.operator.2 ⟨k, op, span, hp⟩)

/-- A state behind one more token: its depth, and what is pending. -/
theorem follows_concat {s' : State} (hs : s.Follows before)
    (hd : ([k] : List TokenKind).count .openBrace + s.blocks.length =
      ([k] : List TokenKind).count .closeBrace + s'.blocks.length)
    (hkey : ((∃ w, k = .word w) ∧ ¬ EndsInOperator before) ↔ ∃ w, s'.pending = .key w)
    (hop : (∃ op, k = .operator op) ↔ ∃ w op span, s'.pending = .operator w op span) :
    s'.Follows (before ++ [k]) where
  depth := by
    have := hs.depth
    rw [List.count_append, List.count_append]
    omega
  key := endsInKey_concat.trans hkey
  operator := endsInOperator_concat.trans hop

/-! ### Refusals -/

theorem step_lackOfValue {k op : Text} {span : Span} (hp : s.pending = .operator k op span)
    (ht : ¬ IsValueStart t.kind) (hc : t.kind.isComment = false) :
    step .strict s t = .error (lackOfValue op span [t]) := by
  rw [step.eq_def, hp]
  cases hk : t.kind with
  | word v => exact absurd (.inl ⟨v, hk⟩) ht
  | openBrace => exact absurd (.inr hk) ht
  | comment body => rw [hk] at hc; cases hc
  | closeBrace | operator op' | endOfInput | illegal cause => rfl

theorem step_strayOperator {op : Text} (hs : s.Ready) (hkey : ∀ k, s.pending ≠ .key k)
    (ht : t.kind = .operator op) : step .strict s t = .error ⟨.strayOperator op, t.span⟩ := by
  rw [step.eq_def]
  cases hp : s.pending with
  | key k => exact absurd hp (hkey k)
  | operator k op span => exact absurd hp (hs k op span)
  | nothing | keyword k op v => rw [ht]; simp [start, ht, skip]

theorem step_strayClosing (hs : s.Ready) (hb : s.blocks = []) (ht : t.kind = .closeBrace) :
    step .strict s t = .error ⟨.strayClosing, t.span⟩ := by
  rw [step_eq_start hs (by rw [ht]; rfl), start, ht, s.settle_eq]
  simp [hb, skip]

theorem step_illegal {cause : Illegal} (hs : s.Ready) (ht : t.kind = .illegal cause) :
    step .strict s t = .error ⟨.illegal cause, t.span⟩ := by
  rw [step_eq_start hs (by rw [ht]; rfl), start, ht]
  rfl

/-! ### What a strict step does -/

/-- A token that does not fit is refused for its place, unless it is illegal or closes nothing. -/
structure Refuses (before : List TokenKind) (k : TokenKind) (m : Misplaced) : Prop where
  unfit : ¬ Fits before k
  reason : m.misfit.IsMisplacement ∨ (∃ cause, k = .illegal cause) ∨
    k = .closeBrace ∧ before.count .openBrace ≤ before.count .closeBrace

/-- What a strict step does: it takes a token that fits, and refuses every other one. -/
def Decides (before : List TokenKind) (s : State) (t : Token) : Prop :=
  (∃ s', step .strict s t = .ok s' ∧ Fits before t.kind ∧ s'.Follows (before ++ [t.kind])) ∨
    ∃ m, step .strict s t = .error m ∧ Refuses before t.kind m

theorem step_cases_openBrace (hs : s.Follows before) (hk : t.kind = .openBrace) :
    Decides before s t := by
  have hdepth := hs.depth
  have hmax : maxDepth = 256 := rfl
  rw [Decides, hk]
  by_cases hd : s.blocks.length < maxDepth
  · have hfits : Fits before .openBrace :=
      ⟨by simp, by simp, fun _ => by omega, by simp, fun _ => .inr rfl⟩
    refine .inl ⟨_, step_openBrace hd hk, hfits, follows_concat hs ?_ (by simp) (by simp)⟩
    simp
    omega
  · refine .inr ⟨_, step_tooDeep (Nat.not_lt.1 hd) hk, fun hf => ?_, .inl trivial⟩
    have := hf.shallow rfl
    omega

/-- Behind an operator, a value is wanted. -/
theorem step_cases_waiting (hs : s.Follows before) (hop : EndsInOperator before)
    (hc : t.kind.isComment = false) : Decides before s t := by
  obtain ⟨k, op, span, hp⟩ := hs.operator.1 hop
  by_cases hvalue : IsValueStart t.kind
  · rcases hvalue with ⟨w, hk⟩ | hk
    · have hfits : Fits before (.word w) :=
        ⟨by simp, by simp, by simp, by simp, fun _ => .inl ⟨w, rfl⟩⟩
      rw [Decides, hk]
      refine .inl ⟨_, step_value hp hk, hfits, follows_concat hs ?_ ?_ ?_⟩ <;> split <;> simp [hop]
    · exact step_cases_openBrace hs hk
  · refine .inr ⟨_, step_lackOfValue hp hvalue hc, fun hf => hvalue (hf.value hop), ?_⟩
    cases hk : t.kind <;> simp [lackOfValue, hk, Misfit.IsMisplacement]

/-- Elsewhere, an operator wants a key, and a closing brace an open block. -/
theorem step_cases_ready (hs : s.Follows before) (hop : ¬ EndsInOperator before)
    (hc : t.kind.isComment = false) : Decides before s t := by
  have hdepth := hs.depth
  have hready : s.Ready := hs.ready hop
  have hvalue {k : TokenKind} : EndsInOperator before → IsValueStart k := fun h => absurd h hop
  cases hk : t.kind with
  | comment body => rw [hk] at hc; cases hc
  | openBrace => exact step_cases_openBrace hs hk
  | word w =>
    have hfits : Fits before (.word w) := ⟨by simp, by simp, by simp, by simp, hvalue⟩
    rw [Decides, hk]
    exact .inl ⟨_, step_word hready hk, hfits,
      follows_concat hs (by simp) (by simp [hop]) (by simp)⟩
  | closeBrace =>
    rw [Decides, hk]
    cases hb : s.blocks with
    | nil =>
      rw [hb, List.length_nil] at hdepth
      have hunfit : ¬ Fits before .closeBrace := fun hf => by
        have := hf.closes rfl
        omega
      exact .inr ⟨_, step_strayClosing hready hb hk, hunfit, .inr (.inr ⟨rfl, by omega⟩)⟩
    | cons b bs =>
      rw [hb, List.length_cons] at hdepth
      have hfits : Fits before .closeBrace :=
        ⟨by simp, fun _ => by omega, by simp, by simp, hvalue⟩
      refine .inl ⟨_, step_closeBrace hready hb hk, hfits,
        follows_concat hs ?_ (by simp) (by simp)⟩
      simp [hb]
      omega
  | operator op =>
    rw [Decides, hk]
    by_cases hkey : EndsInKey before
    · obtain ⟨w, hp⟩ := hs.key.1 hkey
      have hfits : Fits before (.operator op) :=
        ⟨by simp, by simp, by simp, fun _ _ => hkey, hvalue⟩
      exact .inl ⟨_, step_operator hp hk, hfits, follows_concat hs (by simp) (by simp) (by simp)⟩
    · have hnone : ∀ w, s.pending ≠ .key w := fun w hp => hkey (hs.key.2 ⟨w, hp⟩)
      exact .inr ⟨_, step_strayOperator hready hnone hk, fun hf => hkey (hf.operator op rfl),
        .inl trivial⟩
  | endOfInput =>
    have hfits : Fits before .endOfInput := ⟨by simp, by simp, by simp, by simp, hvalue⟩
    rw [Decides, hk]
    refine .inl ⟨_, step_endOfInput hready hk, hfits, ?_⟩
    rw [s.settle_eq]
    exact follows_concat hs (by simp) (by simp) (by simp)
  | illegal cause =>
    rw [Decides, hk]
    exact .inr ⟨_, step_illegal hready hk, fun hf => hf.legal cause rfl, .inr (.inl ⟨cause, rfl⟩)⟩

theorem step_cases (hs : s.Follows before) (hc : t.kind.isComment = false) :
    Decides before s t := by
  by_cases hop : EndsInOperator before
  · exact step_cases_waiting hs hop hc
  · exact step_cases_ready hs hop hc

/-- A run takes tokens that all fit, and stops at the first that does not. -/
theorem run_cases (hs : s.Follows before) (hc : ∀ t ∈ ts, t.kind.isComment = false) :
    (∃ s', run .strict s ts = .ok s' ∧ AllFit before (ts.map (·.kind)) ∧
      s'.Follows (before ++ ts.map (·.kind))) ∨
    ∃ m l k r, run .strict s ts = .error m ∧ ts.map (·.kind) = l ++ k :: r ∧
      Refuses (before ++ l) k m := by
  induction ts generalizing s before with
  | nil => exact .inl ⟨s, rfl, allFit_nil, by simpa using hs⟩
  | cons t ts ih =>
    rw [run]
    rcases step_cases hs (hc t List.mem_cons_self) with ⟨s', hstep, hfits, hs'⟩ | ⟨m, hstep, hm⟩
    · rw [hstep]
      rcases ih hs' fun u hu => hc u (List.mem_cons_of_mem _ hu) with
        ⟨s'', hrun, hall, hs''⟩ | ⟨m, l, k, r, hrun, hks, hm⟩
      · refine .inl ⟨s'', hrun, allFit_cons.2 ⟨hfits, hall⟩, ?_⟩
        simpa using hs''
      · refine .inr ⟨m, t.kind :: l, k, r, hrun, by rw [List.map_cons, hks, List.cons_append], ?_⟩
        simpa using hm
    · rw [hstep]
      exact .inr ⟨m, [], t.kind, ts.map (·.kind), rfl, rfl, by simpa using hm⟩

/-! ### The end of a run -/

theorem finish_strict_nil (hb : s.blocks = []) :
    finish .strict s = .ok (closeAll s.settle.done []) := by
  rw [finish.eq_def, hb]

theorem finish_strict_cons {b : OpenBlock} {bs : List OpenBlock} (hb : s.blocks = b :: bs) :
    finish .strict s = .error ⟨.unclosedBlock, b.opened⟩ := by
  rw [finish.eq_def, hb]

/-! ### Comments -/

theorem run_filter (r : Rigour) (s : State) (ts : List Token) :
    run r s (ts.filter (!·.kind.isComment)) = run r s ts := by
  induction ts generalizing s with
  | nil => rfl
  | cons t ts ih =>
    cases hk : t.kind with
    | comment body =>
      rw [List.filter_cons_of_neg (by simp [hk, TokenKind.isComment]), ih,
        run_cons (step_comment hk)]
    | openBrace | closeBrace | operator op | word w | endOfInput | illegal cause =>
      rw [List.filter_cons_of_pos (by simp [hk, TokenKind.isComment]), run, run]
      split
      · exact ih _
      · rfl

end Tree

/-! ## Whole sources -/

/-- The tokens of a source without its comments. -/
def plainKinds (marker source : Text) : List TokenKind :=
  (kinds marker source).filter (!·.isComment)

variable {marker source : Text}

theorem plainKinds_eq_map :
    plainKinds marker source =
      ((tokens marker source).filter (!·.kind.isComment)).map (·.kind) := by
  rw [plainKinds, kinds, List.filter_map]
  rfl

/-- The end of the input keeps operators from being last. -/
theorem not_endsInOperator_plainKinds : ¬ EndsInOperator (plainKinds marker source) := by
  rintro ⟨op, hop⟩
  obtain ⟨ts, q, hts, -⟩ := tokensFrom_eq_append (m := marker) {} source
  rw [plainKinds, kinds, tokens, hts] at hop
  simp [TokenKind.isComment] at hop

open GameScript.Tree in
/-- A source is read if it is grammatical. Otherwise a misfit stops it, which is one of order or
depth when the braces are well. -/
theorem readFrom_strict_cases (marker source : Text) :
    (∃ es, readFrom .strict {} (tokens marker source) = .ok es ∧
      Grammatical (plainKinds marker source)) ∨
    ∃ m, readFrom .strict {} (tokens marker source) = .error m ∧
      ¬ Grammatical (plainKinds marker source) ∧
      (WellBraced (plainKinds marker source) → m.misfit.IsMisplacement) := by
  rw [grammatical_iff not_endsInOperator_plainKinds, plainKinds_eq_map, readFrom, ← run_filter]
  have hcomments : ∀ t ∈ (tokens marker source).filter (!·.kind.isComment),
      t.kind.isComment = false := by simp
  generalize (tokens marker source).filter (!·.kind.isComment) = ts at hcomments ⊢
  rcases run_cases follows_start hcomments with ⟨s, hrun, hall, hs⟩ | ⟨m, l, k, r, hrun, hks, hm⟩
  · have hdepth := hs.depth
    rw [hrun]
    show _ ∨ ∃ m, finish .strict s = .error m ∧ _
    cases hb : s.blocks with
    | nil =>
      rw [hb, List.length_nil, List.nil_append] at hdepth
      exact .inl ⟨_, finish_strict_nil hb, hall, hdepth⟩
    | cons b bs =>
      rw [hb, List.length_cons, List.nil_append] at hdepth
      refine .inr ⟨_, finish_strict_cons hb, fun h => ?_, fun h => ?_⟩
      · have := h.2
        omega
      · have := h.balanced
        omega
  · rw [hrun]
    refine .inr ⟨m, rfl, ?_, ?_⟩
    · rintro ⟨hall, -⟩
      exact hm.unfit (hall l k r hks)
    · intro hbraces
      rcases hm.reason with h | ⟨cause, rfl⟩ | ⟨rfl, hcount⟩
      · exact h
      · exact absurd (by simp [hks]) (hbraces.legal cause)
      · have hcloses := hbraces.closes (l ++ [.closeBrace]) ⟨r, by simp [hks]⟩
        simp at hcloses hcount
        omega

/-! ## The full check -/

open GameScript.Balance in
theorem checkTokens_filter (opened : List Place) (ts : List Token) :
    checkTokens opened (ts.filter (!·.kind.isComment)) = checkTokens opened ts := by
  induction ts generalizing opened with
  | nil => rfl
  | cons t ts ih =>
    cases hk : t.kind with
    | comment body =>
      rw [List.filter_cons_of_neg (by simp [hk, TokenKind.isComment]), ih]
      simp only [checkTokens, hk]
    | openBrace | closeBrace | operator op | word w | endOfInput | illegal cause =>
      rw [List.filter_cons_of_pos (by simp [hk, TokenKind.isComment])]
      simp only [checkTokens, hk, ih]

theorem forall_prefix_cons {ks : List TokenKind} {P : List TokenKind → Prop} :
    (∀ l, l <+: k :: ks → P l) ↔ P [] ∧ ∀ l, l <+: ks → P (k :: l) := by
  constructor
  · exact fun h => ⟨h [] List.nil_prefix, fun l hl => h _ (List.cons_prefix_cons.2 ⟨rfl, hl⟩)⟩
  · rintro ⟨hnil, hcons⟩ l hl
    rcases List.prefix_cons_iff.1 hl with rfl | ⟨l', rfl, hl'⟩
    · exact hnil
    · exact hcons l' hl'

open GameScript.Balance in
/-- Tokens pass the check, with braces open before them, if those are closed too. -/
theorem checkTokens_eq_ok_iff {opened : List Place} {ts : List Token} {ks : List TokenKind}
    (hks : ts.map (·.kind) = ks) :
    checkTokens opened ts = .ok () ↔
      (∀ cause, .illegal cause ∉ ks) ∧
      (∀ l, l <+: ks → l.count .closeBrace ≤ l.count .openBrace + opened.length) ∧
      ks.count .openBrace + opened.length = ks.count .closeBrace := by
  induction ts generalizing opened ks with
  | nil =>
    subst hks
    rw [checkTokens]
    cases opened using List.reverseRecOn with
    | nil => simp
    | append_singleton l place => simp
  | cons t ts ih =>
    subst hks
    rw [List.map_cons, forall_prefix_cons]
    cases hk : t.kind with
    | illegal cause =>
      simp only [checkTokens, hk, reduceCtorEq, false_iff]
      exact fun h => h.1 cause List.mem_cons_self
    | openBrace =>
      simp only [checkTokens, hk, ih rfl]
      simp [Nat.add_assoc, Nat.add_comm 1]
    | closeBrace =>
      cases opened with
      | nil =>
        simp only [checkTokens, hk, reduceCtorEq, false_iff]
        rintro ⟨-, ⟨-, hcloses⟩, -⟩
        have hfirst := hcloses [] List.nil_prefix
        simp at hfirst
      | cons place outer =>
        simp only [checkTokens, hk, ih rfl]
        simp [← Nat.add_assoc]
    | operator op | word w | endOfInput | comment body =>
      simp only [checkTokens, hk, ih rfl]
      simp

theorem checkStructure_eq_ok_iff :
    checkStructure marker source = .ok () ↔ WellBraced (plainKinds marker source) := by
  rw [checkStructure, ← checkTokens_filter, checkTokens_eq_ok_iff plainKinds_eq_map.symm]
  exact ⟨fun ⟨h₁, h₂, h₃⟩ => ⟨h₁, h₂, h₃⟩, fun ⟨h₁, h₂, h₃⟩ => ⟨h₁, h₂, h₃⟩⟩

/-! ## What is read -/

theorem parse_eq_error {r : Rigour} {fault : Fault} :
    parse r marker source = .error fault ↔
      ∃ m, elementsOf r (tokens marker source) = .error m ∧ fault = m.toFault source := by
  rw [parse]
  cases elementsOf r (tokens marker source) with
  | error m =>
    constructor
    · intro h
      cases h
      exact ⟨m, rfl, rfl⟩
    · rintro ⟨m', hm, rfl⟩
      cases hm
      rfl
  | ok es =>
    constructor
    · intro h
      cases h
    · rintro ⟨m, hm, -⟩
      cases hm

/-- **A strict reading accepts exactly what is grammatical.** What it accepts passes the full
check, and what passes the check is refused only for an operator out of place, a value that is
missing or blocks that nest too deep. -/
theorem parse_strict_iff_grammatical (marker source : Text) :
    ((∃ es, parse .strict marker source = .ok es) ↔ Grammatical (plainKinds marker source)) ∧
    ((∃ es, parse .strict marker source = .ok es) → checkStructure marker source = .ok ()) ∧
    (checkStructure marker source = .ok () → ∀ fault, parse .strict marker source = .error fault →
      ∃ m, elementsOf .strict (tokens marker source) = .error m ∧ fault = m.toFault source ∧
        m.misfit.IsMisplacement) := by
  have hiff : (∃ es, parse .strict marker source = .ok es) ↔
      Grammatical (plainKinds marker source) := by
    simp only [parse_eq_ok]
    rcases readFrom_strict_cases marker source with ⟨es, hok, h⟩ | ⟨m, herror, h, -⟩
    · exact ⟨fun _ => h, fun _ => ⟨es, hok⟩⟩
    · refine ⟨?_, fun hg => absurd hg h⟩
      rintro ⟨es, hok⟩
      rw [herror] at hok
      cases hok
  refine ⟨hiff, fun h => checkStructure_eq_ok_iff.2 (hiff.1 h).toWellBraced, ?_⟩
  intro hcheck fault hfault
  obtain ⟨m, hm, rfl⟩ := parse_eq_error.1 hfault
  have hread := elementsOf_tokens.symm.trans hm
  rcases readFrom_strict_cases marker source with ⟨es, hok, -⟩ | ⟨m', herror, -, h⟩
  · rw [hok] at hread
    cases hread
  · obtain rfl := Except.error.inj (herror.symm.trans hread)
    exact ⟨m', hm, rfl, h (checkStructure_eq_ok_iff.1 hcheck)⟩

/-- Braces that are well do not make up for a value that is missing. -/
theorem parse_strict_missingValue :
    checkStructure ['#'] "a = = b" = .ok () ∧
      ∃ m, elementsOf .strict (tokens ['#'] "a = = b") = .error m ∧ m.misfit.IsMisplacement := by
  have hcheck : checkStructure ['#'] "a = = b" = .ok () := by decide +kernel
  have hrefused : (parse .strict ['#'] "a = = b").toOption = none := by decide +kernel
  refine ⟨hcheck, ?_⟩
  cases h : parse .strict ['#'] "a = = b" with
  | ok es => rw [h] at hrefused; cases hrefused
  | error fault =>
    obtain ⟨m, hm, -, hmisplaced⟩ := (parse_strict_iff_grammatical _ _).2.2 hcheck fault h
    exact ⟨m, hm, hmisplaced⟩

end GameScript
