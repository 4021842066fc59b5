import GameScript.Proofs.Script.Acceptance
import GameScript.Proofs.Script.Effects
import GameScript.Proofs.Script.Rewrapping

/-!
# Faults point into the source

A reading stops at the token it reads, or lays the fault to one it has passed: the operator that
waits for its value or a brace that is still open (`run_error`). So the place of a fault is the
start of a token. The line is counted while the source is cut, and the text of the line is found by
the byte offset; both tell the same line (`lineText_behind`, `getElem?_splitOn`), so that a fault
shows the line that it names (`parse_error_points`).
-/

namespace GameScript

open Text Lexer

/-! ## The line around a place -/

theorem Span.lineText_behind {span : Span} {before : Text} (h : span.start = .behind before)
    (after : Text) : span.lineText (before ++ after) =
      before.rtakeWhile (· ≠ '\n') ++ after.takeWhile (· ≠ '\n') := by
  have hoffset : span.start.offset = byteSize before := by rw [h]; rfl
  rw [lineText, hoffset, splitAtOffset_append]
  dsimp only
  by_cases hmem : '\n' ∈ before
  · obtain ⟨a, b, rfl, hb⟩ := exists_last_of_mem hmem
    rw [splitLast_append hb, rtakeWhile_append hb]
  · rw [splitLast_of_not_mem hmem, rtakeWhile_of_not_mem hmem]

namespace Tree

variable {r : Rigour} {s s' : State} {t : Token} {ts : List Token} {e : Misplaced}

/-! ## Which token a fault is laid to -/

/-- The spans of the tokens that a fault can still be laid to: open braces, a waiting operator. -/
def State.spans (s : State) : List Span :=
  s.blocks.map (·.opened) ++
    match s.pending with
    | .operator _ _ span => [span]
    | .nothing | .key _ | .keyword .. => []

theorem spans_settle_subset (s : State) : s.settle.spans ⊆ s.spans := by
  rw [s.settle_eq]
  exact List.append_subset.2 ⟨List.subset_append_left _ _, List.nil_subset _⟩

theorem spans_step (h : step r s t = .ok s') : s'.spans ⊆ t.span :: s.spans := by
  have hblocks : s.blocks.map (·.opened) ⊆ t.span :: s.spans :=
    List.subset_cons_of_subset _ (List.subset_append_left _ _)
  cases effect_of_step h with
  | comment => exact List.subset_cons_self _ _
  | word => exact List.append_subset.2 ⟨hblocks, List.nil_subset _⟩
  | value => split <;> exact List.append_subset.2 ⟨hblocks, List.nil_subset _⟩
  | operator =>
    exact List.append_subset.2 ⟨hblocks, List.cons_subset.2 ⟨List.mem_cons_self, List.nil_subset _⟩⟩
  | opens =>
    exact List.append_subset.2 ⟨List.cons_subset.2 ⟨List.mem_cons_self, hblocks⟩, List.nil_subset _⟩
  | @closes b bs _ hb =>
    rw [hb, List.map_cons] at hblocks
    exact List.append_subset.2 ⟨(List.cons_subset.1 hblocks).2, List.nil_subset _⟩
  | passes => exact List.subset_cons_of_subset _ (spans_settle_subset s)

theorem enter_error {head : Head} {span : Span} (h : s.enter head span = .error e) :
    e.span = span := by
  rw [State.enter] at h
  split at h
  · exact Except.error.inj h ▸ rfl
  · cases h

theorem start_error (h : start r s t = .error e) : e.span = t.span := by
  have hskip {misfit : Misfit} (h : skip r misfit t.span s = .error e) : e.span = t.span := by
    cases r with
    | strict => exact Except.error.inj h ▸ rfl
    | tolerant => cases h
  rw [start.eq_def] at h
  cases hk : t.kind with
  | word | comment | endOfInput => rw [hk] at h; cases h
  | operator | illegal => rw [hk] at h; exact hskip h
  | openBrace => rw [hk] at h; exact enter_error h
  | closeBrace =>
    rw [hk] at h
    cases hb : s.blocks with
    | nil => rw [hb] at h; exact hskip h
    | cons => rw [hb] at h; cases h

/-- A missing value is laid to its operator, unless something illegal stands there. -/
theorem span_lackOfValue (op : Text) (span : Span) (t : Token) :
    (lackOfValue op span [t]).span = t.span ∨ (lackOfValue op span [t]).span = span := by
  rw [lackOfValue]
  split
  · exact .inl rfl
  · exact .inr rfl

/-- A step that stops blames the token that it reads, or the operator that waits. -/
theorem step_error (h : step r s t = .error e) : e.span ∈ t.span :: s.spans := by
  have hself (h : e.span = t.span) : e.span ∈ t.span :: s.spans := h ▸ List.mem_cons_self
  rw [step.eq_def] at h
  split at h
  · cases h
  · exact hself (enter_error h)
  · cases h
  · exact hself (enter_error h)
  · cases h
  · next k op span hp _ _ _ =>
    have hwaits : span ∈ s.spans := List.mem_append_right _ (by rw [hp]; exact List.mem_cons_self)
    split at h
    · rw [← Except.error.inj h]
      rcases span_lackOfValue op span t with hs | hs
      · rw [hs]
        exact List.mem_cons_self
      · rw [hs]
        exact List.mem_cons_of_mem _ hwaits
    · exact hself (start_error h)
  · exact hself (enter_error h)
  · exact hself (start_error h)

/-- A fault is laid to a token that is read or was read before. -/
theorem run_error (h : run r s ts = .error e) : e.span ∈ ts.map (·.span) ++ s.spans := by
  induction ts generalizing s with
  | nil => cases h
  | cons t ts ih =>
    rw [run] at h
    have hrest : t.span :: s.spans ⊆ (t :: ts).map (·.span) ++ s.spans :=
      List.cons_subset_cons _ (List.subset_append_right _ _)
    split at h
    · next s' hstep =>
      rcases List.mem_append.1 (ih h) with hmem | hmem
      · exact List.mem_append_left _ (List.mem_cons_of_mem _ hmem)
      · exact hrest (spans_step hstep hmem)
    · next hstep =>
      obtain rfl := Except.error.inj h
      exact hrest (step_error hstep)

theorem spans_run (h : run r s ts = .ok s') : s'.spans ⊆ ts.map (·.span) ++ s.spans := by
  induction ts generalizing s with
  | nil => exact Except.ok.inj h ▸ List.Subset.refl _
  | cons t ts ih =>
    rw [run] at h
    split at h
    · next s₁ hstep =>
      refine List.Subset.trans (ih h) (List.append_subset.2 ⟨?_, ?_⟩)
      · exact List.subset_append_of_subset_left _ (List.subset_cons_self _ _)
      · exact List.Subset.trans (spans_step hstep)
          (List.cons_subset_cons _ (List.subset_append_right _ _))
    · cases h

theorem finish_error (h : finish r s = .error e) : e.span ∈ s.spans := by
  rw [finish.eq_def] at h
  split at h
  · next b bs hb =>
    rw [← Except.error.inj h, State.spans, hb]
    exact List.mem_cons_self
  · cases h

theorem exists_span_of_readFrom_error (h : readFrom r {} ts = .error e) :
    ∃ t ∈ ts, t.span = e.span := by
  have hmem : e.span ∈ ts.map (·.span) ++ State.spans {} := by
    rw [readFrom] at h
    cases hrun : run r {} ts with
    | error e' =>
      rw [hrun] at h
      exact Except.error.inj h ▸ run_error hrun
    | ok s =>
      rw [hrun] at h
      exact spans_run hrun (finish_error h)
  have hnone : State.spans {} = [] := rfl
  rw [hnone, List.append_nil] at hmem
  exact List.mem_map.1 hmem

end Tree

/-! ## What a fault shows -/

/-- Whether a fault names where a token of the source starts, and shows the line of that place. -/
structure Fault.PointsInto (m source : Text) (fault : Fault) (t : Token) (shown : Text) : Prop where
  mem : t ∈ tokens m source
  malformed : ∃ message,
    fault = .malformed message t.span.start.line t.span.start.column shown
  line : 1 ≤ t.span.start.line ∧ t.span.start.line ≤ 1 + source.count '\n'
  /-- The line with that number, counted from one, among the pieces between line feeds. -/
  pieces : (splitOn '\n' source)[t.span.start.line - 1]? = some shown
  column : 1 ≤ t.span.start.column ∧ t.span.start.column ≤ shown.length + 1

/-- **Every fault points into the source.** Whatever the source, the marker of comments and the
rigour, a reading that fails names the line and column where some token starts, and shows that line
of the source: the line is one of those that line feeds part, and the column one of its characters
or the place behind them. -/
theorem parse_error_points {r : Rigour} {m source : Text} {fault : Fault}
    (h : parse r m source = .error fault) : ∃ t shown, fault.PointsInto m source t shown := by
  obtain ⟨e, he, rfl⟩ := parse_eq_error.1 h
  rw [elementsOf_tokens] at he
  obtain ⟨t, ht, hspan⟩ := Tree.exists_span_of_readFrom_error he
  obtain ⟨before, ⟨after, rfl⟩, hstart⟩ := (tokens_tile m source).places t ht
  have hline : t.span.start.line = 1 + before.count '\n' := by rw [hstart]; rfl
  have hcolumn : t.span.start.column = 1 + (before.rtakeWhile (· ≠ '\n')).length := by
    rw [hstart]; rfl
  have hshown := t.span.lineText_behind hstart after
  refine ⟨t, t.span.lineText (before ++ after), ht, ⟨e.misfit.message, ?_⟩, ⟨?_, ?_⟩, ?_, ?_, ?_⟩
  · rw [hspan]
    rfl
  · omega
  · rw [hline, List.count_append]
    omega
  · rw [hline, Nat.add_sub_cancel_left, hshown]
    exact getElem?_splitOn '\n' before after
  · omega
  · rw [hcolumn, hshown, List.length_append]
    omega

/-- A value that is missing on the second line is laid to its operator. -/
theorem parse_error_points_missingValue :
    ∃ fault t shown, parse .strict ['#'] "ok = 1\nbad = \x7d" = .error fault ∧
      fault = .malformed "expected a value after '=', found '\x7d'" 2 5 "bad = \x7d" ∧
      fault.PointsInto ['#'] "ok = 1\nbad = \x7d" t shown := by
  have hfails : parse .strict ['#'] "ok = 1\nbad = \x7d" =
      .error (.malformed "expected a value after '=', found '\x7d'" 2 5 "bad = \x7d") := by
    decide +kernel
  obtain ⟨t, shown, hpoints⟩ := parse_error_points hfails
  exact ⟨_, t, shown, hfails, rfl, hpoints⟩

end GameScript
