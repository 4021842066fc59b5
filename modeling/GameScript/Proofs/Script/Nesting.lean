import GameScript.Proofs.Script.Acceptance
import GameScript.Proofs.Script.Effects

/-!
# How deep braces nest

`heightAfter` counts the braces that tokens leave open, where a closing brace that closes nothing
does not count. It is the number of open blocks of a tolerant reading (`Effect.length_blocks`),
whatever is out of place in between. So such a reading is stopped by the first brace that goes above
the bound, and by nothing else (`parse_tolerant_high`).
-/

namespace GameScript

open Text Lexer GameScript.Tree

def TokenKind.rise (n : Nat) : TokenKind → Nat
  | openBrace => n + 1
  | closeBrace => n - 1
  | _ => n

/-- The number of open braces behind tokens, of which `n` are open before them. -/
def heightFrom (n : Nat) (ks : List TokenKind) : Nat := ks.foldl TokenKind.rise n

def heightAfter (ks : List TokenKind) : Nat := heightFrom 0 ks

namespace Tree

variable {r : Rigour} {s s' : State} {t : Token}

/-- **Open blocks are open braces**, in every step that goes on. -/
theorem Effect.length_blocks (h : Effect r s t s') :
    s'.blocks.length = t.kind.rise s.blocks.length := by
  cases h with
  | comment hk | word hk _ | operator hk _ => rw [hk]; rfl
  | value hk _ =>
    rw [hk]
    split <;> rfl
  | opens hk _ => rw [hk]; rfl
  | closes hk hb _ => rw [hk, hb]; rfl
  | passes hword hopen hclose _ =>
    rw [s.settle_eq]
    cases hk : t.kind with
    | word w => exact absurd hk (hword w)
    | openBrace => exact absurd hk hopen
    | closeBrace => rw [hclose hk]; rfl
    | operator op | comment body | endOfInput | illegal cause => rfl

def StaysLow (n : Nat) (ks : List TokenKind) : Prop := ∀ l, l <+: ks → heightFrom n l ≤ maxDepth

theorem staysLow_nil {n : Nat} : StaysLow n [] ↔ n ≤ maxDepth := by
  simp [StaysLow, heightFrom]

theorem staysLow_cons {n : Nat} {k : TokenKind} {ks : List TokenKind} :
    StaysLow n (k :: ks) ↔ n ≤ maxDepth ∧ StaysLow (k.rise n) ks :=
  forall_prefix_cons

theorem rise_le {n bound : Nat} {k : TokenKind} (hn : n ≤ bound)
    (hopen : k = .openBrace → n < bound) : k.rise n ≤ bound := by
  cases k with
  | openBrace => exact hopen rfl
  | closeBrace => exact Nat.le_trans (Nat.sub_le n 1) hn
  | word w | operator op | comment body | endOfInput | illegal cause => exact hn

/-- The first brace of tokens that goes above the bound. -/
structure FirstHigh (n : Nat) (before : List Token) (brace : Token) : Prop where
  low : StaysLow n (before.map (·.kind))
  opens : brace.kind = .openBrace
  high : heightFrom n (before.map (·.kind)) = maxDepth

theorem StaysLow.height_ne {ks : List TokenKind} (h : StaysLow 0 ks) :
    ∀ l, l <+: ks → heightAfter l ≠ 257 :=
  fun l hl => Nat.ne_of_lt (Nat.lt_succ_of_le (h l hl))

theorem FirstHigh.height_eq {before : List Token} {brace : Token} (h : FirstHigh 0 before brace) :
    heightAfter ((before ++ [brace]).map (·.kind)) = 257 := by
  have hbefore : heightFrom 0 (before.map (·.kind)) = 256 := h.high
  rw [List.map_append, List.map_singleton, h.opens, heightAfter, heightFrom, List.foldl_append]
  exact congrArg (· + 1) hbefore

/-- A tolerant run goes on as long as braces stay low, and stops at the first one that does not. -/
theorem run_tolerant_cases (ts : List Token) (hs : s.blocks.length ≤ maxDepth) :
    (∃ s', run .tolerant s ts = .ok s' ∧ StaysLow s.blocks.length (ts.map (·.kind))) ∨
    ∃ before brace after, ts = before ++ brace :: after ∧
      FirstHigh s.blocks.length before brace ∧
      run .tolerant s ts = .error ⟨.tooDeep, brace.span⟩ := by
  induction ts generalizing s with
  | nil => exact .inl ⟨s, rfl, staysLow_nil.2 hs⟩
  | cons t ts ih =>
    by_cases hdeep : t.kind = .openBrace ∧ maxDepth ≤ s.blocks.length
    · obtain ⟨hk, hd⟩ := hdeep
      refine .inr ⟨[], t, ts, rfl, ⟨staysLow_nil.2 hs, hk, Nat.le_antisymm hs hd⟩, ?_⟩
      rw [run, step_tooDeep hd hk]
    · have hroom : t.kind = .openBrace → s.blocks.length < maxDepth :=
        fun hk => Nat.not_le.1 fun hd => hdeep ⟨hk, hd⟩
      obtain ⟨s₁, hstep⟩ := exists_step_tolerant hroom
      have hlength := (effect_of_step hstep).length_blocks
      have hs₁ : s₁.blocks.length ≤ maxDepth := hlength ▸ rise_le hs hroom
      rw [run_cons hstep, List.map_cons, staysLow_cons, ← hlength]
      rcases ih hs₁ with ⟨s', hrun, hlow⟩ | ⟨before, brace, after, rfl, hfirst, hrun⟩
      · exact .inl ⟨s', hrun, hs, hlow⟩
      · refine .inr ⟨t :: before, brace, after, rfl, ⟨?_, hfirst.opens, ?_⟩, hrun⟩
        · rw [List.map_cons, staysLow_cons, ← hlength]
          exact ⟨hs, hfirst.low⟩
        · rw [List.map_cons, ← hfirst.high, hlength]
          rfl

/-- What a tolerant reading comes to: all of the source, or the first brace that is too deep. -/
theorem parse_tolerant_cases (m source : Text) :
    (∃ es, parse .tolerant m source = .ok es ∧ StaysLow 0 (kinds m source)) ∨
    ∃ before brace after, tokens m source = before ++ brace :: after ∧ FirstHigh 0 before brace ∧
      parse .tolerant m source = .error (Misplaced.toFault ⟨.tooDeep, brace.span⟩ source) := by
  rcases run_tolerant_cases (s := {}) (tokens m source) (Nat.zero_le _) with
    ⟨s, hrun, hlow⟩ | ⟨before, brace, after, hts, hfirst, hrun⟩
  · refine .inl ⟨closeAll s.settle.done s.blocks, ?_, hlow⟩
    rw [parse, elementsOf_tokens, readFrom, hrun]
    rfl
  · refine .inr ⟨before, brace, after, hts, hfirst, ?_⟩
    rw [parse, elementsOf_tokens, readFrom, hrun]
    rfl

end Tree

/-- **Only depth stops a tolerant reading.** It fails when the braces that are open, those that
close nothing left out, ever get to be 257; then the fault is that of depth, at the first brace
that makes them so many. Otherwise it reads all of the source, whatever is out of place there. -/
theorem parse_tolerant_high (m source : Text) :
    ((∃ fault, parse .tolerant m source = .error fault) ↔
      ∃ l, l <+: kinds m source ∧ heightAfter l = 257) ∧
    (∀ fault, parse .tolerant m source = .error fault → ∃ before brace after,
      tokens m source = before ++ brace :: after ∧
      (∀ l, l <+: before.map (·.kind) → heightAfter l ≠ 257) ∧ brace.kind = .openBrace ∧
      heightAfter ((before ++ [brace]).map (·.kind)) = 257 ∧
      fault = .malformed Misfit.tooDeep.message brace.span.start.line brace.span.start.column
        (brace.span.lineText source)) ∧
    ((∀ l, l <+: kinds m source → heightAfter l ≠ 257) →
      ∃ es, parse .tolerant m source = .ok es) := by
  rcases parse_tolerant_cases m source with
    ⟨es, hok, hlow⟩ | ⟨before, brace, after, hts, hfirst, herror⟩
  · refine ⟨⟨?_, ?_⟩, ?_, fun _ => ⟨es, hok⟩⟩
    · rintro ⟨fault, hfault⟩
      rw [hok] at hfault
      cases hfault
    · rintro ⟨l, hl, hhigh⟩
      exact absurd hhigh (hlow.height_ne l hl)
    · intro fault hfault
      rw [hok] at hfault
      cases hfault
  · have hprefix : (before ++ [brace]).map (·.kind) <+: kinds m source := by
      rw [kinds, hts]
      exact List.IsPrefix.map _ ⟨after, by rw [List.append_assoc]; rfl⟩
    refine ⟨⟨fun _ => ⟨_, hprefix, hfirst.height_eq⟩, fun _ => ⟨_, herror⟩⟩, ?_, ?_⟩
    · intro fault hfault
      rw [herror] at hfault
      obtain rfl := Except.error.inj hfault
      exact ⟨before, brace, after, hts, hfirst.low.height_ne, hfirst.opens, hfirst.height_eq, rfl⟩
    · intro hnever
      exact absurd hfirst.height_eq (hnever _ hprefix)

end GameScript
