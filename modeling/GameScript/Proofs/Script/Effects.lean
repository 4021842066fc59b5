import GameScript.Proofs.Script.Steps

/-!
# What a step does

A step that goes on has one of seven effects, strictly or not (`effect_of_step`): it takes a word, a
value, an operator, opens a block, closes one, or leaves out a comment or what a tolerant reading
passes over. A tolerant step always goes on, unless a brace opens too deep (`exists_step_tolerant`).
-/

namespace GameScript.Tree

open Element

variable {r : Rigour} {s s' : State} {t : Token}

/-- What a step from `s` over `t` can lead to. -/
inductive Effect (r : Rigour) (s : State) (t : Token) : State → Prop where
  | comment {body : Text} : t.kind = .comment body → Effect r s t s
  | word {w : Text} : t.kind = .word w → s.Ready → Effect r s t ⟨s.blocks, s.settle.done, .key w⟩
  | value {k op v : Text} {span : Span} : t.kind = .word v → s.pending = .operator k op span →
      Effect r s t (if isInlineKeyword v then ⟨s.blocks, s.done, .keyword k op v⟩
        else ⟨s.blocks, .leaf k (some op) (some v) :: s.done, .nothing⟩)
  | operator {k op : Text} : t.kind = .operator op → s.pending = .key k →
      Effect r s t { s with pending := .operator k op t.span }
  | opens : t.kind = .openBrace → s.blocks.length < maxDepth →
      Effect r s t ⟨⟨s.pending.head, t.span, s.done⟩ :: s.blocks, [], .nothing⟩
  | closes {b : OpenBlock} {bs : List OpenBlock} : t.kind = .closeBrace → s.blocks = b :: bs →
      (r = .strict → s.Ready) →
      Effect r s t ⟨bs, b.head.block s.settle.done.reverse :: b.before, .nothing⟩
  | passes : (∀ w, t.kind ≠ .word w) → t.kind ≠ .openBrace →
      (t.kind = .closeBrace → s.blocks = []) → (r = .strict → t.kind = .endOfInput ∧ s.Ready) →
      Effect r s t s.settle

/-- Whether what is pending is taken as it is before this token, unless it is the operator of a
key. -/
def endsPending : TokenKind → Bool
  | .closeBrace | .operator _ | .endOfInput | .illegal _ => true
  | .word _ | .openBrace | .comment _ => false

theorem step_eq_start_of_endsPending (ht : endsPending t.kind = true)
    (hkey : ∀ k op, s.pending = .key k → t.kind ≠ .operator op) (hready : r = .strict → s.Ready) :
    step r s t = start r s.settle t := by
  cases hp : s.pending with
  | operator k op span =>
    cases r with
    | strict => exact absurd hp (hready rfl k op span)
    | tolerant =>
      rw [step.eq_def, hp]
      cases hk : t.kind <;> simp_all [endsPending]
  | nothing | key k | keyword k op v =>
    rw [step.eq_def, hp]
    cases hk : t.kind <;> simp_all [endsPending]

/-- What is pending is taken, and so is the block that a brace closes. -/
theorem effect_of_start (ht : endsPending t.kind = true) (hready : r = .strict → s.Ready)
    (h : start r s.settle t = .ok s') : Effect r s t s' := by
  have hblocks : s.settle.blocks = s.blocks := by rw [s.settle_eq]
  have hpasses (hopen : t.kind ≠ .openBrace) (hclose : t.kind = .closeBrace → s.blocks = [])
      (hend : r = .strict → t.kind = .endOfInput) (hs : s.settle = s') : Effect r s t s' :=
    hs ▸ .passes (fun w hw => by rw [hw] at ht; cases ht) hopen hclose
      fun hr => ⟨hend hr, hready hr⟩
  rw [start.eq_def] at h
  cases hk : t.kind with
  | word w | openBrace | comment body => rw [hk] at ht; cases ht
  | endOfInput =>
    rw [hk] at h
    exact hpasses (by simp [hk]) (by simp [hk]) (fun _ => hk) (Except.ok.inj h)
  | operator op | illegal cause =>
    rw [hk] at h
    cases r with
    | strict => cases h
    | tolerant => exact hpasses (by simp [hk]) (by simp [hk]) nofun (Except.ok.inj h)
  | closeBrace =>
    rw [hk] at h
    cases hb : s.blocks with
    | cons b bs =>
      rw [hblocks, hb] at h
      exact Except.ok.inj h ▸ .closes hk hb hready
    | nil =>
      rw [hblocks, hb] at h
      cases r with
      | strict => cases h
      | tolerant => exact hpasses (by simp [hk]) (fun _ => hb) nofun (Except.ok.inj h)

/-- Strictly, nothing that ends what is pending goes on from an operator. -/
theorem ready_of_step (ht : endsPending t.kind = true) (h : step r s t = .ok s') :
    r = .strict → s.Ready := by
  rintro rfl k op span hp
  rw [step.eq_def, hp] at h
  cases hk : t.kind with
  | word w | openBrace | comment body => rw [hk] at ht; cases ht
  | closeBrace | operator op' | endOfInput | illegal cause => rw [hk] at h; cases h

/-- **A step that goes on has one of these effects.** -/
theorem effect_of_step (h : step r s t = .ok s') : Effect r s t s' := by
  have hends (ht : endsPending t.kind = true)
      (hkey : ∀ k op, s.pending = .key k → t.kind ≠ .operator op) : Effect r s t s' := by
    have hready := ready_of_step ht h
    rw [step_eq_start_of_endsPending ht hkey hready] at h
    exact effect_of_start ht hready h
  cases hk : t.kind with
  | comment body =>
    rw [step_comment hk] at h
    exact Except.ok.inj h ▸ .comment hk
  | openBrace =>
    by_cases hd : s.blocks.length < maxDepth
    · rw [step_openBrace hd hk] at h
      exact Except.ok.inj h ▸ .opens hk hd
    · rw [step_tooDeep (Nat.not_lt.1 hd) hk] at h
      cases h
  | word w =>
    cases hp : s.pending with
    | operator k op span =>
      rw [step_value hp hk] at h
      exact Except.ok.inj h ▸ .value hk hp
    | nothing | key k | keyword k op v =>
      have hready : s.Ready := by simp [State.Ready, hp]
      rw [step_word hready hk] at h
      exact Except.ok.inj h ▸ .word hk hready
  | operator op =>
    cases hp : s.pending with
    | key k =>
      rw [step_operator hp hk] at h
      exact Except.ok.inj h ▸ .operator hk hp
    | nothing | operator k op' span | keyword k op' v =>
      exact hends (by rw [hk]; rfl) (by simp [hp])
  | closeBrace | endOfInput | illegal cause => exact hends (by rw [hk]; rfl) (by simp [hk])

theorem exists_start_tolerant (ht : endsPending t.kind = true) :
    ∃ s', start .tolerant s t = .ok s' := by
  rw [start.eq_def]
  cases hk : t.kind with
  | word w | openBrace | comment body => rw [hk] at ht; cases ht
  | operator op | illegal cause | endOfInput => exact ⟨_, rfl⟩
  | closeBrace => cases hb : s.blocks <;> exact ⟨_, rfl⟩

/-- **A tolerant step goes on**, unless a brace opens too deep. -/
theorem exists_step_tolerant (h : t.kind = .openBrace → s.blocks.length < maxDepth) :
    ∃ s', step .tolerant s t = .ok s' := by
  have hends (ht : endsPending t.kind = true)
      (hkey : ∀ k op, s.pending = .key k → t.kind ≠ .operator op) :
      ∃ s', step .tolerant s t = .ok s' := by
    rw [step_eq_start_of_endsPending (r := .tolerant) ht hkey nofun]
    exact exists_start_tolerant ht
  cases hk : t.kind with
  | comment body => exact ⟨_, step_comment hk⟩
  | openBrace => exact ⟨_, step_openBrace (h hk) hk⟩
  | word w =>
    cases hp : s.pending with
    | operator k op span => exact ⟨_, step_value hp hk⟩
    | nothing | key k | keyword k op v => exact ⟨_, step_word (by simp [State.Ready, hp]) hk⟩
  | operator op =>
    cases hp : s.pending with
    | key k => exact ⟨_, step_operator hp hk⟩
    | nothing | operator k op' span | keyword k op' v =>
      exact hends (by rw [hk]; rfl) (by simp [hp])
  | closeBrace | endOfInput | illegal cause => exact hends (by rw [hk]; rfl) (by simp [hk])

end GameScript.Tree
