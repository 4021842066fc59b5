import GameScript.Proofs.Script.Automaton

/-!
# Steps of reading a tree

What each token does in a state that no operator waits in, and how runs are put together. Here
`settle` takes what is pending, and a brace gives the pending head to the block it opens.
-/

namespace GameScript

open Text Lexer Element

theorem eq_ok_of_toOption {ε α : Type} {x : Except ε α} {a : α} (h : x.toOption = some a) :
    x = .ok a := by
  cases x with
  | error e => cases h
  | ok b => exact congrArg _ (Option.some.inj h)

namespace Tree

variable {r : Rigour} {s s' : State} {t : Token} {ts us : List Token} {k op v : Text} {span : Span}

/-- No operator waits for its value. -/
def State.Ready (s : State) : Prop := ∀ k op span, s.pending ≠ .operator k op span

theorem State.settle_eq (s : State) : s.settle = ⟨s.blocks, s.settle.done, .nothing⟩ := by
  rcases s with ⟨bs, es, _ | _ | _ | _⟩ <;> rfl

theorem State.settle_of_nothing (h : s.pending = .nothing) : s.settle = s := by
  rw [State.settle, h]

/-! ## Runs -/

theorem run_cons (h : step r s t = .ok s') : run r s (t :: ts) = run r s' ts := by
  rw [run, h]

theorem run_append (h : run r s ts = .ok s') : run r s (ts ++ us) = run r s' us := by
  induction ts generalizing s with
  | nil => cases h; rfl
  | cons t ts ih =>
    rw [run] at h
    split at h
    · next hstep => rw [List.cons_append, run_cons hstep, ih h]
    · cases h

theorem run_append_error {e : Misplaced} (h : run r s ts = .error e) :
    run r s (ts ++ us) = .error e := by
  induction ts generalizing s with
  | nil => cases h
  | cons t ts ih =>
    rw [run] at h
    rw [List.cons_append, run]
    cases hstep : step r s t with
    | ok s' => rw [hstep] at h; exact ih h
    | error e' => rw [hstep] at h; exact h

/-! ## Single tokens -/

theorem enter_eq {h : Head} (hd : s.blocks.length < maxDepth) :
    s.enter h span = .ok ⟨⟨h, span, s.done⟩ :: s.blocks, [], .nothing⟩ :=
  if_neg (Nat.not_le.2 hd)

/-- Whether a token continues no key and no keyword. -/
def startsAnew : TokenKind → Bool
  | .comment _ | .openBrace | .operator _ => false
  | .word _ | .closeBrace | .endOfInput | .illegal _ => true

theorem step_eq_start (hs : s.Ready) (ht : startsAnew t.kind = true) :
    step r s t = start r s.settle t := by
  fun_cases step r s t <;> simp_all [State.Ready, startsAnew]

theorem step_comment {body : Text} (ht : t.kind = .comment body) : step r s t = .ok s := by
  rw [step.eq_def]
  cases s.pending <;> simp [ht]

theorem step_word (hs : s.Ready) (ht : t.kind = .word k) :
    step r s t = .ok ⟨s.blocks, s.settle.done, .key k⟩ := by
  rw [step_eq_start hs (by rw [ht]; rfl), start, ht, s.settle_eq]

theorem step_operator (hp : s.pending = .key k) (ht : t.kind = .operator op) :
    step r s t = .ok { s with pending := .operator k op t.span } := by
  rw [step, hp, ht]

theorem step_closeBrace {b : OpenBlock} {bs : List OpenBlock} (hs : s.Ready)
    (hb : s.blocks = b :: bs) (ht : t.kind = .closeBrace) :
    step r s t = .ok ⟨bs, b.head.block s.settle.done.reverse :: b.before, .nothing⟩ := by
  rw [step_eq_start hs (by rw [ht]; rfl), start, ht, s.settle_eq]
  simp [hb]

theorem step_value (hp : s.pending = .operator k op span) (ht : t.kind = .word v) :
    step r s t = .ok (if isInlineKeyword v then ⟨s.blocks, s.done, .keyword k op v⟩
      else ⟨s.blocks, .leaf k (some op) (some v) :: s.done, .nothing⟩) := by
  rw [step, hp, ht]
  rfl

/-- The head that a block gets from what is pending before its brace. -/
def Pending.head : Pending → Head
  | .nothing => {}
  | .key k => ⟨k, none, none⟩
  | .operator k op _ => ⟨k, some op, none⟩
  | .keyword k op v => ⟨k, some op, some v⟩

theorem step_openBrace (hd : s.blocks.length < maxDepth) (ht : t.kind = .openBrace) :
    step r s t = .ok ⟨⟨s.pending.head, t.span, s.done⟩ :: s.blocks, [], .nothing⟩ := by
  rw [← enter_eq hd, step.eq_def]
  cases hp : s.pending <;> simp [ht, start, Pending.head, State.settle_of_nothing, hp]

theorem step_tooDeep (hd : maxDepth ≤ s.blocks.length) (ht : t.kind = .openBrace) :
    step r s t = .error ⟨.tooDeep, t.span⟩ := by
  rw [step.eq_def]
  cases hp : s.pending <;>
    simp [ht, start, State.enter, State.settle_of_nothing, hp, Nat.not_lt.2 hd]

/-- The end of the input changes nothing that counts. -/
theorem step_endOfInput (hs : s.Ready) (ht : t.kind = .endOfInput) : step r s t = .ok s.settle := by
  rw [step_eq_start hs (by rw [ht]; rfl), start, ht]

end Tree

end GameScript
