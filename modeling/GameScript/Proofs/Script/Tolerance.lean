import GameScript.Proofs.Script.Descent

/-!
# Tolerance only accepts more

Where a strict reading goes on, a tolerant one goes on to the same state (`step_tolerant`), so
over a run of tokens they stay in step, and what is read strictly is read the same tolerantly.
-/

namespace GameScript

open Lexer GameScript.Tree

namespace Tree

variable {s s' : State} {t : Token}

theorem skip_strict_ne_ok {misfit : Misfit} {span : Span} :
    skip .strict misfit span s ≠ .ok s' := by
  simp [skip]

theorem start_tolerant (h : start .strict s t = .ok s') : start .tolerant s t = .ok s' := by
  rw [start.eq_def] at h ⊢
  cases hk : t.kind with
  | closeBrace =>
    rw [hk] at h
    cases hb : s.blocks with
    | nil => rw [hb] at h; exact absurd h skip_strict_ne_ok
    | cons b bs => rw [hb] at h; exact h
  | operator op => rw [hk] at h; exact absurd h skip_strict_ne_ok
  | illegal cause => rw [hk] at h; exact absurd h skip_strict_ne_ok
  | word key | openBrace | comment body | endOfInput => rw [hk] at h; exact h

/-- What a strict step does, a tolerant step does. -/
theorem step_tolerant (h : step .strict s t = .ok s') : step .tolerant s t = .ok s' := by
  rw [step.eq_def] at h ⊢
  cases hp : s.pending with
  | nothing | key k | keyword k op v =>
    rw [hp] at h
    cases hk : t.kind <;> rw [hk] at h <;> first | exact h | exact start_tolerant h
  | operator k op span =>
    rw [hp] at h
    -- only a value, a brace or a comment goes on strictly from here
    cases hk : t.kind <;> rw [hk] at h <;> first | exact h | cases h

theorem run_tolerant {ts : List Token} (h : run .strict s ts = .ok s') :
    run .tolerant s ts = .ok s' := by
  induction ts generalizing s with
  | nil => exact h
  | cons t ts ih =>
    rw [run] at h ⊢
    split at h
    · next hstep =>
      rw [step_tolerant hstep]
      exact ih h
    · cases h

theorem finish_tolerant {es : List Element} (h : finish .strict s = .ok es) :
    finish .tolerant s = .ok es := by
  rw [finish.eq_def] at h ⊢
  cases hb : s.blocks with
  | nil => rw [hb] at h; exact h
  | cons b bs => rw [hb] at h; cases h

end Tree

theorem readFrom_tolerant {ts : List Token} {es : List Element}
    (h : readFrom .strict {} ts = .ok es) : readFrom .tolerant {} ts = .ok es := by
  rw [readFrom] at h ⊢
  cases hrun : run .strict {} ts with
  | error e => rw [hrun] at h; cases h
  | ok s =>
    rw [hrun] at h
    rw [run_tolerant hrun]
    exact finish_tolerant h

/-- **What is read strictly is read the same tolerantly.** -/
theorem parse_tolerant {marker source : Text} {es : List Element}
    (h : parse .strict marker source = .ok es) : parse .tolerant marker source = .ok es :=
  parse_eq_ok.2 (readFrom_tolerant (parse_eq_ok.1 h))

end GameScript
