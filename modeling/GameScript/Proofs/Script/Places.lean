import GameScript.Proofs.Script.Lexing
import GameScript.Proofs.Script.Descent

/-!
# Elements do not depend on places

What is read of tokens depends on their kinds. Where tokens stand is kept in a state for the faults
only: without any places a step goes on to the same state without them (`step_unplaced`), and so
does a run. Hence tokens of the same kinds make the same elements (`readFrom_congr`).
-/

namespace GameScript

open Text Lexer

theorem exists_error {ε α : Type} {x : Except ε α} (h : x.toOption = none) :
    ∃ e, x = .error e := by
  cases x with
  | error e => exact ⟨e, rfl⟩
  | ok a => cases h

def nowhere : Span := ⟨{}, 0⟩

def Token.unplaced (t : Token) : Token := { t with span := nowhere }

namespace Tree

def OpenBlock.unplaced (b : OpenBlock) : OpenBlock := { b with opened := nowhere }

def Pending.unplaced : Pending → Pending
  | .operator k op _ => .operator k op nowhere
  | p => p

/-- A state without the places it keeps for faults. -/
def State.unplaced (s : State) : State := ⟨s.blocks.map (·.unplaced), s.done, s.pending.unplaced⟩

variable {r : Rigour} {s : State} {t : Token} {ts : List Token}

theorem settle_unplaced : s.unplaced.settle = s.settle.unplaced := by
  rcases s with ⟨bs, es, _ | _ | _ | _⟩ <;> rfl

theorem enter_unplaced {h : Head} {span : Span} :
    (s.unplaced.enter h nowhere).toOption = (s.enter h span).toOption.map (·.unplaced) := by
  have hdepth : s.unplaced.blocks.length = s.blocks.length := List.length_map _
  rw [State.enter, State.enter, hdepth]
  split <;> rfl

theorem skip_unplaced {misfit : Misfit} {span : Span} :
    (skip r misfit nowhere s.unplaced).toOption =
      (skip r misfit span s).toOption.map (·.unplaced) := by
  cases r <;> rfl

theorem start_unplaced : (start r s.unplaced t.unplaced).toOption =
    (start r s t).toOption.map (·.unplaced) := by
  have hkind : t.unplaced.kind = t.kind := rfl
  rw [start.eq_def, start.eq_def, hkind]
  cases t.kind with
  | word key => rfl
  | comment body | endOfInput => rfl
  | openBrace => exact enter_unplaced
  | operator op | illegal cause => exact skip_unplaced
  | closeBrace =>
    obtain ⟨blocks, done, pending⟩ := s
    cases blocks with
    | nil => exact skip_unplaced
    | cons b bs => rfl

/-- **A step goes on without places** as it does with them. -/
theorem step_unplaced : (step r s.unplaced t.unplaced).toOption =
    (step r s t).toOption.map (·.unplaced) := by
  have hkind : t.unplaced.kind = t.kind := rfl
  have hpending : s.unplaced.pending = s.pending.unplaced := rfl
  rw [step.eq_def, step.eq_def, hkind, hpending]
  have hstart (r : Rigour) : (start r s.unplaced.settle t.unplaced).toOption =
      (start r s.settle t).toOption.map (·.unplaced) := by
    rw [settle_unplaced]
    exact start_unplaced
  cases s.pending with
  | nothing | key k | keyword k op v =>
    cases t.kind <;> first | rfl | exact enter_unplaced | exact hstart r
  | operator k op span =>
    cases t.kind with
    | comment body => rfl
    | openBrace => exact enter_unplaced
    | word v =>
      show some _ = some _
      split <;> rfl
    | closeBrace | operator op' | endOfInput | illegal cause =>
      cases r with
      | strict => rfl
      | tolerant => exact hstart .tolerant

theorem closeAll_unplaced {done : List Element} {bs : List OpenBlock} :
    closeAll done (bs.map (·.unplaced)) = closeAll done bs := by
  induction bs generalizing done with
  | nil => rfl
  | cons b bs ih => exact ih

theorem finish_unplaced : (finish r s.unplaced).toOption = (finish r s).toOption := by
  have hdone : s.unplaced.settle.done = s.settle.done := by rw [settle_unplaced]; rfl
  have hclosed : closeAll s.unplaced.settle.done s.unplaced.blocks =
      closeAll s.settle.done s.blocks := by
    rw [hdone]
    exact closeAll_unplaced
  rw [finish.eq_def, finish.eq_def, hclosed]
  have hblocks : s.unplaced.blocks = s.blocks.map (·.unplaced) := rfl
  rw [hblocks]
  cases r with
  | tolerant => rfl
  | strict => cases s.blocks <;> rfl

/-! ## Tokens that make the same steps -/

section

variable {f : State → State} {g : Token → Token}
  (hstep : ∀ s t, (step r (f s) (g t)).toOption = (step r s t).toOption.map f)
include hstep

theorem run_map (s : State) (ts : List Token) :
    (run r (f s) (ts.map g)).toOption = (run r s ts).toOption.map f := by
  induction ts generalizing s with
  | nil => rfl
  | cons t ts ih =>
    have hstep := hstep s t
    rw [List.map_cons, run, run]
    cases hs : step r s t with
    | error e =>
      rw [hs] at hstep
      obtain ⟨e', he'⟩ := exists_error hstep
      rw [he']
      rfl
    | ok s' =>
      rw [hs] at hstep
      rw [eq_ok_of_toOption hstep]
      exact ih s'

/-- When states that correspond hold the same elements, so do the runs of their tokens. -/
theorem readFrom_map (hstart : f {} = {})
    (hfinish : ∀ s, (finish r (f s)).toOption = (finish r s).toOption) :
    (readFrom r {} (ts.map g)).toOption = (readFrom r {} ts).toOption := by
  have hrun := run_map hstep {} ts
  rw [hstart] at hrun
  rw [readFrom, readFrom]
  cases hs : run r {} ts with
  | error e =>
    rw [hs] at hrun
    obtain ⟨e', he'⟩ := exists_error hrun
    rw [he']
    rfl
  | ok s =>
    rw [hs] at hrun
    rw [eq_ok_of_toOption hrun]
    exact hfinish s

end

end Tree

open GameScript.Tree

variable {r : Rigour} {m m' a b : Text} {ts us : List Token}

theorem readFrom_unplaced :
    (readFrom r {} (ts.map (·.unplaced))).toOption = (readFrom r {} ts).toOption :=
  readFrom_map (f := State.unplaced) (fun _ _ => step_unplaced) rfl fun _ => finish_unplaced

/-- **Tokens of the same kinds make the same elements**, wherever they stand. -/
theorem readFrom_congr (h : ts.map (·.kind) = us.map (·.kind)) :
    (readFrom r {} ts).toOption = (readFrom r {} us).toOption := by
  have hunplaced : ts.map (·.unplaced) = us.map (·.unplaced) := by
    have hall := congrArg (List.map fun k => Token.mk k nowhere) h
    rwa [List.map_map, List.map_map] at hall
  rw [← readFrom_unplaced, hunplaced, readFrom_unplaced]

theorem toOption_parse {source : Text} :
    (parse r m source).toOption = (readFrom r {} (tokens m source)).toOption := by
  rw [parse, elementsOf_tokens]
  cases readFrom r {} (tokens m source) <;> rfl

/-- Sources of the same tokens are read as the same elements. -/
theorem parse_congr (h : kinds m a = kinds m' b) :
    (parse r m a).toOption = (parse r m' b).toOption := by
  rw [toOption_parse, toOption_parse]
  exact readFrom_congr h

end GameScript
