import GameScript.Proofs.Script.Lexing
import GameScript.Proofs.Script.Steps

/-!
# The descent reads what the automaton reads

Where a function of the descent is called, the automaton is in a state that holds what the callers
read so far, and where the function returns, the automaton goes on from the state of the callers
(`GoesOn`). The blocks of that state are the calls of `readBody` that have not returned. That is
proved of each function for calls that it makes itself, and by induction on the number of tokens
for all of them (`goesOn_readElements`).
-/

namespace GameScript

open Text Lexer

namespace Tree

variable {r : Rigour} {s s' : State} {t : Token} {ts us : List Token} {bs : List OpenBlock}
  {done : List Element} {k op v : Text} {span : Span}

/-! ## The automaton on the tokens left -/

theorem readFrom_cons (h : step r s t = .ok s') : readFrom r s (t :: ts) = readFrom r s' ts := by
  rw [readFrom, run_cons h, readFrom]

theorem readFrom_error {e : Misplaced} (h : step r s t = .error e) :
    readFrom r s (t :: ts) = .error e := by
  rw [readFrom, run, h]
  rfl

theorem readFrom_skipComments : readFrom r s (skipComments ts) = readFrom r s ts := by
  induction ts with
  | nil => rfl
  | cons t ts ih =>
    rw [skipComments, List.dropWhile_cons]
    split
    · next hc =>
      obtain ⟨body, hk⟩ : ∃ body, t.kind = .comment body := by
        cases hk : t.kind <;> simp_all [TokenKind.isComment]
      rw [readFrom_cons (step_comment hk)]
      exact ih
    · rfl

/-- Tokens that end with the only end of input among them. -/
inductive IsWhole : List Token → Prop where
  | last {t : Token} : t.kind = .endOfInput → IsWhole [t]
  | cons {t : Token} {ts : List Token} : t.kind ≠ .endOfInput → IsWhole ts → IsWhole (t :: ts)

theorem IsWhole.tail (h : IsWhole (t :: ts)) (hk : t.kind ≠ .endOfInput) : IsWhole ts := by
  cases h with
  | last hend => exact absurd hend hk
  | cons _ h => exact h

theorem IsWhole.skipComments (h : IsWhole ts) : IsWhole (skipComments ts) := by
  induction h with
  | @last t hk =>
    rw [Tree.skipComments, List.dropWhile_cons_of_neg (by simp [hk, TokenKind.isComment])]
    exact .last hk
  | @cons t ts hk hts ih =>
    rw [Tree.skipComments, List.dropWhile_cons]
    split
    · exact ih
    · exact .cons hk hts

theorem IsWhole.dropClosing (h : IsWhole ts) : IsWhole (dropClosing ts) := by
  cases h with
  | last hk =>
    rw [Tree.dropClosing, if_neg (by simp [hk])]
    exact .last hk
  | cons hk hts =>
    rw [Tree.dropClosing]
    split
    · exact hts
    · exact .cons hk hts

/-! ## Going on after a call -/

section

variable {α β : Type} {x : Except Misplaced (Reading α ts)}
  {next : α → List Token → Except Misplaced (List Element)}
  {y : Except Misplaced (List Element)}

/-- Whether `y` is what comes of a call `x` when reading goes on with `next`. -/
def GoesOn (x : Except Misplaced (Reading α ts))
    (next : α → List Token → Except Misplaced (List Element))
    (y : Except Misplaced (List Element)) : Prop :=
  match x with
  | .error e => y = .error e
  | .ok a => IsWhole a.rest ∧ y = next a.value a.rest

theorem GoesOn.bind {f : Reading α ts → Except Misplaced (Reading β us)}
    {after : β → List Token → Except Misplaced (List Element)} (h : GoesOn x next y)
    (hf : ∀ a, IsWhole a.rest → GoesOn (f a) after (next a.value a.rest)) :
    GoesOn (x >>= f) after y := by
  cases x with
  | error e => exact h
  | ok a =>
    obtain ⟨ha, rfl⟩ := h
    exact hf a ha

end

/-- What the automaton reads on when the body of the innermost block is read. -/
def resume (r : Rigour) : List OpenBlock → List Element → List Token →
    Except Misplaced (List Element)
  | [], es, _ => .ok es
  | b :: bs, es, rest => readFrom r ⟨bs, b.head.block es :: b.before, .nothing⟩ (dropClosing rest)

/-- The elements of a body are read as the automaton reads them. -/
def AgreesOn (r : Rigour) (ts : List Token) : Prop :=
  ∀ bs done, GoesOn (readElements r (bs.head?.map (·.opened)) bs.length done ts) (resume r bs)
    (readFrom r ⟨bs, done, .nothing⟩ ts)

/-- What the automaton reads on when an element is read. -/
def resumeWith (r : Rigour) (bs : List OpenBlock) (done : List Element) (e : Element)
    (rest : List Token) : Except Misplaced (List Element) :=
  readFrom r ⟨bs, e :: done, .nothing⟩ rest

theorem goesOn_readBody {h : Head} {p : Pending} (hts : AgreesOn r ts) :
    GoesOn (readBody r bs.length span ts) (fun es => resumeWith r bs done (h.block es))
      ((State.enter ⟨bs, done, p⟩ h span).bind (readFrom r · ts)) := by
  rw [readBody, State.enter]
  split
  · rfl
  · exact (hts (⟨h, span, done⟩ :: bs) []).bind fun a ha => ⟨ha.dropClosing, rfl⟩

theorem readFrom_enter {h : Head} {p : Pending}
    (hstep : step r ⟨bs, done, p⟩ t = State.enter ⟨bs, done, p⟩ h t.span) :
    readFrom r ⟨bs, done, p⟩ (t :: ts) =
      (State.enter ⟨bs, done, p⟩ h t.span).bind (readFrom r · ts) := by
  cases hs : State.enter ⟨bs, done, p⟩ h t.span with
  | error e => exact readFrom_error (hstep.trans hs)
  | ok s => exact readFrom_cons (hstep.trans hs)

theorem readFrom_cons_congr (h : step r s t = step r s' t) :
    readFrom r s (t :: ts) = readFrom r s' (t :: ts) := by
  rw [readFrom, readFrom, run, run, h]

/-! ## One element -/

/-- Comments are skipped before the rest of an element is read. -/
def Uncommented (ts : List Token) : Prop := ∀ t ∈ ts.head?, t.kind.isComment = false

theorem uncommented_skipComments : Uncommented (skipComments ts) := by
  intro t ht
  have hhead := List.head?_dropWhile_not (fun t : Token => t.kind.isComment) ts
  rw [← skipComments, Option.mem_def.1 ht] at hhead
  exact hhead

section

variable (hw : IsWhole ts) (hc : Uncommented ts)
  (ih : ∀ us, us.length < ts.length → IsWhole us → AgreesOn r us)
include hw hc ih

theorem goesOn_readValued :
    GoesOn (readValued r bs.length k op v ts) (resumeWith r bs done)
      (readFrom r (if Element.isInlineKeyword v then ⟨bs, done, .keyword k op v⟩
        else ⟨bs, .leaf k (some op) (some v) :: done, .nothing⟩) ts) := by
  cases ts with
  | nil => cases hw
  | cons t ts =>
    have hplain : t.kind.isComment = false := hc t rfl
    rw [readValued]
    split
    · next hbrace =>
      rw [if_pos hbrace.1, readFrom_enter (h := ⟨k, some op, some v⟩) (by simp [step, hbrace.2])]
      refine (goesOn_readBody (ih ts (Nat.lt_succ_self _) (hw.tail ?_))).bind fun a ha => ⟨ha, rfl⟩
      simp [hbrace.2]
    · next hbrace =>
      refine ⟨hw, ?_⟩
      split
      · next hv =>
        have hne : t.kind ≠ .openBrace := fun h => hbrace ⟨hv, h⟩
        refine readFrom_cons_congr ?_
        rw [step.eq_def, step.eq_def]
        cases hk : t.kind <;> simp_all [TokenKind.isComment, State.settle]
      · rfl

theorem goesOn_readOperand :
    GoesOn (readOperand r bs.length k op span ts) (resumeWith r bs done)
      (readFrom r ⟨bs, done, .operator k op span⟩ ts) := by
  cases ts with
  | nil => cases hw
  | cons t ts =>
    have hplain : t.kind.isComment = false := hc t rfl
    obtain ⟨kind, place⟩ := t
    rw [readOperand.eq_def]
    cases kind with
    | openBrace =>
      rw [readFrom_enter (h := ⟨k, some op, none⟩) rfl]
      exact (goesOn_readBody (ih ts (Nat.lt_succ_self _) (hw.tail (by simp)))).bind
        fun a ha => ⟨ha, rfl⟩
    | word v =>
      have hrest : (skipComments ts).length < ts.length + 1 :=
        Nat.lt_succ_of_le (skipComments_suffix ts).length_le
      rw [readFrom_cons (step_value rfl rfl), ← readFrom_skipComments]
      refine (goesOn_readValued (hw.tail (by simp)).skipComments uncommented_skipComments
        fun us hus => ih us (Nat.lt_trans hus hrest)).bind fun a ha => ⟨ha, rfl⟩
    | comment body => cases hplain
    | closeBrace | operator op' | endOfInput | illegal cause =>
      cases r with
      | strict => exact readFrom_error rfl
      | tolerant => exact ⟨hw, readFrom_cons_congr rfl⟩

theorem goesOn_readKeyed :
    GoesOn (readKeyed r bs.length k ts) (resumeWith r bs done)
      (readFrom r ⟨bs, done, .key k⟩ ts) := by
  cases ts with
  | nil => cases hw
  | cons t ts =>
    have hplain : t.kind.isComment = false := hc t rfl
    obtain ⟨kind, place⟩ := t
    rw [readKeyed]
    cases kind with
    | openBrace =>
      rw [readFrom_enter (h := ⟨k, none, none⟩) rfl]
      exact (goesOn_readBody (ih ts (Nat.lt_succ_self _) (hw.tail (by simp)))).bind
        fun a ha => ⟨ha, rfl⟩
    | operator op =>
      have hrest : (skipComments ts).length < ts.length + 1 :=
        Nat.lt_succ_of_le (skipComments_suffix ts).length_le
      rw [readFrom_cons (step_operator rfl rfl), ← readFrom_skipComments]
      refine (goesOn_readOperand (hw.tail (by simp)).skipComments uncommented_skipComments
        fun us hus => ih us (Nat.lt_trans hus hrest)).bind fun a ha => ⟨ha, rfl⟩
    | comment body => cases hplain
    | word v | closeBrace | endOfInput | illegal cause => exact ⟨hw, readFrom_cons_congr rfl⟩

end

/-! ## All elements -/

theorem goesOn_readElements (hw : IsWhole ts) : AgreesOn r ts := by
  induction hn : ts.length using Nat.strongRecOn generalizing ts with
  | ind n ih =>
    intro bs done
    cases ts with
    | nil => cases hw
    | cons t ts =>
      have ih {us : List Token} (hus : us.length < ts.length + 1) (hw : IsWhole us) :
          AgreesOn r us :=
        ih us.length (hn ▸ hus) hw rfl
      have hself : ts.length < ts.length + 1 := Nat.lt_succ_self _
      obtain ⟨kind, place⟩ := t
      rw [readElements.eq_def]
      cases kind with
      | endOfInput =>
        cases hw with
        | cons hne _ => exact absurd rfl hne
        | last hk =>
          cases bs with
          | nil => cases r <;> exact ⟨.last hk, rfl⟩
          | cons b bs =>
            cases r with
            | strict => rfl
            | tolerant => exact ⟨.last hk, rfl⟩
      | closeBrace =>
        cases bs with
        | nil =>
          cases r with
          | strict => exact readFrom_error rfl
          | tolerant =>
            rw [readFrom_cons rfl]
            exact (ih hself (hw.tail (by simp)) [] done).bind fun a ha => ⟨ha, rfl⟩
        | cons b bs => exact ⟨hw, readFrom_cons rfl⟩
      | openBrace =>
        rw [readFrom_enter (h := {}) rfl]
        refine (goesOn_readBody (ih hself (hw.tail (by simp)))).bind fun body hbody => ?_
        have hrest : body.rest.length < ts.length + 1 := Nat.lt_succ_of_le body.isSuffix.length_le
        exact (ih hrest hbody bs _).bind fun a ha => ⟨ha, rfl⟩
      | word key =>
        have hskip := (skipComments_suffix ts).length_le
        rw [readFrom_cons (step_word (by simp [State.Ready]) rfl), ← readFrom_skipComments]
        refine (goesOn_readKeyed (hw.tail (by simp)).skipComments uncommented_skipComments
          fun us hus => ih (by omega)).bind fun e he => ?_
        have hrest : e.rest.length < ts.length + 1 :=
          Nat.lt_succ_of_le (Nat.le_trans e.isSuffix.length_le hskip)
        exact (ih hrest he bs _).bind fun a ha => ⟨ha, rfl⟩
      | operator op | illegal cause =>
        cases r with
        | strict => exact readFrom_error rfl
        | tolerant =>
          rw [readFrom_cons rfl]
          exact (ih hself (hw.tail (by simp)) bs done).bind fun a ha => ⟨ha, rfl⟩
      | comment body =>
        rw [readFrom_cons (step_comment rfl)]
        cases r <;>
          exact (ih hself (hw.tail (by simp)) bs done).bind fun a ha => ⟨ha, rfl⟩

end Tree

open GameScript.Tree

variable {r : Rigour} {m source : Text} {es : List Element}

theorem isWhole_tokens : IsWhole (tokens m source) := by
  obtain ⟨ts, q, hts, hend⟩ := tokensFrom_eq_append (m := m) {} source
  rw [tokens, hts]
  clear hts
  induction ts with
  | nil => exact .last rfl
  | cons t ts ih =>
    exact .cons (hend t List.mem_cons_self) (ih fun u hu => hend u (List.mem_cons_of_mem _ hu))

/-- **The descent and the automaton read the same**, elements and misfits, from every source. -/
theorem elementsOf_tokens : elementsOf r (tokens m source) = readFrom r {} (tokens m source) := by
  have hagree : GoesOn (readElements r none 0 [] (tokens m source)) (resume r [])
      (readFrom r {} (tokens m source)) := goesOn_readElements isWhole_tokens [] []
  rw [elementsOf]
  cases hread : readElements r none 0 [] (tokens m source) with
  | error e =>
    rw [hread] at hagree
    exact Eq.symm hagree
  | ok a =>
    rw [hread] at hagree
    exact hagree.2.symm

theorem parse_eq_ok :
    parse r m source = .ok es ↔ readFrom r {} (tokens m source) = .ok es := by
  rw [parse, elementsOf_tokens]
  cases readFrom r {} (tokens m source) with
  | error e => constructor <;> (intro h; cases h)
  | ok fs => constructor <;> (intro h; cases h; rfl)

end GameScript
