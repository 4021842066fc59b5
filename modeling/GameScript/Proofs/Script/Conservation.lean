import GameScript.Proofs.Script.Soundness

/-!
# No word is lost

The keys, operators and values of elements, in the order of the text, are its words and operators
(`marksAll`). A state already holds those of the tokens behind it: a step adds the one that it
takes, and a tolerant one at most leaves out an operator (`Effect.conserves`). So what is read has
every word of the source, in order, and read strictly every operator in its place
(`parse_conserves`).
-/

namespace GameScript

open Text Lexer Element GameScript.Tree

/-! ## Words and operators -/

namespace TokenKind

def word? : TokenKind → Option Text
  | word w => some w
  | _ => none

def isMark : TokenKind → Bool
  | word _ | operator _ => true
  | _ => false

end TokenKind

namespace Element

def headMarks (key : Text) (operator : Option Text) : List TokenKind :=
  (if key = [] then [] else [.word key]) ++ (operator.map .operator).toList

mutual

def marks : Element → List TokenKind
  | leaf k o v => .word k :: ((o.map .operator).toList ++ (v.map .word).toList)
  | block k o es => headMarks k o ++ marksAll es

def marksAll : List Element → List TokenKind
  | [] => []
  | e :: es => marks e ++ marksAll es

end

variable {es fs : List Element}

theorem marksAll_append : marksAll (es ++ fs) = marksAll es ++ marksAll fs := by
  induction es with
  | nil => rfl
  | cons e es ih => rw [List.cons_append, marksAll, marksAll, ih, List.append_assoc]

theorem marksAll_reverse_cons {e : Element} :
    marksAll (e :: es).reverse = marksAll es.reverse ++ marks e := by
  rw [List.reverse_cons, marksAll_append, marksAll, marksAll, List.append_nil]

mutual

/-- The words among the marks are the keys and values. -/
theorem words_eq : (e : Element) → words e = (marks e).filterMap (·.word?)
  | leaf k o v => by cases o <;> cases v <;> rfl
  | block k o es => by
    rw [words, marks, List.filterMap_append, ← wordsAll_eq es, headMarks]
    split <;> cases o <;> rfl

theorem wordsAll_eq : (es : List Element) → wordsAll es = (marksAll es).filterMap (·.word?)
  | [] => rfl
  | e :: es => by rw [wordsAll, marksAll, List.filterMap_append, words_eq e, wordsAll_eq es]

end

end Element

/-! ## What a reading keeps -/

/-- `ks` are the words and operators of `us`. A tolerant reading may leave out operators. -/
structure Conserves (r : Rigour) (ks us : List TokenKind) : Prop where
  words : ks.filterMap (·.word?) = us.filterMap (·.word?)
  marks : ks.Sublist (us.filter (·.isMark))
  strict : r = .strict → ks = us.filter (·.isMark)

variable {r : Rigour} {ks ls us vs : List TokenKind} {k : TokenKind}

theorem Conserves.append (h : Conserves r ks us) (h' : Conserves r ls vs) :
    Conserves r (ks ++ ls) (us ++ vs) where
  words := by rw [List.filterMap_append, List.filterMap_append, h.words, h'.words]
  marks := by
    rw [List.filter_append]
    exact h.marks.append h'.marks
  strict hr := by rw [List.filter_append, h.strict hr, h'.strict hr]

theorem conserves_nil : Conserves r [] [] := ⟨rfl, List.Sublist.refl _, fun _ => rfl⟩

theorem conserves_mark (hk : k.isMark = true) : Conserves r [k] [k] where
  words := rfl
  marks := by simp [hk]
  strict _ := by simp [hk]

theorem conserves_other (hk : k.isMark = false) : Conserves r [] [k] where
  words := by cases k <;> first | rfl | cases hk
  marks := List.nil_sublist _
  strict _ := by simp [hk]

theorem conserves_skipped (hword : ∀ w, k ≠ .word w) : Conserves .tolerant [] [k] where
  words := by
    cases k with
    | word w => exact absurd rfl (hword w)
    | openBrace | closeBrace | operator op | comment body | endOfInput | illegal cause => rfl
  marks := List.nil_sublist _
  strict := nofun

namespace Tree

variable {s s' : State} {t : Token} {ts : List Token} {h : Head} {es done : List Element}
  {bs : List OpenBlock}

/-! ## What a state holds -/

def Head.marks (h : Head) : List TokenKind :=
  headMarks h.key h.operator ++ (h.keyword.map (headMarks · none)).getD []

def Pending.marks : Pending → List TokenKind
  | .nothing => []
  | .key k => [.word k]
  | .operator k op _ => [.word k, .operator op]
  | .keyword k op v => [.word k, .operator op, .word v]

/-- The words and operators of open blocks, in front of what the innermost one holds. -/
def marksBefore : List OpenBlock → List TokenKind
  | [] => []
  | b :: bs => marksBefore bs ++ (marksAll b.before.reverse ++ b.head.marks)

def State.marks (s : State) : List TokenKind :=
  marksBefore s.blocks ++ (marksAll s.done.reverse ++ s.pending.marks)

theorem marks_block : (h.block es).marks = h.marks ++ marksAll es := by
  obtain ⟨k, o, keyword⟩ := h
  cases keyword with
  | none => simp [Head.block, Head.marks, Element.marks]
  | some kw => simp [Head.block, Head.marks, Element.marks, marksAll]

theorem marks_settle :
    marksAll s.settle.done.reverse = marksAll s.done.reverse ++ s.pending.marks := by
  rw [State.settle]
  cases hp : s.pending with
  | nothing => simp [Pending.marks]
  | key k | operator k op span | keyword k op v => exact marksAll_reverse_cons

/-- A word that is pending goes over to the head of a block, since it is not empty. -/
theorem marks_head (hs : .word [] ∉ s.marks) : s.pending.head.marks = s.pending.marks := by
  have hpending : .word [] ∉ s.pending.marks := fun h => hs (by simp [State.marks, h])
  cases hp : s.pending <;> rw [hp] at hpending <;>
    simp_all [Pending.marks, Pending.head, Head.marks, headMarks, Ne.symm]

theorem marks_closeAll :
    marksAll (closeAll done bs) = marksBefore bs ++ marksAll done.reverse := by
  induction bs generalizing done with
  | nil => rfl
  | cons b bs ih =>
    rw [closeAll, ih, marksAll_reverse_cons, marks_block, marksBefore]
    simp only [List.append_assoc]

/-! ## Steps and runs -/

/-- **A step adds what it takes** to what the state holds. -/
theorem Effect.conserves (h : Effect r s t s') (hs : .word [] ∉ s.marks) :
    ∃ ks, s'.marks = s.marks ++ ks ∧ Conserves r ks [t.kind] := by
  cases h with
  | comment hk => exact ⟨[], by simp, conserves_other (by rw [hk]; rfl)⟩
  | word hk _ =>
    refine ⟨[t.kind], ?_, conserves_mark (by rw [hk]; rfl)⟩
    rw [hk, State.marks, marks_settle, State.marks]
    simp [Pending.marks]
  | value hk hp =>
    refine ⟨[t.kind], ?_, conserves_mark (by rw [hk]; rfl)⟩
    rw [hk, State.marks, State.marks, hp]
    split
    · simp [Pending.marks]
    · rw [marksAll_reverse_cons]
      simp [Pending.marks, Element.marks]
  | operator hk hp =>
    refine ⟨[t.kind], ?_, conserves_mark (by rw [hk]; rfl)⟩
    rw [hk, State.marks, State.marks, hp]
    simp [Pending.marks]
  | opens hk _ =>
    refine ⟨[], ?_, conserves_other (by rw [hk]; rfl)⟩
    rw [State.marks, marksBefore, marks_head hs, State.marks]
    simp [marksAll, Pending.marks]
  | closes hk hb _ =>
    refine ⟨[], ?_, conserves_other (by rw [hk]; rfl)⟩
    rw [State.marks, State.marks, hb, marksBefore, marksAll_reverse_cons, marks_block, marks_settle]
    simp [Pending.marks]
  | passes hword _ _ hstrict =>
    refine ⟨[], ?_, ?_⟩
    · rw [s.settle_eq, State.marks, marks_settle, State.marks]
      simp [Pending.marks]
    · cases r with
      | strict => exact conserves_other (by rw [(hstrict rfl).1]; rfl)
      | tolerant => exact conserves_skipped hword

theorem run_conserves (h : run r s ts = .ok s') (hs : .word [] ∉ s.marks)
    (hts : .word [] ∉ ts.map (·.kind)) :
    ∃ ks, s'.marks = s.marks ++ ks ∧ Conserves r ks (ts.map (·.kind)) := by
  induction ts generalizing s with
  | nil =>
    obtain rfl := Except.ok.inj h
    exact ⟨[], by simp, conserves_nil⟩
  | cons t ts ih =>
    rw [List.map_cons, List.mem_cons, not_or] at hts
    rw [run] at h
    split at h
    · next s₁ hstep =>
      obtain ⟨ks, hks, hkept⟩ := (effect_of_step hstep).conserves hs
      have hs₁ : .word [] ∉ s₁.marks := by
        rw [hks, List.mem_append, not_or]
        refine ⟨hs, fun hmem => hts.1 ?_⟩
        exact List.mem_singleton.1 (List.mem_filter.1 (hkept.marks.subset hmem)).1
      obtain ⟨ls, hls, hrest⟩ := ih h hs₁ hts.2
      exact ⟨ks ++ ls, by rw [hls, hks, List.append_assoc], hkept.append hrest⟩
    · cases h

theorem marks_finish (h : finish r s = .ok es) : marksAll es = s.marks := by
  have hall : marksAll (closeAll s.settle.done s.blocks) = s.marks := by
    rw [marks_closeAll, marks_settle, State.marks]
  rw [finish.eq_def] at h
  cases r with
  | tolerant => exact Except.ok.inj h ▸ hall
  | strict =>
    split at h
    · cases h
    · exact Except.ok.inj h ▸ hall

end Tree

/-- **Words are conserved.** The keys and values of what is read, in the order of the text, are the
words of the source; with the operators, each behind its key, a strict reading has all words and
operators of the source, and a tolerant one lacks at most operators. -/
theorem parse_conserves {m source : Text} {es : List Element} (h : parse r m source = .ok es) :
    wordsAll es = (kinds m source).filterMap (·.word?) ∧
      (marksAll es).Sublist ((kinds m source).filter (·.isMark)) ∧
      (r = .strict → marksAll es = (kinds m source).filter (·.isMark)) := by
  have hread := parse_eq_ok.1 h
  rw [readFrom] at hread
  cases hrun : run r {} (tokens m source) with
  | error e =>
    rw [hrun] at hread
    cases hread
  | ok s =>
    rw [hrun] at hread
    have hstart : State.marks {} = [] := rfl
    obtain ⟨ks, hks, hkept⟩ := run_conserves hrun (by simp [hstart])
      fun hmem => ne_nil_of_mem_kinds (.inl hmem) rfl
    have hmarks : marksAll es = ks := (marks_finish hread).trans hks
    rw [wordsAll_eq, hmarks]
    exact ⟨hkept.words, hkept.marks, hkept.strict⟩

def brokenScript : Text :=
  "\x7d sky == hsv # tint\n \x7b 0.6 = = 1 \x7d < \x7b name = \x7d \x7d end \x7b \"open"

def brokenElements : List Element :=
  [.block "sky" "==" [.block "hsv" none [.leaf "0.6" "=" none, .leaf "1" none none]],
    .block [] none [.leaf "name" "=" none], .block "end" none []]

theorem parse_conserves_brokenScript :
    parse .tolerant ['#'] brokenScript = .ok brokenElements ∧
      (kinds ['#'] brokenScript).filterMap (·.word?) =
        (["sky", "hsv", "0.6", "1", "name", "end"] : List Text) := by
  have h : parse .tolerant ['#'] brokenScript = .ok brokenElements :=
    eq_ok_of_toOption (by decide +kernel)
  exact ⟨h, (parse_conserves h).1.symm⟩

end GameScript
