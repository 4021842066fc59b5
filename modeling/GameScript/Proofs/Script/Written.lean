import GameScript.Proofs.Script.Conservation

/-!
# How a script is written

Its elements do not tell all of how a script is written: a block that holds nothing but one with a
keyword of inline values may have a brace in front of the keyword or not. `Written` has what stands
in front of each brace, so that it spells the very tokens of a script. A strict reading reads the
elements off a script that is written so (`exists_written`): a state holds what is written since the
last brace that is open, and what was in front of that one (`State.Holds`), token by token.
-/

namespace GameScript

open Text Element GameScript.Tree

/-- What stands in front of the brace of a block. -/
inductive Front where
  | nothing
  | key (key : Text)
  | operator (key operator : Text)
  /-- The keyword of an inline value. -/
  | keyword (key operator keyword : Text) (isKeyword : isInlineKeyword keyword = true)

namespace Front

def head : Front → Head
  | nothing => {}
  | key k => ⟨k, none, none⟩
  | operator k op => ⟨k, some op, none⟩
  | keyword k op kw _ => ⟨k, some op, some kw⟩

def spell : Front → List TokenKind
  | nothing => []
  | key k => [.word k]
  | operator k op => [.word k, .operator op]
  | keyword k op kw _ => [.word k, .operator op, .word kw]

theorem isMark_of_mem_spell (front : Front) : ∀ k ∈ front.spell, k.isMark = true := by
  cases front <;> simp [spell, TokenKind.isMark]

end Front

/-- An element as it is written: a key with what it is given, or a body in braces. -/
inductive Written where
  | leaf (key : Text) (given : Option (Text × Text))
  | block (front : Front) (body : List Written)

namespace Written

variable {w : Written} {ws us : List Written}

def body : Written → List Written
  | leaf _ _ => []
  | block _ ws => ws

mutual

def element : Written → Element
  | leaf k given => .leaf k (given.map (·.1)) (given.map (·.2))
  | block front ws => front.head.block (elements ws)

def elements : List Written → List Element
  | [] => []
  | w :: ws => w.element :: elements ws

end

mutual

def spell : Written → List TokenKind
  | leaf k none => [.word k]
  | leaf k (some (op, v)) => [.word k, .operator op, .word v]
  | block front ws => front.spell ++ .openBrace :: (spellAll ws ++ [.closeBrace])

def spellAll : List Written → List TokenKind
  | [] => []
  | w :: ws => w.spell ++ spellAll ws

end

theorem isMark_of_mem_leaf (key : Text) (given : Option (Text × Text)) :
    ∀ k ∈ (leaf key given).spell, k.isMark = true := by
  cases given <;> simp [spell, TokenKind.isMark]

theorem elements_append : elements (ws ++ us) = elements ws ++ elements us := by
  induction ws with
  | nil => rfl
  | cons w ws ih => rw [List.cons_append, elements, elements, ih, List.cons_append]

theorem spellAll_append : spellAll (ws ++ us) = spellAll ws ++ spellAll us := by
  induction ws with
  | nil => rfl
  | cons w ws ih => rw [List.cons_append, spellAll, spellAll, ih, List.append_assoc]

theorem elements_concat : elements (ws ++ [w]) = elements ws ++ [w.element] := by
  rw [elements_append, elements, elements]

theorem spellAll_concat : spellAll (ws ++ [w]) = spellAll ws ++ w.spell := by
  rw [spellAll_append, spellAll, spellAll, List.append_nil]

theorem mem_elements {e : Element} : e ∈ elements ws ↔ ∃ w ∈ ws, w.element = e := by
  induction ws with
  | nil => simp [elements]
  | cons w ws ih => simp [elements, ih, eq_comm]

end Written

/-! ## What a state holds -/

namespace Tree

open Written

variable {s s' : State} {t : Token} {ts : List Token} {ks ls : List TokenKind}
  {bs : List OpenBlock}

/-- Whether tokens lead up to these open blocks: the siblings before each one, what stands in front
of its brace, and the brace. -/
def LeadTo (ls : List TokenKind) : List OpenBlock → Prop
  | [] => ls = []
  | b :: bs => ∃ outer before front, LeadTo outer bs ∧ b.before.reverse = elements before ∧
      b.head = Front.head front ∧
      ls = outer ++ (spellAll before ++ (front.spell ++ [.openBrace]))

/-- A state that tokens lead to as they write down what is done in it. -/
structure State.Holds (s : State) (ks : List TokenKind) : Prop where
  exists_written : ∃ ls ws, LeadTo ls s.blocks ∧ s.done.reverse = elements ws ∧
    ks = ls ++ (spellAll ws ++ s.pending.marks)
  isKeyword : ∀ k op v, s.pending = .keyword k op v → isInlineKeyword v = true

theorem holds_start : State.Holds {} [] where
  exists_written := ⟨[], [], rfl, rfl, rfl⟩
  isKeyword := by rintro _ _ _ ⟨⟩

/-- What is pending can stand in front of a brace. -/
theorem State.Holds.exists_front (hs : s.Holds ks) :
    ∃ front : Front, front.head = s.pending.head ∧ front.spell = s.pending.marks := by
  cases hp : s.pending with
  | nothing => exact ⟨.nothing, rfl, rfl⟩
  | key k => exact ⟨.key k, rfl, rfl⟩
  | operator k op span => exact ⟨.operator k op, rfl, rfl⟩
  | keyword k op v => exact ⟨.keyword k op v (hs.isKeyword k op v hp), rfl, rfl⟩

/-- What is pending can be taken as it is, unless an operator waits. -/
theorem State.Ready.exists_settled (hs : s.Ready) :
    ∃ ws, s.settle.done.reverse = s.done.reverse ++ elements ws ∧
      spellAll ws = s.pending.marks := by
  rw [State.settle]
  cases hp : s.pending with
  | nothing => exact ⟨[], (List.append_nil _).symm, rfl⟩
  | key k => exact ⟨[.leaf k none], List.reverse_cons, rfl⟩
  | operator k op span => exact absurd hp (hs k op span)
  | keyword k op v => exact ⟨[.leaf k (some (op, v))], List.reverse_cons, rfl⟩

/-- What is done and pending is written in full. -/
theorem State.Holds.settle (hs : s.Holds ks) (hready : s.Ready) :
    ∃ ls ws, LeadTo ls s.blocks ∧ s.settle.done.reverse = elements ws ∧ ks = ls ++ spellAll ws := by
  obtain ⟨ls, ws, hls, hdone, rfl⟩ := hs.exists_written
  obtain ⟨us, hus, hspell⟩ := hready.exists_settled
  exact ⟨ls, ws ++ us, hls, by rw [hus, hdone, elements_append], by rw [spellAll_append, hspell]⟩

/-- **A strict step holds its token too.** -/
theorem Effect.holds (h : Effect .strict s t s') (hs : s.Holds ks) (hend : t.kind ≠ .endOfInput) :
    s'.Holds (ks ++ [t.kind].filter (!·.isComment)) := by
  cases h with
  | comment hk =>
    rw [hk]
    exact (List.append_nil ks).symm ▸ hs
  | word hk hready =>
    obtain ⟨ls, ws, hls, hdone, rfl⟩ := hs.settle hready
    rw [hk]
    exact ⟨⟨ls, ws, hls, hdone, List.append_assoc _ _ _⟩, by rintro _ _ _ ⟨⟩⟩
  | @value k op v span hk hp =>
    obtain ⟨ls, ws, hls, hdone, rfl⟩ := hs.exists_written
    rw [hk, hp]
    split
    · next hv =>
      refine ⟨⟨ls, ws, hls, hdone, by simp [Pending.marks, TokenKind.isComment]⟩, ?_⟩
      rintro _ _ _ ⟨⟩
      exact hv
    · refine ⟨⟨ls, ws ++ [.leaf k (some (op, v))], hls, ?_, ?_⟩, by rintro _ _ _ ⟨⟩⟩
      · rw [List.reverse_cons, hdone, elements_concat]
        rfl
      · rw [spellAll_concat]
        simp [Pending.marks, Written.spell, TokenKind.isComment]
  | operator hk hp =>
    obtain ⟨ls, ws, hls, hdone, rfl⟩ := hs.exists_written
    rw [hk, hp]
    exact ⟨⟨ls, ws, hls, hdone, by simp [Pending.marks, TokenKind.isComment]⟩, by rintro _ _ _ ⟨⟩⟩
  | opens hk _ =>
    obtain ⟨front, hhead, hspell⟩ := hs.exists_front
    obtain ⟨ls, ws, hls, hdone, rfl⟩ := hs.exists_written
    rw [hk, ← hspell]
    refine ⟨⟨_, [], ⟨ls, ws, front, hls, hdone, hhead.symm, rfl⟩, rfl, ?_⟩, by rintro _ _ _ ⟨⟩⟩
    simp [Written.spellAll, Pending.marks, TokenKind.isComment]
  | closes hk hb hready =>
    obtain ⟨ls, ws, hls, hdone, rfl⟩ := hs.settle (hready rfl)
    rw [hb] at hls
    obtain ⟨outer, before, front, houter, hbefore, hhead, rfl⟩ := hls
    rw [hk, hdone, hhead]
    refine ⟨⟨outer, before ++ [.block front ws], houter, ?_, ?_⟩, by rintro _ _ _ ⟨⟩⟩
    · rw [List.reverse_cons, hbefore, elements_concat]
      rfl
    · rw [spellAll_concat]
      simp [Written.spell, Pending.marks, TokenKind.isComment]
  | passes _ _ _ hstrict => exact absurd (hstrict rfl).1 hend

theorem State.Holds.run (hs : s.Holds ks) (hend : ∀ t ∈ ts, t.kind ≠ .endOfInput)
    (h : run .strict s ts = .ok s') :
    s'.Holds (ks ++ (ts.map (·.kind)).filter (!·.isComment)) := by
  induction ts generalizing s ks with
  | nil =>
    obtain rfl := Except.ok.inj h
    exact (List.append_nil ks).symm ▸ hs
  | cons t ts ih =>
    rw [List.forall_mem_cons] at hend
    rw [Tree.run] at h
    split at h
    · next hstep =>
      have hrest := ih ((effect_of_step hstep).holds hs hend.1) hend.2 h
      rwa [List.append_assoc, ← List.filter_append] at hrest
    · cases h

end Tree

/-- **What is read strictly is written so**, comments left out. -/
theorem exists_written {m source : Text} {es : List Element} (h : parse .strict m source = .ok es) :
    ∃ ws, Written.elements ws = es ∧
      plainKinds m source = Written.spellAll ws ++ [.endOfInput] := by
  obtain ⟨ts, s, hkinds, hend, hrun, hready, hb, rfl⟩ := exists_run_of_parse_strict h
  obtain ⟨ls, ws, hls, hdone, hks⟩ := (holds_start.run hend hrun).settle hready
  rw [hb] at hls
  obtain rfl : ls = [] := hls
  refine ⟨ws, hdone.symm, ?_⟩
  rw [plainKinds, hkinds, List.filter_append, ← List.nil_append (List.filter _ _), hks]
  rfl

end GameScript
