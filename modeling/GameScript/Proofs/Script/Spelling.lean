import GameScript.Proofs.Script.Canonical
import GameScript.Proofs.Script.Descent

/-!
# Reading the tokens of an element

From any state that no operator waits in, the tokens of a shaped element add this element and
nothing else, provided that its braces are not too deep there and that nothing pending takes its
brace (`run_spell`). So the tokens of a script are read as its elements, strictly or not
(`readFrom_spell`).
-/

namespace GameScript

open Text Lexer Element

/-! ## The tokens of canonical elements stand -/

section

variable {k : Text} {o : Option Text} {t : TokenKind} {ts : List TokenKind} {b : Prop}
  [Decidable b]

theorem stands_of_mem_key (h : (IsWord k ∧ ∀ op ∈ o, IsOperator op) ∨ (k = [] ∧ o = none))
    (ht : t ∈ if k = [] then [] else [TokenKind.word k]) : Stands ['#'] t := by
  rcases h with ⟨hk, -⟩ | ⟨rfl, -⟩
  · rw [if_neg hk.ne_nil, List.mem_singleton] at ht
    exact ht ▸ hk.stands
  · cases ht

theorem stands_of_mem_operator (h : (IsWord k ∧ ∀ op ∈ o, IsOperator op) ∨ (k = [] ∧ o = none))
    (ht : t ∈ (o.map TokenKind.operator).toList) : Stands ['#'] t := by
  rcases h with ⟨-, ho⟩ | ⟨-, rfl⟩
  · cases o with
    | none => cases ht
    | some op => exact List.mem_singleton.1 ht ▸ (ho op rfl).stands
  · cases ht

theorem stands_of_mem_content (h : ∀ k ∈ ts, Stands ['#'] k)
    (ht : t ∈ if b then ts else .openBrace :: (ts ++ [.closeBrace])) : Stands ['#'] t := by
  split at ht
  · exact h t ht
  · rw [List.mem_cons, List.mem_append, List.mem_singleton] at ht
    rcases ht with rfl | ht | rfl
    · exact ⟨[], cutsOff_openBrace (by decide)⟩
    · exact h t ht
    · exact ⟨[], cutsOff_closeBrace (by decide)⟩

end

mutual

theorem stands_of_mem_spell : (e : Element) → Canonical e → ∀ k ∈ spell e, Stands ['#'] k
  | .leaf k none none, hc, t, ht => by
    cases List.mem_singleton.1 ht
    exact IsWord.stands hc
  | .leaf k (some o) (some v), hc, t, ht => by
    simp only [spell, Option.map_some, Option.toList_some, List.mem_cons, List.mem_append,
      List.not_mem_nil, or_false] at ht
    rcases ht with rfl | rfl | rfl
    · exact hc.1.stands
    · exact hc.2.1.stands
    · exact hc.2.2.stands
  | .leaf _ none (some _), hc, _, _ => hc.elim
  | .leaf _ (some _) none, hc, _, _ => hc.elim
  | .block k o es, hc, t, ht => by
    rw [spell, List.mem_append, List.mem_append] at ht
    rcases ht with ht | ht | ht
    · exact stands_of_mem_key hc.1 ht
    · exact stands_of_mem_operator hc.1 ht
    · exact stands_of_mem_content (stands_of_mem_spellAll es hc.2) ht

theorem stands_of_mem_spellAll : (es : List Element) → AllCanonical es →
    ∀ k ∈ spellAll es, Stands ['#'] k
  | [], _, _, ht => by cases ht
  | e :: es, hc, t, ht =>
    (List.mem_append.1 ht).elim (stands_of_mem_spell e hc.1 t)
      (stands_of_mem_spellAll es hc.2.2 t)

end

namespace Tree

/-- The state after an element. What may yet become the head of a block is pending. -/
def State.take (s : State) (e : Element) : State :=
  match e with
  | .leaf k none none => ⟨s.blocks, s.settle.done, .key k⟩
  | .leaf k (some o) (some v) =>
    if isInlineKeyword v then ⟨s.blocks, s.settle.done, .keyword k o v⟩
    else ⟨s.blocks, .leaf k (some o) (some v) :: s.settle.done, .nothing⟩
  | e => ⟨s.blocks, e :: s.settle.done, .nothing⟩

section

variable {r : Rigour} {s : State} {ts : List Token} {e : Element} {es : List Element} {k : Text}

theorem State.blocks_take : (s.take e).blocks = s.blocks := by
  fun_cases State.take s e <;> rfl

theorem State.done_take : (s.take e).settle.done = e :: s.settle.done := by
  fun_cases State.take s e <;> rfl

theorem State.ready_take : (s.take e).Ready := by
  rintro k op span
  fun_cases State.take s e <;> simp

/-- Nothing pending takes a brace behind an element that does not. -/
theorem State.pending_take (h : e.takesBrace = false) : (s.take e).pending = .nothing := by
  revert h
  fun_cases State.take s e <;> simp_all [takesBrace]

theorem State.blocks_foldl_take : (es.foldl State.take s).blocks = s.blocks := by
  induction es generalizing s with
  | nil => rfl
  | cons e es ih => rw [List.foldl_cons, ih, State.blocks_take]

theorem State.done_foldl_take :
    (es.foldl State.take s).settle.done = es.reverse ++ s.settle.done := by
  induction es generalizing s with
  | nil => rfl
  | cons e es ih => rw [List.foldl_cons, ih, State.done_take, List.reverse_cons, List.append_assoc,
      List.singleton_append]

theorem State.ready_foldl_take (h : s.Ready) : (es.foldl State.take s).Ready := by
  induction es generalizing s with
  | nil => exact h
  | cons e es ih => exact ih State.ready_take

/-! ## One element -/

/-- What is pending before an element does not take its brace. -/
def State.Admits (s : State) (e : Element) : Prop :=
  e.isAnonymous = true → s.pending = .nothing

/-- The tokens of these siblings are read as they are, from any state that lets them. -/
def ReadsAll (r : Rigour) (es : List Element) : Prop :=
  ∀ {s : State} {ts : List Token}, s.Ready → (∀ e ∈ es.head?, s.Admits e) →
    s.blocks.length + bracesAll es ≤ maxDepth → ts.map (·.kind) = spellAll es →
      run r s ts = .ok (es.foldl State.take s)

/-- A key, with an operator or not, waits for its brace. -/
theorem run_head {o : Option Text} (hs : s.Ready)
    (hts : ts.map (·.kind) = .word k :: (o.map .operator).toList) :
    ∃ p : Pending, run r s ts = .ok ⟨s.blocks, s.settle.done, p⟩ ∧ p.head = ⟨k, o, none⟩ := by
  obtain ⟨t, ts, rfl, ht, hts⟩ := List.map_eq_cons_iff.1 hts
  rw [run_cons (step_word hs ht)]
  cases o with
  | none =>
    cases List.map_eq_nil_iff.1 hts
    exact ⟨_, rfl, rfl⟩
  | some op =>
    obtain ⟨u, ts, rfl, hu, hts⟩ := List.map_eq_cons_iff.1 hts
    cases List.map_eq_nil_iff.1 hts
    rw [run_cons (step_operator rfl hu)]
    exact ⟨_, rfl, rfl⟩

/-- A block from its brace on. -/
theorem run_block (hes : ReadsAll r es) (hd : s.blocks.length + bracesAll es < maxDepth)
    (hts : ts.map (·.kind) = .openBrace :: (spellAll es ++ [.closeBrace])) :
    run r s ts = .ok ⟨s.blocks, s.pending.head.block es :: s.done, .nothing⟩ := by
  obtain ⟨t, ts, rfl, ht, hts⟩ := List.map_eq_cons_iff.1 hts
  obtain ⟨cs, us, rfl, hcs, hus⟩ := List.map_eq_append_iff.1 hts
  obtain ⟨u, us, rfl, hu, hus⟩ := List.map_eq_cons_iff.1 hus
  cases List.map_eq_nil_iff.1 hus
  rw [run_cons (step_openBrace (by omega) ht)]
  have hready : State.Ready ⟨⟨s.pending.head, t.span, s.done⟩ :: s.blocks, [], .nothing⟩ := by
    simp [State.Ready]
  have hlength : s.blocks.length + 1 + bracesAll es ≤ maxDepth := by omega
  rw [run_append (hes hready (fun _ _ _ => rfl) hlength hcs),
    run_cons (step_closeBrace (State.ready_foldl_take hready) State.blocks_foldl_take hu),
    State.done_foldl_take]
  simp [run, State.settle]

mutual

/-- **An element is read from its tokens**, in any state that no operator waits in, that does not
take its brace and that it is not too deep for. -/
theorem run_spell (r : Rigour) : (e : Element) → Shaped e →
    ∀ {s : State} {ts : List Token}, s.Ready → s.Admits e → s.blocks.length + e.braces ≤ maxDepth →
      ts.map (·.kind) = spell e → run r s ts = .ok (s.take e)
  | .leaf k none none, _, s, ts, hs, _, _, hts => by
    obtain ⟨t, ts, rfl, ht, hts⟩ := List.map_eq_cons_iff.1 hts
    cases List.map_eq_nil_iff.1 hts
    rw [run_cons (step_word hs ht)]
    rfl
  | .leaf k (some o) (some v), _, s, ts, hs, _, _, hts => by
    obtain ⟨t, ts, rfl, ht, hts⟩ := List.map_eq_cons_iff.1 hts
    obtain ⟨u, ts, rfl, hu, hts⟩ := List.map_eq_cons_iff.1 hts
    obtain ⟨w, ts, rfl, hw, hts⟩ := List.map_eq_cons_iff.1 hts
    cases List.map_eq_nil_iff.1 hts
    rw [run_cons (step_word hs ht), run_cons (step_operator rfl hu), run_cons (step_value rfl hw)]
    rfl
  | .leaf _ none (some _), hc, _, _, _, _, _, _ => hc.elim
  | .leaf _ (some _) none, hc, _, _, _, _, _, _ => hc.elim
  | .block k o es, hc, s, ts, hs, ha, hd, hts => by
    rw [braces] at hd
    rcases spell_block_cases hc with ⟨op, kw, cs, -, rfl, rfl, hkw, hspell⟩ |
      ⟨-, hin, hspell⟩ | ⟨rfl, rfl, hspell⟩
    · rw [hspell] at hts
      obtain ⟨t, ts, rfl, ht, hts⟩ := List.map_eq_cons_iff.1 hts
      obtain ⟨u, ts, rfl, hu, hts⟩ := List.map_eq_cons_iff.1 hts
      obtain ⟨w, ts, rfl, hw, hts⟩ := List.map_eq_cons_iff.1 hts
      -- the keyword waits as a value, and its brace opens the block of the outer key
      have hall : ReadsAll r cs := run_spellAll r cs hc.2.1.2
      have hin : Layout.isInline false (some op) [.block kw none cs] = true := hkw
      have hlength : s.blocks.length + bracesAll cs < maxDepth := by
        simp only [hin, if_true, bracesAll, braces, Layout.isInline_none, Bool.false_eq_true,
          if_false] at hd
        omega
      rw [run_cons (step_word hs ht), run_cons (step_operator rfl hu), run_cons (step_value rfl hw),
        if_pos hkw, run_block (s := ⟨s.blocks, s.settle.done, _⟩) hall hlength hts]
      rfl
    · have hall : ReadsAll r es := run_spellAll r es hc.2
      rw [if_neg (by simp [hin])] at hd
      rw [hspell, ← List.cons_append] at hts
      obtain ⟨hds, bs, rfl, hhds, hbs⟩ := List.map_eq_append_iff.1 hts
      obtain ⟨p, hrun, hp⟩ := run_head (r := r) hs hhds
      rw [run_append hrun,
        run_block (s := ⟨s.blocks, s.settle.done, p⟩) hall (Nat.lt_of_succ_le hd) hbs, hp]
      rfl
    · have hall : ReadsAll r es := run_spellAll r es hc.2
      have hp : s.pending = .nothing := ha rfl
      rw [if_neg (by simp)] at hd
      rw [hspell] at hts
      rw [run_block hall (Nat.lt_of_succ_le hd) hts, hp, State.take, State.settle_of_nothing hp]
      · rfl
      · simp
      · simp

theorem run_spellAll (r : Rigour) : (es : List Element) → AllShaped es → ReadsAll r es
  | [], _, s, ts, _, _, _, hts => by
    cases List.map_eq_nil_iff.1 hts
    rfl
  | e :: es, hc, s, ts, hs, ha, hd, hts => by
    obtain ⟨ts₁, ts₂, rfl, h₁, h₂⟩ := List.map_eq_append_iff.1 hts
    have hd' : s.blocks.length + max e.braces (bracesAll es) ≤ maxDepth := hd
    rw [run_append (run_spell r e hc.1 hs (ha e rfl) (by omega) h₁)]
    refine run_spellAll r es hc.2.2 State.ready_take ?_ (by rw [State.blocks_take]; omega) h₂
    intro f hf hanon
    exact State.pending_take (hc.2.1 f hf hanon)

end

end

end Tree

open GameScript.Tree in
/-- What a run over all tokens but the last leaves is what is read. -/
theorem readFrom_of_run {r : Rigour} {s : State} {ts : List Token} {ks : List TokenKind}
    (h : ts.map (·.kind) = ks ++ [.endOfInput])
    (hrun : ∀ us, us.map (·.kind) = ks → run r {} us = .ok s) (hs : s.Ready)
    (hb : s.blocks = []) : readFrom r {} ts = .ok s.settle.done.reverse := by
  obtain ⟨ts, us, rfl, hts, hus⟩ := List.map_eq_append_iff.1 h
  obtain ⟨u, us, rfl, hu, hus⟩ := List.map_eq_cons_iff.1 hus
  cases List.map_eq_nil_iff.1 hus
  rw [readFrom, run_append (hrun ts hts), run_cons (step_endOfInput hs hu), run, State.settle_eq,
    hb]
  simp [Except.bind, finish, closeAll, State.settle]

open GameScript.Tree in
/-- **The tokens of shaped elements are read as these elements**, strictly or not. -/
theorem readFrom_spell {r : Rigour} {es : List Element} {ts : List Token}
    (hc : AllShaped es) (hd : bracesAll es ≤ maxDepth)
    (h : ts.map (·.kind) = spellAll es ++ [.endOfInput]) : readFrom r {} ts = .ok es := by
  have hready : State.Ready {} := by simp [State.Ready]
  have hread := readFrom_of_run (r := r) h
    (fun us hus => run_spellAll r es hc hready (fun _ _ _ => rfl) (by simpa using hd) hus)
    (State.ready_foldl_take hready) State.blocks_foldl_take
  rw [hread, State.done_foldl_take]
  simp [State.settle]

end GameScript
