import GameScript.Proofs.Script.Acceptance
import GameScript.Proofs.Script.Canonical
import GameScript.Proofs.Script.Effects

/-!
# What a strict reading makes

Whatever the words of a source are, the elements that are read strictly are shaped, made of words
and operators of the source, and nested no deeper than its braces (`of_parse_strict`). A state
keeps this of what is done and of every open block (`State.Made`), one token at a time.
-/

namespace GameScript

open Text Lexer Element

/-! ## Siblings read one after the other -/

theorem allShaped_concat {es : List Element} {f : Element} :
    AllShaped (es ++ [f]) ↔ AllShaped es ∧ Shaped f ∧
      (f.isAnonymous = true → ∀ e ∈ es.getLast?, e.takesBrace = false) := by
  induction es with
  | nil => simp [AllShaped]
  | cons e es ih =>
    rw [List.cons_append, AllShaped, ih, AllShaped]
    cases es with
    | nil => simp [AllShaped, and_comm, and_left_comm]
    | cons g es =>
      rw [List.getLast?_cons_cons]
      simp only [List.cons_append, List.head?_cons]
      tauto

namespace Tree

variable {ks : List TokenKind} {depth : Nat} {done : List Element} {e : Element} {h : Head}
  {s s' : State} {t : Token} {ts : List Token}

/-- An element made of the tokens `ks`, where `depth` blocks are open around it. -/
structure Within (ks : List TokenKind) (depth : Nat) (e : Element) : Prop where
  words : ∀ w ∈ e.words, .word w ∈ ks
  operators : ∀ o ∈ e.operators, .operator o ∈ ks
  braces : depth + e.braces ≤ maxDepth

theorem Within.key {k : Text} (hd : depth ≤ maxDepth) (hk : .word k ∈ ks) :
    Within ks depth (.leaf k none none) := by
  refine ⟨?_, by simp [Element.operators], by simpa [Element.braces] using hd⟩
  simpa [Element.words] using hk

theorem Within.leaf {k op v : Text} (hd : depth ≤ maxDepth) (hk : .word k ∈ ks)
    (hop : .operator op ∈ ks) (hv : .word v ∈ ks) :
    Within ks depth (.leaf k (some op) (some v)) := by
  refine ⟨?_, by simpa [Element.operators] using hop, by simpa [Element.braces] using hd⟩
  simpa [Element.words] using ⟨hk, hv⟩

structure Made (ks : List TokenKind) (depth : Nat) (done : List Element) : Prop where
  shaped : AllShaped done.reverse
  within : ∀ e ∈ done, Within ks depth e
  depth : depth ≤ maxDepth

theorem Made.cons (hdone : Made ks depth done) (he : Shaped e) (hwithin : Within ks depth e)
    (hbrace : e.isAnonymous = true → ∀ f ∈ done.head?, f.takesBrace = false) :
    Made ks depth (e :: done) where
  shaped := by
    rw [List.reverse_cons, allShaped_concat, List.getLast?_reverse]
    exact ⟨hdone.shaped, he, hbrace⟩
  within := List.forall_mem_cons.2 ⟨hwithin, hdone.within⟩
  depth := hdone.depth

structure Head.MadeOf (h : Head) (ks : List TokenKind) : Prop where
  key : h.key ≠ [] → .word h.key ∈ ks
  operator : ∀ op ∈ h.operator, h.key ≠ [] ∧ .operator op ∈ ks
  keyword : ∀ kw ∈ h.keyword, h.operator.isSome = true ∧ .word kw ∈ ks ∧ isInlineKeyword kw = true

theorem braces_block_le {k : Text} {o : Option Text} {es : List Element} :
    braces (.block k o es) ≤ bracesAll es + 1 := by
  rw [braces]
  split
  · omega
  · omega

/-- A block with a plain head and what was read since its brace. -/
theorem Made.block {k : Text} {o : Option Text} (hdone : Made ks (depth + 1) done)
    (hk : k ≠ [] → .word k ∈ ks) (ho : ∀ op ∈ o, k ≠ [] ∧ .operator op ∈ ks) :
    Shaped (.block k o done.reverse) ∧ Within ks depth (.block k o done.reverse) := by
  have hshaped : Shaped (.block k o done.reverse) := by
    refine ⟨fun hnil => ?_, hdone.shaped⟩
    exact Option.eq_none_iff_forall_not_mem.2 fun op hop => (ho op hop).1 hnil
  refine ⟨hshaped, ?_, ?_, ?_⟩
  · intro w hw
    rw [words, List.mem_append, mem_wordsAll] at hw
    rcases hw with hw | ⟨e, he, hw⟩
    · by_cases hnil : k = []
      · rw [if_pos hnil] at hw
        cases hw
      · rw [if_neg hnil, List.mem_singleton] at hw
        exact hw ▸ hk hnil
    · exact (hdone.within e (List.mem_reverse.1 he)).words w hw
  · intro op hop
    rw [operators, List.mem_append, Option.mem_toList, mem_operatorsAll] at hop
    rcases hop with hop | ⟨e, he, hop⟩
    · exact (ho op hop).2
    · exact (hdone.within e (List.mem_reverse.1 he)).operators op hop
  · have hdepth := hdone.depth
    have hbraces : bracesAll done.reverse ≤ maxDepth - (depth + 1) := by
      refine bracesAll_le.2 fun e he => ?_
      have := (hdone.within e (List.mem_reverse.1 he)).braces
      omega
    have : braces (.block k o done.reverse) ≤ bracesAll done.reverse + 1 := braces_block_le
    omega

theorem Head.MadeOf.block (hh : h.MadeOf ks) (hdone : Made ks (depth + 1) done) :
    Shaped (h.block done.reverse) ∧ Within ks depth (h.block done.reverse) ∧
      ((h.block done.reverse).isAnonymous = true → h.key = []) := by
  have hanon : (h.block done.reverse).isAnonymous = true → h.key = [] := by
    rw [Head.block]
    split
    · simp [isAnonymous, isLeaf, Element.key]
    · simp [isAnonymous, isLeaf, Element.key]
  obtain ⟨k, o, keyword⟩ := h
  cases keyword with
  | none =>
    obtain ⟨hshaped, hwithin⟩ := hdone.block hh.key hh.operator
    exact ⟨hshaped, hwithin, hanon⟩
  | some kw =>
    obtain ⟨hsome, hword, hkw⟩ := hh.keyword kw rfl
    obtain ⟨op, rfl⟩ := Option.isSome_iff_exists.1 hsome
    obtain ⟨hk, hop⟩ := hh.operator op rfl
    obtain ⟨hshaped, hwords, hoperators, hbraces⟩ :=
      hdone.block (k := kw) (o := none) (fun _ => hword) (by simp)
    have hin : Layout.isInline false (some op) [.block kw none done.reverse] = true := hkw
    refine ⟨⟨fun h => absurd h hk, hshaped, by simp, trivial⟩, ⟨?_, ?_, ?_⟩, hanon⟩
    · intro w hw
      simp only [Head.block, words, wordsAll, if_neg hk, List.append_nil, List.mem_append,
        List.mem_singleton] at hw
      rcases hw with rfl | hw
      · exact hh.key hk
      · exact hwords w (by simpa [words] using hw)
    · intro o ho
      simp only [Head.block, operators, operatorsAll, Option.toList_some, List.append_nil,
        List.mem_append, List.mem_singleton] at ho
      rcases ho with rfl | ho
      · exact hop
      · exact hoperators o (by simpa [operators] using ho)
    · rw [Head.block]
      show depth + braces (.block k (some op) [.block kw none done.reverse]) ≤ maxDepth
      rw [braces, if_pos hin, bracesAll, bracesAll, Nat.max_zero]
      exact hbraces

/-! ## States -/

/-- A pending element made of the tokens `ks`. When nothing is pending, no brace is wanted. -/
def Pending.MadeOf (ks : List TokenKind) (done : List Element) : Pending → Prop
  | .nothing => ∀ e ∈ done.head?, e.takesBrace = false
  | .key k => .word k ∈ ks
  | .operator k op _ => .word k ∈ ks ∧ .operator op ∈ ks
  | .keyword k op v => .word k ∈ ks ∧ .operator op ∈ ks ∧ .word v ∈ ks ∧ isInlineKeyword v = true

def Opened (ks : List TokenKind) : List OpenBlock → Prop
  | [] => True
  | b :: bs =>
    b.head.MadeOf ks ∧ (b.head.key = [] → ∀ e ∈ b.before.head?, e.takesBrace = false) ∧
      Made ks bs.length b.before ∧ Opened ks bs

structure State.Made (ks : List TokenKind) (s : State) : Prop where
  done : Tree.Made ks s.blocks.length s.done
  pending : s.pending.MadeOf ks s.done
  blocks : Opened ks s.blocks

section

variable (hks : .word [] ∉ ks)

include hks

theorem ne_nil_of_mem {w : Text} (hw : .word w ∈ ks) : w ≠ [] := fun h => hks (h ▸ hw)

theorem State.Made.head (hs : s.Made ks) : s.pending.head.MadeOf ks ∧
    (s.pending.head.key = [] → ∀ e ∈ s.done.head?, e.takesBrace = false) := by
  have hpending := hs.pending
  cases hp : s.pending with
  | nothing =>
    rw [hp] at hpending
    exact ⟨⟨by simp [Pending.head], by simp [Pending.head], by simp [Pending.head]⟩,
      fun _ => hpending⟩
  | key k =>
    rw [hp] at hpending
    have hk := ne_nil_of_mem hks hpending
    exact ⟨⟨fun _ => hpending, by simp [Pending.head], by simp [Pending.head]⟩,
      fun h => absurd h hk⟩
  | operator k op span =>
    rw [hp] at hpending
    have hk := ne_nil_of_mem hks hpending.1
    refine ⟨⟨fun _ => hpending.1, ?_, by simp [Pending.head]⟩, fun h => absurd h hk⟩
    rintro _ ⟨⟩
    exact ⟨hk, hpending.2⟩
  | keyword k op v =>
    rw [hp] at hpending
    have hk := ne_nil_of_mem hks hpending.1
    refine ⟨⟨fun _ => hpending.1, ?_, ?_⟩, fun h => absurd h hk⟩
    · rintro _ ⟨⟩
      exact ⟨hk, hpending.2.1⟩
    · rintro _ ⟨⟩
      exact ⟨rfl, hpending.2.2⟩

theorem State.Made.settle (hs : s.Made ks) (hready : s.Ready) :
    Tree.Made ks s.blocks.length s.settle.done := by
  have hpending := hs.pending
  have hdone := hs.done
  rw [State.settle]
  cases hp : s.pending with
  | nothing => exact hdone
  | operator k op span => exact absurd hp (hready k op span)
  | key k =>
    rw [hp] at hpending
    exact hdone.cons (ne_nil_of_mem hks hpending) (.key hdone.depth hpending)
      (by simp [isAnonymous, isLeaf])
  | keyword k op v =>
    rw [hp] at hpending
    obtain ⟨hk, hop, hv, -⟩ := hpending
    exact hdone.cons (ne_nil_of_mem hks hk) (.leaf hdone.depth hk hop hv)
      (by simp [isAnonymous, isLeaf])

/-- A strict step keeps to the tokens. -/
theorem State.Made.step (hs : s.Made ks) (ht : t.kind ∈ ks) (hend : t.kind ≠ .endOfInput)
    (h : step .strict s t = .ok s') : s'.Made ks := by
  have hpending := hs.pending
  cases effect_of_step h with
  | comment _ => exact hs
  | @word w hk hready =>
    rw [hk] at ht
    exact ⟨hs.settle hks hready, ht, hs.blocks⟩
  | @value k op v span hk hp =>
    rw [hp] at hpending
    rw [hk] at ht
    split
    · next hv => exact ⟨hs.done, ⟨hpending.1, hpending.2, ht, hv⟩, hs.blocks⟩
    · next hv =>
      have hleaf : Within ks s.blocks.length (.leaf k (some op) (some v)) :=
        .leaf hs.done.depth hpending.1 hpending.2 ht
      refine ⟨hs.done.cons (ne_nil_of_mem hks hpending.1) hleaf (by simp [isAnonymous, isLeaf]),
        ?_, hs.blocks⟩
      rintro _ ⟨⟩
      simpa [takesBrace] using hv
  | operator hk hp =>
    rw [hp] at hpending
    rw [hk] at ht
    exact ⟨hs.done, ⟨hpending, ht⟩, hs.blocks⟩
  | opens hk hd =>
    have hnone : Tree.Made ks (s.blocks.length + 1) [] := ⟨trivial, by simp, hd⟩
    obtain ⟨hhead, hbrace⟩ := hs.head hks
    exact ⟨hnone, by simp [Pending.MadeOf], hhead, hbrace, hs.done, hs.blocks⟩
  | closes hk hb hready =>
    have hblocks := hs.blocks
    have hdone := hs.settle hks (hready rfl)
    rw [hb] at hblocks hdone
    obtain ⟨hhead, hbrace, hbefore, hopened⟩ := hblocks
    obtain ⟨hshaped, hwithin, hanon⟩ := hhead.block hdone
    refine ⟨hbefore.cons hshaped hwithin fun h => hbrace (hanon h), ?_, hopened⟩
    rintro _ ⟨⟩
    rw [Head.block]
    split
    · rfl
    · rfl
  | passes _ _ _ hstrict => exact absurd (hstrict rfl).1 hend

theorem State.Made.run (hs : s.Made ks) (hts : ∀ t ∈ ts, t.kind ∈ ks ∧ t.kind ≠ .endOfInput)
    (h : run .strict s ts = .ok s') : s'.Made ks := by
  induction ts generalizing s with
  | nil =>
    obtain rfl := Except.ok.inj h
    exact hs
  | cons t ts ih =>
    rw [Tree.run] at h
    split at h
    · next hstep =>
      obtain ⟨⟨ht, hend⟩, hts⟩ := List.forall_mem_cons.1 hts
      exact ih (hs.step hks ht hend hstep) hts h
    · cases h

end

theorem made_start : State.Made ks {} where
  done := ⟨trivial, by simp, Nat.zero_le _⟩
  pending := by simp [Pending.MadeOf]
  blocks := trivial

end Tree

/-! ## Whole sources -/

variable {m source : Text} {es : List Element}

/-- What is read as an operator anywhere is one between words. -/
theorem isOperator_of_mem_kinds {o : Text} (h : .operator o ∈ kinds ['#'] source) :
    IsOperator o := by
  obtain ⟨r, hcut⟩ := cutsOff_of_mem_kinds h (ne_nil_of_mem_kinds (.inr h))
  refine isOperator_iff.2 (hcut.operator_before (isCommentAt_operator plainMarker_hash hcut _) ?_)
  rintro c cs ⟨⟩
  rfl

open GameScript.Tree in
/-- A strict reading comes to the end of the input with no operator waiting and no block open. -/
theorem exists_run_of_parse_strict (h : parse .strict m source = .ok es) :
    ∃ ts s, kinds m source = ts.map (·.kind) ++ [.endOfInput] ∧
      (∀ t ∈ ts, t.kind ≠ .endOfInput) ∧ run .strict {} ts = .ok s ∧ s.Ready ∧ s.blocks = [] ∧
      es = s.settle.done.reverse := by
  have hread := parse_eq_ok.1 h
  obtain ⟨ts, q, hts, hend⟩ := tokensFrom_eq_append (m := m) {} source
  rw [tokens, hts, readFrom] at hread
  cases hrun : run .strict {} ts with
  | error e =>
    rw [run_append_error hrun] at hread
    cases hread
  | ok s =>
    rw [run_append hrun] at hread
    have hready : s.Ready := fun k op span hp => by
      rw [run, step_lackOfValue hp (by simp [IsValueStart]) rfl] at hread
      cases hread
    rw [run_cons (step_endOfInput hready rfl), run, State.settle_eq] at hread
    have hread : finish .strict ⟨s.blocks, s.settle.done, .nothing⟩ = .ok es := hread
    have hkinds : kinds m source = ts.map (·.kind) ++ [.endOfInput] := by
      rw [kinds, tokens, hts, List.map_append]
      rfl
    cases hb : s.blocks with
    | cons b bs =>
      rw [hb, finish_strict_cons rfl] at hread
      cases hread
    | nil =>
      rw [hb, finish_strict_nil rfl] at hread
      exact ⟨ts, s, hkinds, hend, hrun, hready, hb, (Except.ok.inj hread).symm⟩

open GameScript.Tree in
/-- **What is read strictly** is shaped, whatever its words, made of words and operators of the
source, and nested no deeper than braces may be. -/
theorem of_parse_strict (h : parse .strict m source = .ok es) :
    AllShaped es ∧ (∀ w ∈ wordsAll es, .word w ∈ kinds m source) ∧
      (∀ o ∈ operatorsAll es, .operator o ∈ kinds m source) ∧ bracesAll es ≤ maxDepth := by
  have hnil : .word [] ∉ kinds m source := fun h => ne_nil_of_mem_kinds (.inl h) rfl
  obtain ⟨ts, s, hkinds, hend, hrun, hready, hb, rfl⟩ := exists_run_of_parse_strict h
  have hs := made_start.run hnil (fun t ht =>
    ⟨hkinds ▸ List.mem_append_left _ (List.mem_map_of_mem ht), hend t ht⟩) hrun
  have hdone := hs.settle hnil hready
  rw [hb] at hdone
  have hall {e : Element} (he : e ∈ s.settle.done.reverse) :
      Within (kinds m source) 0 e := hdone.within e (List.mem_reverse.1 he)
  refine ⟨hdone.shaped, fun w hw => ?_, fun o ho => ?_, bracesAll_le.2 fun e he => ?_⟩
  · obtain ⟨e, he, hw⟩ := mem_wordsAll.1 hw
    exact (hall he).words w hw
  · obtain ⟨e, he, ho⟩ := mem_operatorsAll.1 ho
    exact (hall he).operators o ho
  · simpa using (hall he).braces

theorem allCanonical_of_parse_strict (h : parse .strict ['#'] source = .ok es)
    (hw : ∀ w, .word w ∈ kinds ['#'] source → IsWord w) : AllCanonical es := by
  obtain ⟨hshaped, hwords, hoperators, -⟩ := of_parse_strict h
  exact (allCanonical_iff es).2 ⟨hshaped, fun w h => hw w (hwords w h),
    fun o h => isOperator_of_mem_kinds (hoperators o h)⟩

end GameScript
