import GameScript.Proofs.Script.Brackets
import GameScript.Proofs.Script.Printing
import GameScript.Proofs.Script.Soundness
import GameScript.Proofs.Script.Spelling

/-!
# Reading canonical text again

A key that leaves a bracket open takes into itself what follows it on its line: the operator and
the value of a leaf, and what stands before the brace of a block. A bare word made in this way
takes the brace of an anonymous block after it. So the canonical text of elements is read as
`rereadAll` says, whatever their words are (`readsAs_formatAll`), and these elements can be read,
being shaped and no deeper than the elements written.
-/

namespace GameScript

open Text Lexer Layout

namespace Element

/-! ## The elements that are read -/

/-- A block whose key leaves a bracket open: what stands before the brace belongs to the key. -/
def swallow (k : Text) (o : Option Text) (es : List Element) : Element :=
  match es, Layout.isInline false o es with
  | [block kw _ cs], true => block (headText k o ++ ' ' :: (kw ++ [' '])) none cs
  | es, _ => block (headText k o ++ [' ']) none es

/-- A bare word in front of elements: it takes the brace of an anonymous block. -/
def attach (k : Text) : List Element → List Element
  | block [] none cs :: es => block k none cs :: es
  | es => leaf k none none :: es

mutual

def reread : Element → Element
  | leaf k o v => if leavesOpen k then leaf (leafText k o v) none none else leaf k o v
  | block k o es =>
    if leavesOpen k then swallow k o (rereadAll es) else block k o (rereadAll es)

def rereadAll : List Element → List Element
  | [] => []
  | e :: es =>
    if e.isLeaf && leavesOpen e.key then attach (reread e).key (rereadAll es)
    else reread e :: rereadAll es

end

variable {e : Element} {es cs : List Element} {k kw : Text} {o v : Option Text} {op : Text}

theorem swallow_inline (h : isInlineKeyword kw = true) :
    swallow k (some op) [block kw none cs] =
      block (headText k (some op) ++ ' ' :: (kw ++ [' '])) none cs := by
  have hin : isInline false (some op) [block kw none cs] = true := h
  rw [swallow.eq_def, hin]

theorem swallow_of_not_inline (h : isInline false o es = false) :
    swallow k o es = block (headText k o ++ [' ']) none es := by
  rw [swallow.eq_def, h]
  split
  · next hfalse => cases hfalse
  · rfl

theorem attach_ne_nil : attach k es ≠ [] := by
  unfold attach
  split
  · exact List.cons_ne_nil _ _
  · exact List.cons_ne_nil _ _

theorem attach_anonymous : attach k (block [] none cs :: es) = block k none cs :: es := rfl

theorem attach_of_not_anonymous (h : ∀ f ∈ es.head?, f.isAnonymous = false) :
    attach k es = leaf k none none :: es := by
  unfold attach
  split
  · exact absurd (h _ rfl) (by simp [isAnonymous, isLeaf, Element.key])
  · rfl

theorem exists_leafText (k : Text) (o v : Option Text) : ∃ u, leafText k o v = k ++ u := by
  unfold leafText
  split
  · exact ⟨[], (List.append_nil k).symm⟩
  · split
    · exact ⟨_, rfl⟩
    · exact ⟨_, List.append_assoc _ _ _⟩

theorem exists_headText (k : Text) (o : Option Text) : ∃ u, headText k o = k ++ u := by
  cases o with
  | none => exact ⟨[], (List.append_nil k).symm⟩
  | some op => exact ⟨_, rfl⟩

theorem reread_leaf_open (h : leavesOpen k = true) :
    reread (leaf k o v) = leaf (leafText k o v) none none := by
  rw [reread, if_pos h]

theorem reread_leaf_closed (h : leavesOpen k = false) : reread (leaf k o v) = leaf k o v := by
  rw [reread, if_neg (by simp [h])]

theorem reread_block_open (h : leavesOpen k = true) :
    reread (block k o es) = swallow k o (rereadAll es) := by
  rw [reread, if_pos h]

theorem reread_block_closed (h : leavesOpen k = false) :
    reread (block k o es) = block k o (rereadAll es) := by
  rw [reread, if_neg (by simp [h])]

theorem rereadAll_leaf_open (h : leavesOpen k = true) :
    rereadAll (leaf k o v :: es) = attach (leafText k o v) (rereadAll es) := by
  rw [rereadAll, if_pos (by simp [isLeaf, Element.key, h]), reread_leaf_open h, Element.key]

theorem rereadAll_leaf_closed (h : leavesOpen k = false) :
    rereadAll (leaf k o v :: es) = leaf k o v :: rereadAll es := by
  rw [rereadAll, if_neg (by simp [isLeaf, Element.key, h]), reread_leaf_closed h]

theorem rereadAll_block :
    rereadAll (block k o cs :: es) = reread (block k o cs) :: rereadAll es := by
  rw [rereadAll, if_neg (by simp [isLeaf])]

theorem rereadAll_eq_nil : rereadAll es = [] ↔ es = [] := by
  cases es with
  | nil => simp [rereadAll]
  | cons e es =>
    rw [rereadAll]
    split
    · simp [attach_ne_nil]
    · simp

theorem rereadAll_inline (h : isInlineKeyword kw = true) :
    rereadAll [block kw none cs] = [block kw none (rereadAll cs)] := by
  rw [rereadAll_block, reread_block_closed (leavesOpen_of_isInlineKeyword h)]
  rfl

theorem exists_swallow (k : Text) (o : Option Text) (es : List Element) :
    ∃ u cs, swallow k o es = block (k ++ u) none cs := by
  obtain ⟨u, hu⟩ := exists_headText k o
  unfold swallow
  split
  · exact ⟨_, _, by rw [hu, List.append_assoc]⟩
  · exact ⟨_, _, by rw [hu, List.append_assoc]⟩

theorem append_ne_nil (h : leavesOpen k = true) (u : Text) : k ++ u ≠ [] :=
  List.append_ne_nil_of_left_ne_nil (ne_nil_of_leavesOpen h) u

theorem leafText_ne_nil (h : leavesOpen k = true) : leafText k o v ≠ [] := by
  obtain ⟨u, hu⟩ := exists_leafText k o v
  exact hu ▸ append_ne_nil h u

/-- What is written on one line stays so, and nothing else becomes so. -/
theorem isInline_rereadAll : isInline false o (rereadAll es) = isInline false o es := by
  rw [Bool.eq_iff_iff]
  constructor
  · intro h
    obtain ⟨op, kw, cs, rfl, hes, hkw⟩ := of_isInline h
    cases es with
    | nil => cases hes
    | cons e es =>
      cases e with
      | leaf k o v =>
        cases hk : leavesOpen k with
        | false =>
          rw [rereadAll_leaf_closed hk] at hes
          cases hes
        | true =>
          rw [rereadAll_leaf_open hk, attach.eq_def] at hes
          split at hes
          · obtain ⟨u, hu⟩ := exists_leafText k o v
            cases hes
            rw [hu, isInlineKeyword_append hk] at hkw
            cases hkw
          · cases hes
      | block k o cs' =>
        rw [rereadAll_block] at hes
        obtain ⟨he, hnil⟩ := List.cons.inj hes
        cases hk : leavesOpen k with
        | true =>
          rw [reread_block_open hk] at he
          obtain ⟨u, ds, hu⟩ := exists_swallow k o (rereadAll cs')
          rw [hu] at he
          cases he
          rw [isInlineKeyword_append hk] at hkw
          cases hkw
        | false =>
          rw [reread_block_closed hk] at he
          cases he
          rw [rereadAll_eq_nil.1 hnil]
          exact hkw
  · intro h
    obtain ⟨op, kw, cs, rfl, rfl, hkw⟩ := of_isInline h
    rw [rereadAll_inline hkw]
    exact hkw

/-! ## Their shape -/

theorem isAnonymous_block : (block k o cs).isAnonymous = true ↔ k = [] := beq_iff_eq

theorem isAnonymous_of_reread (h : (reread (block k o cs)).isAnonymous = true) :
    (block k o cs).isAnonymous = true := by
  cases hk : leavesOpen k with
  | false => rwa [reread_block_closed hk] at h
  | true =>
    obtain ⟨u, ds, hu⟩ := exists_swallow k o (rereadAll cs)
    rw [reread_block_open hk, hu, isAnonymous_block] at h
    exact absurd h (append_ne_nil hk u)

/-- What is read first is anonymous only if what is written first is. -/
theorem isAnonymous_head_rereadAll {f : Element} (hf : f ∈ (rereadAll es).head?)
    (hanon : f.isAnonymous = true) : ∃ g ∈ es.head?, g.isAnonymous = true := by
  cases es with
  | nil => cases hf
  | cons e es =>
    refine ⟨e, rfl, ?_⟩
    cases e with
    | leaf k o v =>
      cases hk : leavesOpen k with
      | false =>
        rw [rereadAll_leaf_closed hk] at hf
        cases hf
        exact hanon
      | true =>
        rw [rereadAll_leaf_open hk, attach.eq_def] at hf
        split at hf
        · cases hf
          exact absurd (isAnonymous_block.1 hanon) (leafText_ne_nil hk)
        · cases hf
          cases hanon
    | block k o cs =>
      rw [rereadAll_block] at hf
      cases hf
      exact isAnonymous_of_reread hanon

theorem exists_of_isAnonymous (hs : Shaped e) (h : e.isAnonymous = true) :
    ∃ cs, e = block [] none cs := by
  cases e with
  | leaf k o v => cases h
  | block k o cs =>
    obtain rfl := isAnonymous_block.1 h
    obtain rfl := hs.1 rfl
    exact ⟨cs, rfl⟩

theorem shaped_swallow (h : AllShaped es) : Shaped (swallow k o es) := by
  unfold swallow
  split
  · exact ⟨fun _ => rfl, h.1.2⟩
  · exact ⟨fun _ => rfl, h⟩

theorem allShaped_attach (hk : k ≠ []) (h : AllShaped es) : AllShaped (attach k es) := by
  unfold attach
  split
  · exact ⟨⟨fun _ => rfl, h.1.2⟩, fun _ _ _ => rfl, h.2.2⟩
  · next hnone =>
    refine ⟨hk, fun f hf hanon => ?_, h⟩
    cases es with
    | nil => cases hf
    | cons g es =>
      obtain rfl : g = f := Option.some.inj hf
      obtain ⟨cs, rfl⟩ := exists_of_isAnonymous h.1 hanon
      exact absurd rfl (hnone cs es)

theorem takesBrace_block {e : Element} (h : e.isLeaf = false) : e.takesBrace = false := by
  cases e with
  | leaf k o v => cases h
  | block k o es => rfl

theorem isLeaf_reread_block : (reread (block k o cs)).isLeaf = false := by
  cases hk : leavesOpen k with
  | false => rw [reread_block_closed hk]; rfl
  | true =>
    obtain ⟨u, ds, hu⟩ := exists_swallow k o (rereadAll cs)
    rw [reread_block_open hk, hu]
    rfl

mutual

theorem shaped_reread : (e : Element) → Shaped e → Shaped (reread e)
  | leaf k o v, h => by
    cases hk : leavesOpen k with
    | false => rwa [reread_leaf_closed hk]
    | true =>
      rw [reread_leaf_open hk]
      exact leafText_ne_nil hk
  | block k o es, h => by
    have hes := allShaped_rereadAll es h.2
    cases hk : leavesOpen k with
    | false =>
      rw [reread_block_closed hk]
      exact ⟨h.1, hes⟩
    | true =>
      rw [reread_block_open hk]
      exact shaped_swallow hes

theorem allShaped_rereadAll : (es : List Element) → AllShaped es → AllShaped (rereadAll es)
  | [], _ => trivial
  | leaf k o v :: es, h => by
    have hes := allShaped_rereadAll es h.2.2
    cases hk : leavesOpen k with
    | false =>
      rw [rereadAll_leaf_closed hk]
      refine ⟨h.1, fun f hf hanon => ?_, hes⟩
      obtain ⟨g, hg, hanon⟩ := isAnonymous_head_rereadAll hf hanon
      exact h.2.1 g hg hanon
    | true =>
      rw [rereadAll_leaf_open hk]
      exact allShaped_attach (leafText_ne_nil hk) hes
  | block k o cs :: es, h => by
    rw [rereadAll_block]
    exact ⟨shaped_reread _ h.1, fun _ _ _ => takesBrace_block isLeaf_reread_block,
      allShaped_rereadAll es h.2.2⟩

end

theorem braces_swallow : braces (swallow k o es) ≤ braces (block k o es) := by
  cases hin : isInline false o es with
  | true =>
    obtain ⟨op, kw, cs, rfl, rfl, hkw⟩ := of_isInline hin
    rw [swallow_inline hkw]
    simp [braces, bracesAll, hin]
  | false =>
    rw [swallow_of_not_inline hin]
    simp [braces, hin]

theorem bracesAll_attach : bracesAll (attach k es) ≤ bracesAll es := by
  unfold attach
  split
  · simp [braces, bracesAll]
  · simp [braces, bracesAll]

mutual

theorem braces_reread : (e : Element) → braces (reread e) ≤ braces e
  | leaf k o v => by
    cases hk : leavesOpen k with
    | false => exact Nat.le_of_eq (congrArg braces (reread_leaf_closed hk))
    | true => rw [reread_leaf_open hk]; exact Nat.le_refl _
  | block k o es => by
    have hes := bracesAll_rereadAll es
    have hsame : braces (block k o (rereadAll es)) ≤ braces (block k o es) := by
      rw [braces, braces, isInline_rereadAll]
      split
      · exact hes
      · exact Nat.succ_le_succ hes
    cases hk : leavesOpen k with
    | false => rwa [reread_block_closed hk]
    | true =>
      rw [reread_block_open hk]
      exact Nat.le_trans braces_swallow hsame

theorem bracesAll_rereadAll : (es : List Element) → bracesAll (rereadAll es) ≤ bracesAll es
  | [] => Nat.le_refl _
  | e :: es => by
    have he := braces_reread e
    have hes := bracesAll_rereadAll es
    rw [rereadAll, bracesAll]
    split
    · have : bracesAll (attach (reread e).key (rereadAll es)) ≤ bracesAll (rereadAll es) :=
        bracesAll_attach
      omega
    · rw [bracesAll]
      omega

end

/-! ## Their tokens -/

theorem spellAll_attach (hk : k ≠ []) : spellAll (attach k es) = .word k :: spellAll es := by
  unfold attach
  split
  · simp [spellAll, spell, hk]
  · simp [spellAll, spell]

theorem spellAll_rereadAll :
    spellAll (rereadAll (e :: es)) = spell (reread e) ++ spellAll (rereadAll es) := by
  cases e with
  | leaf k o v =>
    cases hk : leavesOpen k with
    | false => rw [rereadAll_leaf_closed hk, reread_leaf_closed hk, spellAll]
    | true =>
      rw [rereadAll_leaf_open hk, reread_leaf_open hk, spellAll_attach (leafText_ne_nil hk)]
      rfl
  | block k o cs => rw [rereadAll_block, spellAll]

section

variable {ks js : List TokenKind} {t ls : Text}

theorem readsAs_head (hk : Stands ['#'] (.word k)) (ho : ∀ op ∈ o, IsOperator op)
    (h : ReadsAs ['#'] t ks) :
    ReadsAs ['#'] (headText k o ++ ' ' :: t) (.word k :: ((o.map .operator).toList ++ ks)) := by
  have hblank {t : Text} : StartsSpaced (' ' :: t) := startsSpaced_cons rfl
  have hword {t : Text} := hk.before_spaced plainMarker_hash (hblank (t := t))
  cases o with
  | none => exact (h.gap rfl).cons hword
  | some op =>
    have hop := (ho op rfl).stands.before_spaced plainMarker_hash (hblank (t := t))
    have hread := (((h.gap (c := ' ') rfl).cons hop).gap (c := ' ') rfl).cons hword
    simpa [headText, TokenKind.lexeme] using hread

theorem readsAs_swallowed {g w : Text} (hk : IsRead k) (hopen : leavesOpen k = true)
    (hw : w = k ++ ' ' :: g) (hg : ∀ c ∈ g, staysInside c = true)
    (h : ReadsAs ['#'] ('{' :: t) ks) :
    ReadsAs ['#'] (w ++ '{' :: t) (.word w :: ks) := by
  have hend : spanWord ['#'] (.plain true) ('{' :: t) = ⟨[], '{' :: t, none⟩ := by
    rw [spanWord_cons]
    rfl
  have hspan := spanWord_inside (g := ' ' :: g) (List.forall_mem_cons.2 ⟨by decide, hg⟩) hend
  rw [List.append_nil] at hspan
  rw [hw]
  exact h.cons (hk.open hopen hspan rfl)

theorem exists_swallowed (k : Text) (ho : ∀ op ∈ o, IsOperator op) :
    ∃ g, headText k o ++ [' '] = k ++ ' ' :: g ∧ ∀ c ∈ g, staysInside c = true := by
  cases o with
  | none => exact ⟨[], rfl, by simp⟩
  | some op =>
    exact ⟨op ++ [' '], by simp [headText], staysInside_append_blank (ho op rfl).stays⟩

theorem readsAs_braces (width level : Nat)
    (hls : ∀ {ks t}, ReadsAs ['#'] t ks → ReadsAs ['#'] (ls ++ t) (js ++ ks))
    (h : ReadsAs ['#'] t ks) :
    ReadsAs ['#'] ('{' :: '\n' :: (ls ++ (pad width level ++ '}' :: t)))
      (.openBrace :: (js ++ .closeBrace :: ks)) := by
  have hclose : ReadsAs ['#'] ('}' :: t) (.closeBrace :: ks) :=
    h.cons (cutsOff_closeBrace (by decide))
  have hpad := hclose.gaps fun c hc => isGap_of_isSpacing (isSpacing_pad width level c hc)
  exact ((hls hpad).gap rfl).cons (cutsOff_openBrace (by decide))

/-- A leaf with all its parts: its value ends the line, or belongs to its key. -/
theorem readsAs_leaf {v : Text} (width level : Nat) (hkey : IsRead k) (hop : IsOperator op)
    (hvalue : IsRead v) (ht : EndsLine t) (h : ReadsAs ['#'] t ks) :
    ReadsAs ['#'] (body false width level (leaf k (some op) (some v)) ++ t)
      (spell (reread (leaf k (some op) (some v))) ++ ks) := by
  have htext := leafText_of_not_blank (k := k) hop.not_blank hvalue.not_blank
  cases hk : leavesOpen k with
  | false =>
    have hread := readsAs_head (o := some op) (hkey.stands hk) (by simpa using hop)
      (h.cons (hvalue.before_endsLine ht))
    rw [reread_leaf_closed hk]
    simpa [body, htext, headText, spell, TokenKind.lexeme] using hread
  | true =>
    have hinside : ∀ c ∈ ' ' :: (op ++ [' ']), staysInside c = true :=
      List.forall_mem_cons.2 ⟨by decide, staysInside_append_blank hop.stays⟩
    have hspan := spanWord_inside hinside (hvalue.inside ht)
    have hcut := hkey.open (u := ' ' :: (op ++ ' ' :: v)) (r := t) hk (by simpa using hspan) rfl
    rw [reread_leaf_open hk, body, htext]
    simpa [spell, TokenKind.lexeme] using h.cons hcut

/-- A block with its value on its own line, given how its braces are read. -/
theorem readsAs_inline (width level : Nat) (hne : k ≠ []) (hkey : IsRead k) (hop : IsOperator op)
    (hkw : isInlineKeyword kw = true) (hword : IsRead kw)
    (h : ReadsAs ['#']
      ('{' :: '\n' :: (childLines false width (level + 1) cs ++ (pad width level ++ '}' :: t)))
      (.openBrace :: (spellAll (rereadAll cs) ++ .closeBrace :: ks))) :
    ReadsAs ['#'] (body false width level (block k (some op) [block kw none cs]) ++ t)
      (spell (reread (block k (some op) [block kw none cs])) ++ ks) := by
  have hkw' : kw ≠ [] := by rintro rfl; cases hkw
  have hin : isInline false (some op) [block kw none cs] = true := hkw
  have hin' : isInline false (some op) [block kw none (rereadAll cs)] = true := hkw
  cases hk : leavesOpen k with
  | false =>
    have hclosed := leavesOpen_of_isInlineKeyword hkw
    have hvalue := readsAs_head (o := none) (hword.stands hclosed) (by simp) h
    have hread := readsAs_head (o := some op) (hkey.stands hk) (by simpa using hop) hvalue
    rw [reread_block_closed hk, rereadAll_inline hkw]
    simpa [body, hin, hin', onlyChild, keeps, headText, spell, spellAll, hne, hkw'] using hread
  | true =>
    have hinside : ∀ c ∈ op ++ [' '] ++ (kw ++ [' ']), staysInside c = true :=
      List.forall_mem_append.2 ⟨staysInside_append_blank hop.stays,
        staysInside_append_blank (staysInside_of_isInlineKeyword hkw)⟩
    have hread := readsAs_swallowed (w := headText k (some op) ++ ' ' :: (kw ++ [' '])) hkey hk
      (by simp [headText]) hinside h
    rw [reread_block_open hk, rereadAll_inline hkw, swallow_inline hkw]
    simpa [body, hin, onlyChild, keeps, headText, spell, hne, hkw']
      using hread

/-- Any other block with a key, given how its braces are read. -/
theorem readsAs_block (width level : Nat) (hne : k ≠ []) (hkey : IsRead k)
    (hop : ∀ op ∈ o, IsOperator op) (hin : isInline false o es = false)
    (h : ReadsAs ['#']
      ('{' :: '\n' :: (childLines false width (level + 1) es ++ (pad width level ++ '}' :: t)))
      (.openBrace :: (spellAll (rereadAll es) ++ .closeBrace :: ks))) :
    ReadsAs ['#'] (body false width level (block k o es) ++ t)
      (spell (reread (block k o es)) ++ ks) := by
  have hin' : isInline false o (rereadAll es) = false := isInline_rereadAll.trans hin
  cases hk : leavesOpen k with
  | false =>
    have hread := readsAs_head (hkey.stands hk) hop h
    rw [reread_block_closed hk]
    simpa [body, hin, hin', spell, hne] using hread
  | true =>
    obtain ⟨g, hg, hinside⟩ := exists_swallowed k hop
    have hread := readsAs_swallowed hkey hk hg hinside h
    rw [reread_block_open hk, swallow_of_not_inline hin']
    simpa [body, hin, spell, hne] using hread

mutual

theorem readsAs_body (width level : Nat) : (e : Element) → Shaped e → (∀ w ∈ words e, IsRead w) →
    (∀ op ∈ operators e, IsOperator op) → ∀ {ks : List TokenKind} {t : Text}, EndsLine t →
      ReadsAs ['#'] t ks → ReadsAs ['#'] (body false width level e ++ t) (spell (reread e) ++ ks)
  | leaf k none none, _, hw, _, ks, t, ht, h => by
    have hread : reread (leaf k none none) = leaf k none none := by
      cases hk : leavesOpen k with
      | false => exact reread_leaf_closed hk
      | true => exact reread_leaf_open hk
    rw [hread]
    exact h.cons ((hw k (by simp [words])).before_endsLine ht)
  | leaf k (some op) (some v), _, hw, ho, ks, t, ht, h =>
    readsAs_leaf width level (hw k (by simp [words])) (ho op (by simp [operators]))
      (hw v (by simp [words])) ht h
  | leaf _ none (some _), hc, _, _, _, _, _, _ => hc.elim
  | leaf _ (some _) none, hc, _, _, _, _, _, _ => hc.elim
  | block k o es, hc, hw, ho, ks, t, ht, h => by
    have hop : ∀ op ∈ o, IsOperator op := fun op h =>
      ho op (List.mem_append_left _ (Option.mem_toList.2 h))
    have hbraces := readsAs_braces width level (readsAs_childLines width (level + 1) es hc.2
      (fun w h => hw w (by simp [words, h])) (fun op h => ho op (by simp [operators, h]))) h
    rcases spell_block_cases hc with ⟨op, kw, cs, hne, rfl, rfl, hkw, -⟩ | ⟨hne, hin, -⟩ |
      ⟨rfl, rfl, -⟩
    · have hkw' : kw ≠ [] := by rintro rfl; cases hkw
      have hbraces := readsAs_braces width level (readsAs_childLines width (level + 1) cs hc.2.1.2
        (fun w h => hw w (by simp [words, wordsAll, h]))
        (fun op h => ho op (by simp [operators, operatorsAll, h]))) h
      exact readsAs_inline width level hne (hw k (by simp [words, hne])) (hop op rfl) hkw
        (hw kw (by simp [words, wordsAll, hkw'])) hbraces
    · exact readsAs_block width level hne (hw k (by simp [words, hne])) hop hin hbraces
    · rw [reread_block_closed rfl]
      simpa [body, headText, spell] using hbraces

theorem readsAs_childLines (width level : Nat) : (es : List Element) → AllShaped es →
    (∀ w ∈ wordsAll es, IsRead w) → (∀ op ∈ operatorsAll es, IsOperator op) →
      ∀ {ks : List TokenKind} {t : Text}, ReadsAs ['#'] t ks →
        ReadsAs ['#'] (childLines false width level es ++ t) (spellAll (rereadAll es) ++ ks)
  | [], _, _, _, _, _, h => h
  | e :: es, hc, hw, ho, ks, t, h => by
    have hrest := readsAs_childLines width level es hc.2.2 (fun w h => hw w (by simp [wordsAll, h]))
      (fun op h => ho op (by simp [operatorsAll, h])) h
    have hline := readsAs_body width level e hc.1 (fun w h => hw w (by simp [wordsAll, h]))
      (fun op h => ho op (by simp [operatorsAll, h])) (by simp [EndsLine])
      (hrest.gap (c := '\n') rfl)
    have hpad := hline.gaps fun c hc => isGap_of_isSpacing (isSpacing_pad width level c hc)
    rw [spellAll_rereadAll]
    simpa [childLines, keeps] using hpad

end

/-- **The canonical text of a script is read as `rereadAll` says.** -/
theorem readsAs_formatAll (hc : AllShaped es) (hw : ∀ w ∈ wordsAll es, IsRead w)
    (ho : ∀ op ∈ operatorsAll es, IsOperator op) :
    ReadsAs ['#'] (formatAll es) (spellAll (rereadAll es) ++ [.endOfInput]) := by
  induction es with
  | nil => exact readsAs_nil
  | cons e es ih =>
    have hrest := ih hc.2.2 (fun w h => hw w (by simp [wordsAll, h]))
      fun op h => ho op (by simp [operatorsAll, h])
    have hline {ks : List TokenKind} {t : Text} (ht : EndsLine t) (h : ReadsAs ['#'] t ks) :=
      readsAs_body 4 0 e hc.1 (fun w h => hw w (by simp [wordsAll, h]))
        (fun op h => ho op (by simp [operatorsAll, h])) ht h
    rw [spellAll_rereadAll]
    cases es with
    | nil =>
      have hread := hline (by simp [EndsLine]) readsAs_nil
      simpa [formatAll, unlines, join, format_eq_body, rereadAll, spellAll] using hread
    | cons f es =>
      have hread := hline (by simp [EndsLine]) (hrest.gap (c := '\n') rfl)
      simpa [formatAll, unlines, join, format_eq_body] using hread

end

end Element

end GameScript
