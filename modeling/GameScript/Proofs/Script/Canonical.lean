import GameScript.Proofs.Script.Spacing
import GameScript.Script.Layout

/-!
# Canonical elements

A word is what is read as one word in front of a blank, an operator what is read as one between
words. An element is canonical when it is made of these as a strict reading would make it: no
leaf with only half of its parts, and no anonymous block whose brace a leaf before it would take
(`Shaped`, which says nothing of the words). `spell` lists the tokens of the canonical text of an
element.
-/

namespace GameScript

open Text Lexer

/-! ## Words and operators -/

/-- A text that is read as one word in front of a blank. -/
def IsWord (w : Text) : Prop :=
  kinds ['#'] (w ++ [' ', 'x']) = [.word w, .word ['x'], .endOfInput]

def IsOperator (o : Text) : Prop :=
  kinds ['#'] (['a', ' '] ++ o ++ [' ', 'b']) =
    [.word ['a'], .operator o, .word ['b'], .endOfInput]

instance (w : Text) : Decidable (IsWord w) := inferInstanceAs (Decidable (_ = _))

instance (o : Text) : Decidable (IsOperator o) := inferInstanceAs (Decidable (_ = _))

theorem plainMarker_hash : PlainMarker ['#'] := by
  intro c hc
  cases List.mem_singleton.1 hc
  decide

theorem readsAs_blank_word {c : Char} (h : CutsOff ['#'] (.word [c]) []) :
    ReadsAs ['#'] [' ', c] [.word [c], .endOfInput] :=
  ReadsAs.gap (ReadsAs.cons (k := .word [c]) readsAs_nil h) rfl

theorem isWord_iff {w : Text} : IsWord w ↔ CutsOff ['#'] (.word w) [' ', 'x'] := by
  have hx := readsAs_blank_word (c := 'x') ⟨'x', [], rfl, rfl, fun _ => rfl⟩
  constructor
  · intro h
    refine cutsOff_of_tokensFrom ?_ h
    rintro rfl
    have := h.symm.trans hx.kinds
    cases this
  · intro h
    exact (hx.cons h).kinds

theorem isOperator_iff {o : Text} : IsOperator o ↔ CutsOff ['#'] (.operator o) [' ', 'b'] := by
  have hb := readsAs_blank_word (c := 'b') ⟨'b', [], rfl, rfl, fun _ => rfl⟩
  have ha (r : Text) : CutsOff ['#'] (.word ['a']) (' ' :: r) := ⟨'a', [], rfl, rfl, fun _ => rfl⟩
  constructor
  · intro h
    obtain ⟨q, hq⟩ := (ha (o ++ [' ', 'b'])).tokensFrom {}
    rw [tokensFrom_gap rfl] at hq
    have htail := (List.cons.inj (hq.symm.trans h)).2
    refine cutsOff_of_tokensFrom ?_ htail
    rintro rfl
    have := (hb _).symm.trans htail
    cases this
  · intro h
    exact (((hb.cons h).gap (c := ' ') rfl).cons (ha _)).kinds

theorem IsWord.stands {w : Text} (h : IsWord w) : Stands ['#'] (.word w) := ⟨_, isWord_iff.1 h⟩

theorem IsOperator.stands {o : Text} (h : IsOperator o) : Stands ['#'] (.operator o) :=
  ⟨_, isOperator_iff.1 h⟩

/-- A word begins with a character that is neither blank nor a gap of another kind. -/
theorem IsWord.head {w : Text} (h : IsWord w) : ∃ c cs, w = c :: cs ∧ isGap c = false := by
  obtain ⟨c, cs, hw, hg, -⟩ := isWord_iff.1 h
  exact ⟨c, cs, hw, hg⟩

theorem IsOperator.head {o : Text} (h : IsOperator o) : ∃ c cs, o = c :: cs ∧ isGap c = false := by
  obtain ⟨c, cs, ho, hg, -⟩ := isOperator_iff.1 h
  exact ⟨c, cs, ho, hg⟩

theorem IsWord.ne_nil {w : Text} (h : IsWord w) : w ≠ [] := by
  obtain ⟨c, cs, rfl, -⟩ := h.head
  exact List.cons_ne_nil _ _

/-! ## Elements -/

namespace Element

/-- Whether the brace of a block without a key would be taken for this element, when it follows
it: after a bare word, and after a keyword of inline values. -/
def takesBrace : Element → Bool
  | leaf _ none none => true
  | leaf _ _ (some v) => isInlineKeyword v
  | _ => false

mutual

/-- An element that a strict reading could have made of words and operators. -/
def Canonical : Element → Prop
  | leaf k none none => IsWord k
  | leaf k (some o) (some v) => IsWord k ∧ IsOperator o ∧ IsWord v
  | leaf .. => False
  | block k o es =>
    ((IsWord k ∧ ∀ op ∈ o, IsOperator op) ∨ (k = [] ∧ o = none)) ∧ AllCanonical es

def AllCanonical : List Element → Prop
  | [] => True
  | e :: es =>
    Canonical e ∧ (∀ f ∈ es.head?, f.isAnonymous = true → e.takesBrace = false) ∧ AllCanonical es

end

mutual

def decCanonical : (e : Element) → Decidable (Canonical e)
  | leaf k none none => inferInstanceAs (Decidable (IsWord k))
  | leaf k (some o) (some v) => inferInstanceAs (Decidable (IsWord k ∧ IsOperator o ∧ IsWord v))
  | leaf _ none (some _) => .isFalse id
  | leaf _ (some _) none => .isFalse id
  | block _ _ es =>
    have := decAllCanonical es
    inferInstanceAs (Decidable (_ ∧ AllCanonical es))

def decAllCanonical : (es : List Element) → Decidable (AllCanonical es)
  | [] => .isTrue trivial
  | e :: es =>
    have := decCanonical e
    have := decAllCanonical es
    inferInstanceAs (Decidable (Canonical e ∧ _ ∧ AllCanonical es))

end

instance : DecidablePred Canonical := decCanonical

instance : DecidablePred AllCanonical := decAllCanonical

mutual

/-- An element with the parts that a strict reading gives it, whatever its words are. -/
def Shaped : Element → Prop
  | leaf k none none => k ≠ []
  | leaf k (some _) (some _) => k ≠ []
  | leaf .. => False
  | block k o es => (k = [] → o = none) ∧ AllShaped es

def AllShaped : List Element → Prop
  | [] => True
  | e :: es =>
    Shaped e ∧ (∀ f ∈ es.head?, f.isAnonymous = true → e.takesBrace = false) ∧ AllShaped es

end

mutual

def depth : Element → Nat
  | leaf .. => 0
  | block _ _ es => depthAll es + 1

def depthAll : List Element → Nat
  | [] => 0
  | e :: es => max (depth e) (depthAll es)

end

mutual

def words : Element → List Text
  | leaf k _ v => k :: v.toList
  | block k _ es => (if k = [] then [] else [k]) ++ wordsAll es

def wordsAll : List Element → List Text
  | [] => []
  | e :: es => words e ++ wordsAll es

end

mutual

def operators : Element → List Text
  | leaf _ o _ => o.toList
  | block _ o es => o.toList ++ operatorsAll es

def operatorsAll : List Element → List Text
  | [] => []
  | e :: es => operators e ++ operatorsAll es

end

mutual

def spell : Element → List TokenKind
  | leaf k o v => .word k :: ((o.map .operator).toList ++ (v.map .word).toList)
  | block k o es =>
    (if k = [] then [] else [.word k]) ++ ((o.map .operator).toList ++
      if Layout.isInline false o es then spellAll es
      else .openBrace :: (spellAll es ++ [.closeBrace]))

def spellAll : List Element → List TokenKind
  | [] => []
  | e :: es => spell e ++ spellAll es

end

mutual

/-- How deep braces nest in the canonical text of an element. -/
def braces : Element → Nat
  | leaf .. => 0
  | block _ o es => if Layout.isInline false o es then bracesAll es else bracesAll es + 1

def bracesAll : List Element → Nat
  | [] => 0
  | e :: es => max (braces e) (bracesAll es)

end

/-! ## Facts about elements -/

variable {e : Element} {es : List Element} {w o : Text} {n : Nat}

/-- What is written on one line is a keyword with its block, behind an operator. -/
theorem of_isInline {o : Option Text} {es : List Element} (h : Layout.isInline false o es = true) :
    ∃ op kw cs, o = some op ∧ es = [.block kw none cs] ∧ isInlineKeyword kw = true := by
  have hf : es.filter (Layout.keeps false) = es := List.filter_eq_self.2 fun _ _ => rfl
  rw [Layout.isInline, hf] at h
  split at h
  · next kw cs =>
    obtain ⟨ho, hkw⟩ := Bool.and_eq_true_iff.1 h
    obtain ⟨op, rfl⟩ := Option.isSome_iff_exists.1 ho
    exact ⟨op, kw, cs, rfl, rfl, hkw⟩
  · cases h

@[simp]
theorem Layout.isInline_none {es : List Element} : Layout.isInline false none es = false := by
  cases h : Layout.isInline false none es with
  | false => rfl
  | true => obtain ⟨_, _, _, ho, -⟩ := of_isInline h; cases ho

/-- How a block is spelled: with its inline value on its own line, with a key, or anonymous. -/
theorem spell_block_cases {k : Text} {o : Option Text} {es : List Element}
    (hs : Shaped (.block k o es)) :
    (∃ op kw cs, k ≠ [] ∧ o = some op ∧ es = [.block kw none cs] ∧ isInlineKeyword kw = true ∧
      spell (.block k o es) = .word k :: .operator op :: .word kw :: .openBrace ::
        (spellAll cs ++ [.closeBrace])) ∨
    (k ≠ [] ∧ Layout.isInline false o es = false ∧
      spell (.block k o es) = .word k :: ((o.map .operator).toList ++
        .openBrace :: (spellAll es ++ [.closeBrace]))) ∨
    (k = [] ∧ o = none ∧
      spell (.block k o es) = .openBrace :: (spellAll es ++ [.closeBrace])) := by
  obtain ⟨hk, -⟩ := hs
  cases hin : Layout.isInline false o es with
  | true =>
    obtain ⟨op, kw, cs, rfl, rfl, hkw⟩ := of_isInline hin
    have hkey : k ≠ [] := fun h => by cases hk h
    have hkeyword : kw ≠ [] := by rintro rfl; cases hkw
    refine .inl ⟨op, kw, cs, hkey, rfl, rfl, hkw, ?_⟩
    rw [spell, hin, if_neg hkey, if_pos rfl, spellAll, spell, Layout.isInline_none,
      if_neg hkeyword]
    simp [spellAll]
  | false =>
    by_cases hkey : k = []
    · obtain rfl := hk hkey
      refine .inr (.inr ⟨hkey, rfl, ?_⟩)
      rw [spell, hin, if_pos hkey]
      rfl
    · refine .inr (.inl ⟨hkey, rfl, ?_⟩)
      rw [spell, hin, if_neg hkey]
      rfl

theorem mem_wordsAll : w ∈ wordsAll es ↔ ∃ e ∈ es, w ∈ words e := by
  induction es with
  | nil => simp [wordsAll]
  | cons e es ih => simp [wordsAll, ih]

theorem mem_operatorsAll : o ∈ operatorsAll es ↔ ∃ e ∈ es, o ∈ operators e := by
  induction es with
  | nil => simp [operatorsAll]
  | cons e es ih => simp [operatorsAll, ih]

theorem bracesAll_le : bracesAll es ≤ n ↔ ∀ e ∈ es, braces e ≤ n := by
  induction es with
  | nil => simp [bracesAll]
  | cons e es ih => rw [bracesAll, Nat.max_le, ih, List.forall_mem_cons]

theorem depthAll_le : depthAll es ≤ n ↔ ∀ e ∈ es, depth e ≤ n := by
  induction es with
  | nil => simp [depthAll]
  | cons e es ih => rw [depthAll, Nat.max_le, ih, List.forall_mem_cons]

mutual

theorem canonical_iff : (e : Element) → (Canonical e ↔
    Shaped e ∧ (∀ w ∈ words e, IsWord w) ∧ ∀ o ∈ operators e, IsOperator o)
  | leaf k none none => by
    simp only [Canonical, Shaped, words, operators, Option.toList_none, List.mem_singleton,
      forall_eq, List.not_mem_nil, false_imp_iff, implies_true, and_true]
    exact ⟨fun h => ⟨h.ne_nil, h⟩, fun h => h.2⟩
  | leaf k (some o) (some v) => by
    simp only [Canonical, Shaped, words, operators, Option.toList_some, List.mem_cons,
      List.not_mem_nil, or_false, forall_eq_or_imp, forall_eq]
    exact ⟨fun h => ⟨h.1.ne_nil, ⟨h.1, h.2.2⟩, h.2.1⟩, fun h => ⟨h.2.1.1, h.2.2, h.2.1.2⟩⟩
  | leaf k none (some v) => by simp [Canonical, Shaped]
  | leaf k (some o) none => by simp [Canonical, Shaped]
  | block k o es => by
    rw [Canonical, allCanonical_iff es, Shaped, words, operators]
    simp only [List.mem_append, Option.mem_toList]
    constructor
    · rintro ⟨hk, hs, hw, ho⟩
      rcases hk with ⟨hk, hop⟩ | ⟨rfl, rfl⟩
      · rw [if_neg hk.ne_nil]
        refine ⟨⟨fun h => absurd h hk.ne_nil, hs⟩, fun w h => h.elim (fun h => ?_) (hw w),
          fun op h => h.elim (hop op) (ho op)⟩
        exact List.mem_singleton.1 h ▸ hk
      · exact ⟨⟨fun _ => rfl, hs⟩, fun w h => h.elim (by simp) (hw w),
          fun op h => h.elim (by simp) (ho op)⟩
    · rintro ⟨⟨hk, hs⟩, hw, ho⟩
      refine ⟨?_, hs, fun w h => hw w (.inr h), fun op h => ho op (.inr h)⟩
      by_cases hnil : k = []
      · exact .inr ⟨hnil, hk hnil⟩
      · exact .inl ⟨hw k (.inl (by simp [hnil])), fun op h => ho op (.inl h)⟩

theorem allCanonical_iff : (es : List Element) → (AllCanonical es ↔
    AllShaped es ∧ (∀ w ∈ wordsAll es, IsWord w) ∧ ∀ o ∈ operatorsAll es, IsOperator o)
  | [] => by simp [AllCanonical, AllShaped, wordsAll, operatorsAll]
  | e :: es => by
    rw [AllCanonical, canonical_iff e, allCanonical_iff es, AllShaped, wordsAll, operatorsAll]
    simp only [List.mem_append]
    constructor
    · rintro ⟨⟨h₁, h₂, h₃⟩, hs, h₄, h₅, h₆⟩
      exact ⟨⟨h₁, hs, h₄⟩, fun w hw => hw.elim (h₂ w) (h₅ w), fun o ho => ho.elim (h₃ o) (h₆ o)⟩
    · rintro ⟨⟨h₁, hs, h₄⟩, hw, ho⟩
      exact ⟨⟨h₁, fun w h => hw w (.inl h), fun o h => ho o (.inl h)⟩, hs, h₄,
        fun w h => hw w (.inr h), fun o h => ho o (.inr h)⟩

end

theorem Canonical.shaped (h : Canonical e) : Shaped e := ((canonical_iff e).1 h).1

theorem AllCanonical.shaped (h : AllCanonical es) : AllShaped es := ((allCanonical_iff es).1 h).1

mutual

theorem braces_le_depth : (e : Element) → braces e ≤ depth e
  | leaf .. => Nat.le_refl _
  | block k o es => by
    have := bracesAll_le_depthAll es
    rw [braces, depth]
    split
    · omega
    · omega

theorem bracesAll_le_depthAll : (es : List Element) → bracesAll es ≤ depthAll es
  | [] => Nat.le_refl _
  | e :: es => by
    have := braces_le_depth e
    have := bracesAll_le_depthAll es
    rw [bracesAll, depthAll]
    omega

end

end Element

end GameScript
