import GameScript.Proofs.Script.Canonical

/-!
# The canonical text lays out the tokens of an element

Whatever the level and the width of the indentation, the text of a canonical element is its
tokens with spacing between any two of them (`LaysOut.body`), and a script is that for all its
elements (`laysOut_formatAll`).
-/

namespace GameScript

open Text Lexer Element Layout

theorem isBlank_eq_false {c : Char} {cs : Text} (h : isGap c = false) :
    isBlank (c :: cs) = false := by
  simp only [isGap, Bool.or_eq_false_iff] at h
  simp only [isBlank, List.all_cons, h.1, Bool.false_and]

theorem IsWord.not_blank {w : Text} (h : IsWord w) : isBlank w = false := by
  obtain ⟨c, cs, rfl, hg⟩ := h.head
  exact isBlank_eq_false hg

theorem IsOperator.not_blank {o : Text} (h : IsOperator o) : isBlank o = false := by
  obtain ⟨c, cs, rfl, hg⟩ := h.head
  exact isBlank_eq_false hg

theorem leafText_of_not_blank {k o v : Text} (ho : isBlank o = false) (hv : isBlank v = false) :
    leafText k (some o) (some v) = k ++ ' ' :: o ++ ' ' :: v := by
  simp [leafText, Option.filter, ho, hv]

theorem leafText_some {k o v : Text} (ho : IsOperator o) (hv : IsWord v) :
    leafText k (some o) (some v) = k ++ ' ' :: o ++ ' ' :: v :=
  leafText_of_not_blank ho.not_blank hv.not_blank

theorem isSpacing_pad (width level : Nat) : ∀ c ∈ pad width level, isSpacing c = true := by
  intro c hc
  rw [List.eq_of_mem_replicate hc]
  rfl

theorem startsSpaced_cons {c : Char} {t : Text} (h : isSpacing c = true) :
    StartsSpaced (c :: t) := by
  rintro d ⟨⟩
  exact h

namespace LaysOut

variable {T : TokenKind → TokenKind → Prop} {ks : List TokenKind} {t : Text}

theorem apart (k : TokenKind) (ht : StartsSpaced t) (h : LaysOut T ks t) :
    LaysOut T (k :: ks) (k.lexeme ++ t) :=
  token (.inl ht) h

theorem head (k : Text) (o : Option Text) (h : LaysOut T ks t) :
    LaysOut T (.word k :: ((o.map .operator).toList ++ ks)) (headText k o ++ ' ' :: t) := by
  have hb {t : Text} : StartsSpaced (' ' :: t) := startsSpaced_cons rfl
  cases o with
  | none => exact apart (.word k) hb (h.space rfl)
  | some op =>
    have := apart (.word k) hb ((apart (.operator op) hb (h.space rfl)).space rfl)
    simpa [headText, TokenKind.lexeme] using this

/-- The braces of a block around the lines of its children. -/
theorem braces (width level : Nat) {ls : Text} {js : List TokenKind} (ht : StartsSpaced t)
    (hls : ∀ {ks t}, LaysOut T ks t → LaysOut T (js ++ ks) (ls ++ t)) (h : LaysOut T ks t) :
    LaysOut T (.openBrace :: (js ++ .closeBrace :: ks))
      ('{' :: '\n' :: (ls ++ (pad width level ++ '}' :: t))) := by
  have hclose : LaysOut T (.closeBrace :: ks) ('}' :: t) := apart .closeBrace ht h
  have hinner := hls (hclose.spaces (isSpacing_pad width level))
  exact apart .openBrace (startsSpaced_cons rfl) (hinner.space rfl)

mutual

theorem body (width level : Nat) : (e : Element) → Canonical e →
    ∀ {ks : List TokenKind} {t : Text}, StartsSpaced t → LaysOut T ks t →
      LaysOut T (spell e ++ ks) (Layout.body false width level e ++ t)
  | .leaf k none none, _, _, _, ht, h => apart (.word k) ht h
  | .leaf k (some o) (some v), hc, _, _, ht, h => by
    have := head k (some o) (apart (.word v) ht h)
    simpa [Layout.body, leafText_some hc.2.1 hc.2.2, headText, spell, TokenKind.lexeme] using this
  | .leaf _ none (some _), hc, _, _, _, _ => hc.elim
  | .leaf _ (some _) none, hc, _, _, _, _ => hc.elim
  | .block k o es, hc, ks, t, ht, h => by
    rcases spell_block_cases hc.shaped with ⟨op, kw, cs, hk, rfl, rfl, hkw, hspell⟩ |
      ⟨hk, hin, hspell⟩ | ⟨rfl, rfl, hspell⟩
    · have hin : isInline false (some op) [.block kw none cs] = true := hkw
      have hkeyword : kw ≠ [] := by rintro rfl; cases hkw
      have hbraces := braces width level ht (childLines width (level + 1) cs hc.2.1.2) h
      have := head k (some op) (head kw none hbraces)
      simpa [hspell, Layout.body, hin, onlyChild, keeps, headText, hkeyword]
        using this
    · have hbraces := braces width level ht (childLines width (level + 1) es hc.2) h
      have := head k o hbraces
      simpa [hspell, Layout.body, hin, hk] using this
    · have hbraces := braces width level ht (childLines width (level + 1) es hc.2) h
      simpa [hspell, Layout.body, headText] using hbraces

theorem childLines (width level : Nat) : (es : List Element) → AllCanonical es →
    ∀ {ks : List TokenKind} {t : Text}, LaysOut T ks t →
      LaysOut T (spellAll es ++ ks) (Layout.childLines false width level es ++ t)
  | [], _, _, _, h => h
  | e :: es, hc, ks, t, h => by
    have hrest := (childLines width level es hc.2.2 h).space (c := '\n') rfl
    have hline := body width level e hc.1 (startsSpaced_cons rfl) hrest
    simpa [Layout.childLines, keeps, spellAll] using hline.spaces (isSpacing_pad width level)

end

end LaysOut

theorem format_eq_body (e : Element) : e.format = Layout.body false 4 0 e := by
  simp [Element.format, Layout.format, pad]

/-- **The text of a canonical element lays out its tokens.** -/
theorem laysOut_format {T : TokenKind → TokenKind → Prop} {e : Element} (h : Canonical e) :
    LaysOut T (spell e) e.format := by
  have := LaysOut.body 4 0 e h (T := T) (t := []) (by rintro c ⟨⟩) (.nil (by rintro c ⟨⟩))
  simpa [format_eq_body] using this

theorem laysOut_formatAll {T : TokenKind → TokenKind → Prop} {es : List Element}
    (h : AllCanonical es) : LaysOut T (spellAll es) (formatAll es) := by
  induction es with
  | nil => exact .nil (by rintro c ⟨⟩)
  | cons e es ih =>
    cases es with
    | nil => simpa [spellAll, formatAll, unlines, join] using laysOut_format (T := T) h.1
    | cons f es =>
      have hrest := (ih h.2.2).space (c := '\n') rfl
      have := LaysOut.body 4 0 e h.1 (startsSpaced_cons rfl) hrest
      simpa [← format_eq_body, spellAll, formatAll, unlines, join] using this

end GameScript
