import GameScript.Proofs.Script.Condensing
import GameScript.Proofs.Script.Printing
import GameScript.Proofs.Script.RoundTrip

/-!
# Canonical code is told apart by its hash

What is hashed of the code of a canonical element are its tokens, squeezed. No two operators are
neighbours among them, and where a space was dropped the tokens may touch, so the squeezed tokens
lay out the element too and are read as it again. Hence two elements have the same text hashed
only if they are equal.
-/

namespace GameScript

open Text Lexer Element

/-! ## Operators are apart -/

/-- The tokens do not begin with an operator. -/
def NoOperatorFirst (ks : List TokenKind) : Prop := ∀ o, ks.head? ≠ some (.operator o)

/-- No two operators are neighbours. -/
def Separated : List TokenKind → Prop
  | [] => True
  | k :: ks => ((∃ o, k = .operator o) → NoOperatorFirst ks) ∧ Separated ks

section

variable {ks : List TokenKind}

theorem noOperatorFirst_word {w : Text} : NoOperatorFirst (.word w :: ks) := by
  rintro o ⟨⟩

theorem noOperatorFirst_brace {k : TokenKind} (hk : k = .openBrace ∨ k = .closeBrace) :
    NoOperatorFirst (k :: ks) := by
  rcases hk with rfl | rfl <;> rintro o ⟨⟩

theorem separated_word {w : Text} (h : Separated ks) : Separated (.word w :: ks) :=
  ⟨by rintro ⟨o, ⟨⟩⟩, h⟩

theorem separated_operator {o : Text} (hf : NoOperatorFirst ks) (h : Separated ks) :
    Separated (.operator o :: ks) :=
  ⟨fun _ => hf, h⟩

theorem separated_brace {k : TokenKind} (hk : k = .openBrace ∨ k = .closeBrace)
    (h : Separated ks) : Separated (k :: ks) := by
  refine ⟨?_, h⟩
  rcases hk with rfl | rfl <;> rintro ⟨o, ⟨⟩⟩

end

theorem noOperatorFirst_spell {e : Element} (hc : Canonical e) {ks : List TokenKind} :
    NoOperatorFirst (spell e ++ ks) := by
  cases e with
  | leaf k o v => exact noOperatorFirst_word
  | block k o es =>
    rcases spell_block_cases hc.shaped with ⟨_, _, _, -, -, -, -, hspell⟩ | ⟨-, -, hspell⟩ |
      ⟨-, -, hspell⟩
    · rw [hspell]
      exact noOperatorFirst_word
    · rw [hspell]
      exact noOperatorFirst_word
    · rw [hspell]
      exact noOperatorFirst_brace (.inl rfl)

mutual

theorem separated_spell : (e : Element) → Canonical e → ∀ {ks : List TokenKind},
    NoOperatorFirst ks → Separated ks → Separated (spell e ++ ks)
  | .leaf k none none, _, _, _, h => separated_word h
  | .leaf k (some o) (some v), _, _, _, h =>
    separated_word (separated_operator noOperatorFirst_word (separated_word h))
  | .leaf _ none (some _), hc, _, _, _ => hc.elim
  | .leaf _ (some _) none, hc, _, _, _ => hc.elim
  | .block k o es, hc, ks, _, h => by
    have hclose : Separated (.closeBrace :: ks) := separated_brace (.inr rfl) h
    have hfirst : NoOperatorFirst (.closeBrace :: ks) := noOperatorFirst_brace (.inr rfl)
    have hopen {ks : List TokenKind} : NoOperatorFirst (.openBrace :: ks) :=
      noOperatorFirst_brace (.inl rfl)
    rcases spell_block_cases hc.shaped with ⟨op, kw, cs, -, rfl, rfl, -, hspell⟩ | ⟨-, -, hspell⟩ |
      ⟨-, -, hspell⟩
    · have hchildren := separated_spellAll cs hc.2.1.2 hfirst hclose
      have hblock := separated_brace (.inl rfl) hchildren
      simpa [hspell] using
        separated_word (separated_operator noOperatorFirst_word (separated_word hblock))
    · have hchildren := separated_spellAll es hc.2 hfirst hclose
      have hblock := separated_brace (.inl rfl) hchildren
      cases o with
      | none => simpa [hspell] using separated_word hblock
      | some op => simpa [hspell] using separated_word (separated_operator hopen hblock)
    · have hchildren := separated_spellAll es hc.2 hfirst hclose
      simpa [hspell] using separated_brace (.inl rfl) hchildren

theorem separated_spellAll : (es : List Element) → AllCanonical es → ∀ {ks : List TokenKind},
    NoOperatorFirst ks → Separated ks → Separated (spellAll es ++ ks)
  | [], _, _, _, h => h
  | e :: es, hc, ks, hf, h => by
    have hrest := separated_spellAll es hc.2.2 hf h
    rw [spellAll, List.append_assoc]
    refine separated_spell e hc.1 ?_ hrest
    cases es with
    | nil => exact hf
    | cons f es =>
      rw [spellAll, List.append_assoc]
      exact noOperatorFirst_spell hc.2.2.1

end

/-! ## Squeezed tokens are a layout -/

/-- A word that a space is kept beside, or that may touch what is beside it. -/
def IsLoose (w : Text) : Prop :=
  startsTight w = false ∧ endsTight w = false ∧ w.getLast? ≠ some '?'

section

variable {ks : List TokenKind} {k k' : TokenKind}

theorem mayTouch_of_tight (hk : ∀ w, k = .word w → IsLoose w) (hk' : ∀ w, k' = .word w → IsLoose w)
    (hne : ¬ ∃ o o', k = .operator o ∧ k' = .operator o') (h : Tight k k') : MayTouch k k' := by
  cases k with
  | word w =>
    obtain ⟨-, hends, hlast⟩ := hk w rfl
    cases k' with
    | word w' =>
      have hstarts := (hk' w' rfl).1
      simp [Tight, TokenKind.lexeme, hends, hstarts] at h
    | operator o => exact hlast
    | openBrace | closeBrace | comment _ | endOfInput | illegal _ => exact trivial
  | operator o =>
    cases k' with
    | operator o' => exact hne ⟨o, o', rfl, rfl⟩
    | word _ | openBrace | closeBrace | comment _ | endOfInput | illegal _ => exact trivial
  | openBrace | closeBrace | comment _ | endOfInput | illegal _ => exact trivial

theorem laysOut_squeeze (hs : Separated ks) (hks : ∀ w, .word w ∈ ks → IsLoose w)
    (tight : Bool) : LaysOut MayTouch ks (squeeze tight ks) := by
  induction ks generalizing tight with
  | nil => exact .nil (by rintro c ⟨⟩)
  | cons k ks ih =>
    have hks' : ∀ w, .word w ∈ ks → IsLoose w := fun w hw => hks w (List.mem_cons_of_mem _ hw)
    refine .cons ?_ ?_ (ih hs.2 hks' _)
    · intro c hc
      rw [spaceBefore] at hc
      split at hc
      · cases List.mem_singleton.1 hc; rfl
      · cases hc
    · cases ks with
      | nil => exact .inl (by rintro c ⟨⟩)
      | cons k' ks =>
        by_cases ht : Tight k k'
        · refine .inr ?_
          rintro _ ⟨⟩
          refine mayTouch_of_tight (fun w hw => hks w (hw ▸ List.mem_cons_self))
            (fun w hw => hks' w (hw ▸ List.mem_cons_self)) ?_ ht
          rintro ⟨o, o', rfl, rfl⟩
          exact hs.1 ⟨o, rfl⟩ o' rfl
        · rw [Tight, not_or, Bool.not_eq_true, Bool.not_eq_true] at ht
          refine .inl ?_
          rw [squeeze, spaceBefore, ht.1, ht.2]
          rintro c ⟨⟩
          rfl

end

/-! ## Words -/

/-- A word on one line without tabs, brackets and question marks. -/
def IsSimple (w : Text) : Prop :=
  '[' ∉ w ∧ ']' ∉ w ∧ '?' ∉ w ∧ '\t' ∉ w ∧ '\n' ∉ w ∧ '\r' ∉ w

instance (w : Text) : Decidable (IsSimple w) := inferInstanceAs (Decidable (_ ∧ _))

mutual

theorem mem_words_of_mem_spell : (e : Element) → ∀ {w : Text}, .word w ∈ spell e → w ∈ words e
  | .leaf k o v, w, h => by
    simpa [spell, words, eq_comm] using h
  | .block k o es, w, h => by
    have hall := mem_words_of_mem_spellAll es (w := w)
    rw [spell, List.mem_append, List.mem_append] at h
    rw [words, List.mem_append]
    rcases h with h | h | h
    · split at h
      · cases h
      · next hk => exact .inl (by simpa [hk] using h)
    · simp at h
    · split at h
      · exact .inr (hall h)
      · refine .inr (hall ?_)
        simpa using h

theorem mem_words_of_mem_spellAll : (es : List Element) → ∀ {w : Text},
    .word w ∈ spellAll es → w ∈ wordsAll es
  | [], _, h => by cases h
  | e :: es, w, h => by
    rw [wordsAll, List.mem_append]
    exact (List.mem_append.1 h).imp (mem_words_of_mem_spell e) (mem_words_of_mem_spellAll es)

end

/-- The tokens of an element of simple words are copied whole, and may touch where they are. -/
theorem isPiece_of_mem_spell {e : Element} (hc : Canonical e) (hw : ∀ w ∈ words e, IsSimple w)
    {k : TokenKind} (hk : k ∈ spell e) :
    IsPiece k.lexeme ∧ '\t' ∉ k.lexeme ∧ ∀ w, k = .word w → IsLoose w := by
  obtain ⟨x, hcut⟩ := stands_of_mem_spell e hc k hk
  cases k with
  | word w =>
    obtain ⟨hopen, hclose, hquery, htab, hline, -⟩ := hw w (mem_words_of_mem_spell e hk)
    obtain ⟨hpiece, hstarts, hends⟩ := hcut.isPiece_word hopen hclose hline
    refine ⟨hpiece, htab, ?_⟩
    rintro _ ⟨⟩
    exact ⟨hstarts, hends, fun hlast => hquery (List.mem_of_getLast? hlast)⟩
  | openBrace | closeBrace | operator _ | comment _ | endOfInput | illegal _ =>
    obtain ⟨hpiece, htab⟩ := hcut.isPiece_mark (by rintro w ⟨⟩)
    exact ⟨hpiece, htab, by rintro w ⟨⟩⟩

/-! ## What is hashed -/

section

variable {t u : Element}

/-- The text that is hashed for an element is its tokens, squeezed. -/
theorem fingerprint_format (hc : Canonical t) (hw : ∀ w ∈ words t, IsSimple w) :
    Definition.fingerprint (Definition.tidyCode t.format) = squeeze true (spell t) :=
  fingerprint_of_laysOut (laysOut_format hc) (fun _ hk => (isPiece_of_mem_spell hc hw hk).1)
    fun _ hk => (isPiece_of_mem_spell hc hw hk).2.1

/-- The squeezed tokens of an element are read as the element. -/
theorem parse_squeeze (hc : Canonical t) (hd : t.depth ≤ Tree.maxDepth)
    (hw : ∀ w ∈ words t, IsSimple w) :
    parse .strict ['#'] (squeeze true (spell t)) = .ok [t] := by
  have hspell : spellAll [t] = spell t := List.append_nil _
  have hseparated : Separated (spell t) := by
    have hnil : NoOperatorFirst [] := by rintro o ⟨⟩
    simpa using separated_spell t hc hnil trivial
  have hlayout : LaysOut MayTouch (spellAll [t]) (squeeze true (spell t)) := by
    rw [hspell]
    exact laysOut_squeeze hseparated
      (fun w hk => (isPiece_of_mem_spell hc hw hk).2.2 w rfl) true
  exact parse_of_laysOut ⟨hc, by rintro f ⟨⟩, trivial⟩ (Nat.max_le.2 ⟨hd, Nat.zero_le _⟩) hlayout

/-- **Canonical code is told apart by its hash**: the texts that are hashed for the code of two
elements are equal only if the elements are. -/
theorem fingerprint_format_iff (ht : Canonical t) (hu : Canonical u)
    (hdt : t.depth ≤ Tree.maxDepth) (hdu : u.depth ≤ Tree.maxDepth)
    (hwt : ∀ w ∈ words t, IsSimple w) (hwu : ∀ w ∈ words u, IsSimple w) :
    Definition.fingerprint (Definition.tidyCode t.format) =
      Definition.fingerprint (Definition.tidyCode u.format) ↔ t = u := by
  constructor
  · intro h
    rw [fingerprint_format ht hwt, fingerprint_format hu hwu] at h
    have hparse := parse_squeeze ht hdt hwt
    rw [h, parse_squeeze hu hdu hwu] at hparse
    exact (List.cons.inj (Except.ok.inj hparse)).1.symm
  · rintro rfl
    rfl

def namedBlock (name : Text) : Element :=
  .block "on_action" none [.leaf "size" ">=" "2", .leaf "name" "=" name]

/-- A space inside of quotes counts. -/
theorem fingerprint_format_namedBlock :
    Canonical (namedBlock "\"a = \x7bb\"") ∧ Canonical (namedBlock "\"a =\x7bb\"") ∧
      Definition.fingerprint (Definition.tidyCode (namedBlock "\"a = \x7bb\"").format) ≠
        Definition.fingerprint (Definition.tidyCode (namedBlock "\"a =\x7bb\"").format) := by
  have ht : Canonical (namedBlock "\"a = \x7bb\"") := by decide +kernel
  have hu : Canonical (namedBlock "\"a =\x7bb\"") := by decide +kernel
  refine ⟨ht, hu, fun h => ?_⟩
  have heq := (fingerprint_format_iff ht hu (by decide) (by decide) (by decide) (by decide)).1 h
  revert heq
  decide

end

end GameScript
