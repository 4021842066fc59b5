import GameScript.Proofs.Script.Spacing

/-!
# Tokens with the gaps between them

`Spread m ks t` says that `t` is made of the lexemes of `ks`, each cut off where it stands, with
gaps around them. A source is spread over its tokens when all of them have lexemes
(`spread_of_kinds`), and is read as the tokens that it is spread over (`Spread.readsAs`).
-/

namespace GameScript

open Text Lexer

def IsGaps (g : Text) : Prop := ∀ c ∈ g, isGap c = true

inductive Spread (m : Text) : List TokenKind → Text → Prop where
  | nil {g : Text} : IsGaps g → Spread m [] g
  | cons {g t : Text} {k : TokenKind} {ks : List TokenKind} :
    IsGaps g → CutsOff m k t → Spread m ks t → Spread m (k :: ks) (g ++ (k.lexeme ++ t))

variable {m t : Text} {k : TokenKind} {ks : List TokenKind} {c : Char} {g : Text}

theorem isGaps_nil : IsGaps [] := by rintro c ⟨⟩

theorem isGaps_cons : IsGaps (c :: g) ↔ isGap c = true ∧ IsGaps g := List.forall_mem_cons

theorem Spread.gap (h : Spread m ks t) (hc : isGap c = true) : Spread m ks (c :: t) := by
  cases h with
  | nil hg => exact .nil (isGaps_cons.2 ⟨hc, hg⟩)
  | cons hg hk h => exact .cons (g := c :: _) (isGaps_cons.2 ⟨hc, hg⟩) hk h

theorem Spread.token (h : Spread m ks t) (hk : CutsOff m k t) :
    Spread m (k :: ks) (k.lexeme ++ t) :=
  .cons isGaps_nil hk h

theorem Spread.readsAs (h : Spread m ks t) : ReadsAs m t (ks ++ [.endOfInput]) := by
  induction h with
  | nil hg => simpa using readsAs_nil.gaps hg
  | cons hg hk _ ih => exact (ih.cons hk).gaps hg

theorem spread_of_tokensFrom (p : Position) (t : Text) : ∀ ks : List TokenKind,
    (tokensFrom m p t).map (·.kind) = ks ++ [.endOfInput] → (∀ k ∈ ks, k.lexeme ≠ []) →
      Spread m ks t := by
  fun_induction tokensFrom m p t with
  | case1 p =>
    intro ks h _
    cases ks with
    | nil => exact .nil isGaps_nil
    | cons k ks => simp at h
  | case2 p c cs hgap ih => exact fun ks h hks => (ih ks h hks).gap hgap
  | case3 p c cs hgap x after ih =>
    intro ks h hks
    have hgap : isGap c = false := by simpa using hgap
    rw [List.map_cons] at h
    cases ks with
    | nil => exact absurd (List.cons.inj h).1 kind_cut_ne
    | cons k ks =>
      obtain ⟨hkind, hrest⟩ : (cut m p c cs).kind = k ∧ _ := List.cons.inj h
      have hk : k.lexeme ≠ [] := hks k List.mem_cons_self
      have hne : (cut m p c cs).kind.lexeme ≠ [] := by rwa [hkind]
      have hlexeme : c :: cs = k.lexeme ++ x.rest := by
        rw [← cut_append (m := m) p c cs, cut_lexeme hne, hkind]
      have hcut : CutsOff m k x.rest := hkind ▸ cutsOff_cut hgap hne
      rw [hlexeme]
      exact (ih ks hrest fun k hk => hks k (List.mem_cons_of_mem _ hk)).token hcut

/-- A source is spread over its tokens, when each but the last has a lexeme. -/
theorem spread_of_kinds {source : Text} (h : kinds m source = ks ++ [.endOfInput])
    (hks : ∀ k ∈ ks, k.lexeme ≠ []) : Spread m ks source :=
  spread_of_tokensFrom {} source ks h hks

end GameScript
