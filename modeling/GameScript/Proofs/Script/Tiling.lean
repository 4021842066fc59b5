import GameScript.Proofs.Script.Spread
import Mathlib.Data.List.DropRight

/-!
# Tokens cover their source

A position that is counted character by character is the true one: it counts the bytes and the
line feeds before it, and the characters since the last of these (`advance_behind`). `Tiling` puts a
text together from tokens and the gaps between them, each token at its true place and with the
characters it stands for; the tokens of a text are such a tiling of it (`tiling_tokensFrom`). So
nothing but gaps is lost of a source (`tokens_tile`).
-/

namespace GameScript

open Text Lexer

/-! ## True positions -/

def Text.byteSize : Text → Nat
  | [] => 0
  | c :: cs => c.utf8Size + byteSize cs

def Position.behind (t : Text) : Position where
  offset := byteSize t
  line := 1 + t.count '\n'
  column := 1 + (t.rtakeWhile (· ≠ '\n')).length

/-- Whether a text is what stands between two byte offsets of a source. -/
def IsSlice (source : Text) (start stop : Nat) (t : Text) : Prop :=
  ∃ before after, source = before ++ (t ++ after) ∧ byteSize before = start ∧
    byteSize (before ++ t) = stop

variable {m before t u : Text} {ts : List Token} {x : Token}

@[simp] theorem byteSize_append : byteSize (t ++ u) = byteSize t + byteSize u := by
  induction t with
  | nil => rw [List.nil_append, byteSize, Nat.zero_add]
  | cons c t ih => rw [List.cons_append, byteSize, byteSize, ih, Nat.add_assoc]

theorem byteSize_pos (h : t ≠ []) : 0 < byteSize t := by
  obtain ⟨c, cs, rfl⟩ := List.exists_cons_of_ne_nil h
  have hc : 0 < c.utf8Size := c.utf8Size_pos
  rw [byteSize]
  omega

theorem next_behind (t : Text) (c : Char) :
    (Position.behind t).next c = Position.behind (t ++ [c]) := by
  by_cases hc : c = '\n'
  · subst hc
    simp [Position.next, Position.behind, byteSize, List.rtakeWhile_concat_neg, Nat.add_assoc]
  · have hcount : List.count '\n' [c] = 0 := by simp [hc]
    simp [Position.next, Position.behind, byteSize, hc, List.rtakeWhile_concat_pos,
      List.count_append, hcount, Nat.add_assoc]

theorem advance_behind (t u : Text) :
    (Position.behind t).advance u = Position.behind (t ++ u) := by
  induction u generalizing t with
  | nil => simp [Position.advance]
  | cons c u ih =>
    have hrest := ih (t ++ [c])
    rw [← next_behind, List.append_assoc] at hrest
    exact hrest

/-! ## Tilings -/

/-- Whether a token may stand for these characters. What is illegal is a control character, or goes
up to the end from a word whose quote is never closed. -/
def TokenKind.Spells (m lexeme : Text) : TokenKind → Prop
  | comment body => ∃ rest, lexeme = m ++ rest ∧ trimEnd rest = body
  | illegal (.control c) => lexeme = [c]
  | illegal (.unterminated ..) => True
  | endOfInput => False
  | k => lexeme = k.lexeme

/-- A token of these characters behind `before`. -/
def Token.placed (k : TokenKind) (before lexeme : Text) : Token :=
  ⟨k, .behind before, byteSize (before ++ lexeme)⟩

/-- A text that stands behind `before`, as tokens with gaps before them. -/
inductive Tiling (m : Text) : Text → Text → List Token → Prop where
  | finish {before g : Text} : IsGaps g →
    Tiling m before g [.placed .endOfInput (before ++ g) []]
  | token {before g lexeme rest : Text} {k : TokenKind} {ts : List Token} : IsGaps g →
    lexeme ≠ [] → k.Spells m lexeme → Tiling m (before ++ g ++ lexeme) rest ts →
      Tiling m before (g ++ (lexeme ++ rest)) (.placed k (before ++ g) lexeme :: ts)

theorem Tiling.gap {c : Char} (hc : isGap c = true) (h : Tiling m (before ++ [c]) t ts) :
    Tiling m before (c :: t) ts := by
  generalize hb : before ++ [c] = b at h
  cases h with
  | finish hg =>
    subst hb
    have hend : Tiling m before (c :: t) _ := .finish (isGaps_cons.2 ⟨hc, hg⟩)
    simpa using hend
  | @token _ g lexeme rest k ts hg hne hk h =>
    subst hb
    have hrest : Tiling m (before ++ c :: g ++ lexeme) rest ts := by simpa using h
    simpa using Tiling.token (isGaps_cons.2 ⟨hc, hg⟩) hne hk hrest

theorem spells_cut (p : Position) (c : Char) (cs : Text) :
    (cut m p c cs).kind.Spells m (cut m p c cs).lexeme := by
  refine cut_cases (P := fun f => (f p).kind.Spells m (f p).lexeme) ?_ ?_ ?_ ?_ ?_ ?_ ?_
  · exact fun _ => ⟨_, rfl, rfl⟩
  · exact fun _ _ => rfl
  · exact fun _ _ => rfl
  · exact fun _ _ => rfl
  · exact fun _ => rfl
  · exact fun _ _ => rfl
  · exact fun _ _ => trivial

theorem cut_lexeme_ne_nil {p : Position} {c : Char} {cs : Text} (h : isGap c = false) :
    (cut m p c cs).lexeme ≠ [] := by
  intro hnil
  have hall := cut_append (m := m) p c cs
  have hlt := length_cut m p c cs h
  rw [hnil, List.nil_append] at hall
  rw [hall] at hlt
  exact Nat.lt_irrefl _ hlt

/-- **The tokens of a text tile it.** -/
theorem tiling_tokensFrom (m before t : Text) :
    Tiling m before t (tokensFrom m (.behind before) t) := by
  generalize hp : Position.behind before = p
  fun_induction tokensFrom m p t generalizing before with
  | case1 p =>
    subst hp
    have hend : Tiling m before [] _ := .finish isGaps_nil
    rw [List.append_nil] at hend
    simpa [Token.placed, Position.behind] using hend
  | case2 p c cs hgap ih =>
    subst hp
    exact (ih _ (next_behind before c).symm).gap hgap
  | case3 p c cs hgap x after ih =>
    subst hp
    have hafter : Position.behind (before ++ x.lexeme) = after := (advance_behind _ _).symm
    have hall : x.lexeme ++ x.rest = c :: cs := cut_append ..
    have hrest : Tiling m (before ++ [] ++ x.lexeme) x.rest (tokensFrom m after x.rest) := by
      simpa using ih _ hafter
    have hcut := Tiling.token isGaps_nil (cut_lexeme_ne_nil (by simpa using hgap))
      (spells_cut (.behind before) c cs) hrest
    rw [List.nil_append, List.append_nil, hall] at hcut
    rw [← hafter] at hcut ⊢
    exact hcut

/-! ## What a tiling says -/

/-- A source as its tokens: nothing is lost of it, and every place is the true one. -/
structure Tokenizes (m source : Text) (ts : List Token) : Prop where
  /-- One token is the end of input, the last one, where the source ends. -/
  finish : ∃ us, ts = us ++ [.placed .endOfInput source []] ∧
    ∀ u ∈ us, u.kind ≠ .endOfInput
  /-- Every other token has a span that is not empty, and stands for what is there. -/
  slices : ∀ x ∈ ts, x.kind ≠ .endOfInput → ∃ lexeme, lexeme ≠ [] ∧
    x.span.start.offset < x.span.stop ∧
      IsSlice source x.span.start.offset x.span.stop lexeme ∧ x.kind.Spells m lexeme
  /-- No span reaches into a later one. -/
  ordered : ts.Pairwise fun x y => x.span.stop ≤ y.span.start.offset
  /-- Before the first span and between two neighbours there are gaps only. -/
  gaps : ∀ p ∈ (0 :: ts.map (·.span.stop)).zip (ts.map (·.span.start.offset)),
    ∃ g, IsSlice source p.1 p.2 g ∧ IsGaps g
  /-- Every token starts at the true position. -/
  places : ∀ x ∈ ts, ∃ before, before <+: source ∧ x.span.start = .behind before

namespace Tiling

theorem finish_eq (h : Tiling m before t ts) : ∃ us,
    ts = us ++ [.placed .endOfInput (before ++ t) []] ∧ ∀ u ∈ us, u.kind ≠ .endOfInput := by
  induction h with
  | finish hg => exact ⟨[], rfl, fun u hu => nomatch hu⟩
  | @token before g lexeme rest k ts hg hne hk h ih =>
    obtain ⟨us, rfl, hus⟩ := ih
    have hend : k ≠ .endOfInput := by
      rintro rfl
      exact hk
    refine ⟨.placed k (before ++ g) lexeme :: us, ?_, List.forall_mem_cons.2 ⟨hend, hus⟩⟩
    simp

theorem slices (h : Tiling m before t ts) : ∀ x ∈ ts, x.kind ≠ .endOfInput →
    ∃ lexeme, lexeme ≠ [] ∧ x.span.start.offset < x.span.stop ∧
      IsSlice (before ++ t) x.span.start.offset x.span.stop lexeme ∧ x.kind.Spells m lexeme := by
  induction h with
  | finish hg => exact List.forall_mem_singleton.2 fun hend => absurd rfl hend
  | @token before g lexeme rest k ts hg hne hk h ih =>
    refine List.forall_mem_cons.2 ⟨fun _ => ⟨lexeme, hne, ?_, ?_, hk⟩, fun x hx hend => ?_⟩
    · have hpos := byteSize_pos hne
      have hsize := byteSize_append (t := before ++ g) (u := lexeme)
      show byteSize (before ++ g) < byteSize (before ++ g ++ lexeme)
      omega
    · exact ⟨before ++ g, rest, by simp, rfl, rfl⟩
    · simpa using ih x hx hend

/-- What is tiled starts behind what is before it. -/
theorem start_le (h : Tiling m before t ts) :
    ∀ x ∈ ts, byteSize before ≤ x.span.start.offset := by
  induction h with
  | @finish before g hg =>
    have hle := Nat.le_add_right (byteSize before) (byteSize g)
    rw [← byteSize_append] at hle
    exact List.forall_mem_singleton.2 hle
  | @token before g lexeme rest k ts hg hne hk h ih =>
    have hle := Nat.le_add_right (byteSize before) (byteSize g)
    rw [← byteSize_append] at hle
    refine List.forall_mem_cons.2 ⟨hle, fun x hx => ?_⟩
    have hx := ih x hx
    rw [byteSize_append] at hx
    omega

theorem ordered (h : Tiling m before t ts) :
    ts.Pairwise fun x y => x.span.stop ≤ y.span.start.offset := by
  induction h with
  | finish hg => exact List.pairwise_singleton _ _
  | token hg hne hk h ih => exact List.pairwise_cons.2 ⟨h.start_le, ih⟩

theorem gaps (h : Tiling m before t ts) :
    ∀ p ∈ (byteSize before :: ts.map (·.span.stop)).zip (ts.map (·.span.start.offset)),
      ∃ g, IsSlice (before ++ t) p.1 p.2 g ∧ IsGaps g := by
  induction h with
  | @finish before g hg =>
    refine List.forall_mem_singleton.2 ⟨g, ⟨before, [], by simp, rfl, rfl⟩, hg⟩
  | @token before g lexeme rest k ts hg hne hk h ih =>
    refine List.forall_mem_cons.2 ⟨⟨g, ⟨before, lexeme ++ rest, rfl, rfl, rfl⟩, hg⟩, ?_⟩
    intro p hp
    simpa using ih p hp

theorem places (h : Tiling m before t ts) :
    ∀ x ∈ ts, ∃ u, u <+: before ++ t ∧ x.span.start = .behind u := by
  induction h with
  | finish hg => exact List.forall_mem_singleton.2 ⟨_, List.prefix_refl _, rfl⟩
  | @token before g lexeme rest k ts hg hne hk h ih =>
    refine List.forall_mem_cons.2 ⟨⟨before ++ g, ⟨lexeme ++ rest, by simp⟩, rfl⟩, ?_⟩
    intro x hx
    simpa using ih x hx

end Tiling

/-- **Tokens tile their source.** Whatever the source and the marker of comments, the tokens end
with one end of input where the source ends; every other one stands for the characters in its span,
which is not empty; the spans are in order and apart, with nothing but white space and byte order
marks between them; and each starts at the byte, line and column that it says. -/
theorem tokens_tile (m source : Text) : Tokenizes m source (tokens m source) := by
  have h : Tiling m [] source (tokens m source) := tiling_tokensFrom m [] source
  exact ⟨h.finish_eq, h.slices, h.ordered, h.gaps, h.places⟩

end GameScript
