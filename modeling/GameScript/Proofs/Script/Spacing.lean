import GameScript.Proofs.Script.Lexing

/-!
# Tokens with spacing between them

`LaysOut Touch ks t` says that `t` is written by putting the lexemes of `ks` one after the other
with spacing around them, where tokens without spacing between them are such as `Touch` allows.
A text laid out so is read as these tokens again (`LaysOut.readsAs`), provided that each of them
is a token in front of a blank and that `MayTouch` is respected.
-/

namespace GameScript

open Text Lexer

def isSpacing (c : Char) : Bool := c == ' ' || c == '\t' || c == '\n'

theorem isBlankChar_of_isSpacing {c : Char} (h : isSpacing c = true) : isBlankChar c = true := by
  simp only [isSpacing, Bool.or_eq_true, beq_iff_eq] at h
  rcases h with (rfl | rfl) | rfl <;> decide

theorem isGap_of_isSpacing {c : Char} (h : isSpacing c = true) : isGap c = true := by
  simp [isGap, isBlankChar_of_isSpacing h]

def StartsSpaced (t : Text) : Prop := ∀ c ∈ t.head?, isSpacing c = true

def StartsBlank (t : Text) : Prop := ∀ c ∈ t.head?, isBlankChar c = true

/-- `t`, which `ks` make, is apart from a token before it or may touch that token. -/
def Apart (Touch : TokenKind → TokenKind → Prop) (k : TokenKind) (ks : List TokenKind)
    (t : Text) : Prop :=
  StartsSpaced t ∨ ∀ k' ∈ ks.head?, Touch k k'

inductive LaysOut (Touch : TokenKind → TokenKind → Prop) : List TokenKind → Text → Prop where
  | nil {g : Text} : (∀ c ∈ g, isSpacing c = true) → LaysOut Touch [] g
  | cons {g t : Text} {k : TokenKind} {ks : List TokenKind} : (∀ c ∈ g, isSpacing c = true) →
      Apart Touch k ks t → LaysOut Touch ks t → LaysOut Touch (k :: ks) (g ++ (k.lexeme ++ t))

namespace LaysOut

variable {Touch : TokenKind → TokenKind → Prop} {k : TokenKind} {ks : List TokenKind} {t : Text}

theorem spaces {g : Text} (hg : ∀ c ∈ g, isSpacing c = true) (h : LaysOut Touch ks t) :
    LaysOut Touch ks (g ++ t) := by
  cases h with
  | nil hg' => exact .nil fun c hc => (List.mem_append.1 hc).elim (hg c) (hg' c)
  | cons hg' hap h =>
    rw [← List.append_assoc]
    exact .cons (fun c hc => (List.mem_append.1 hc).elim (hg c) (hg' c)) hap h

theorem space {c : Char} (hc : isSpacing c = true) (h : LaysOut Touch ks t) :
    LaysOut Touch ks (c :: t) :=
  h.spaces (g := [c]) (by simpa using hc)

theorem token (hap : Apart Touch k ks t) (h : LaysOut Touch ks t) :
    LaysOut Touch (k :: ks) (k.lexeme ++ t) :=
  .cons (g := []) (by simp) hap h

end LaysOut

/-! ## Reading a layout -/

/-- Tokens that are read apart with nothing between them. -/
def MayTouch : TokenKind → TokenKind → Prop
  | .word _, .word _ => False
  | .operator _, .operator _ => False
  -- the question mark would go to the operator
  | .word w, .operator _ => w.getLast? ≠ some '?'
  | _, _ => True

/-- So are these: only an operator that begins with an equals sign takes the question mark. -/
def MayMeet : TokenKind → TokenKind → Prop
  | .word _, .word _ => False
  | .operator _, .operator _ => False
  | .word w, .operator o => w.getLast? = some '?' → o.head? ≠ some '='
  | _, _ => True

/-- The token is cut off in front of a blank. -/
def Stands (m : Text) (k : TokenKind) : Prop := ∃ x, CutsOff m k (' ' :: x)

/-- A marker that takes nothing that ends a word. -/
def PlainMarker (m : Text) : Prop :=
  ∀ c ∈ m, isBlankChar c = false ∧ isOperatorChar c = false ∧ c ≠ '?' ∧ c ≠ '{' ∧ c ≠ '}'

section

variable {m : Text} {k k' : TokenKind} {ks : List TokenKind} {r t : Text}

theorem MayTouch.mayMeet (h : MayTouch k k') : MayMeet k k' := by
  cases k with
  | word w =>
    cases k' with
    | operator o => exact fun hlast => absurd hlast h
    | word _ | openBrace | closeBrace | comment _ | endOfInput | illegal _ => exact h
  | operator o => cases k' <;> exact h
  | openBrace | closeBrace | comment _ | endOfInput | illegal _ => exact trivial

theorem isOperatorAt_gap {c : Char} (h : isGap c = true) (cs : Text) :
    isOperatorAt c cs = false := by
  refine Bool.eq_false_iff.2 fun hop => ?_
  simp only [isOperatorAt, isOperatorChar, Bool.or_eq_true, Bool.and_eq_true, beq_iff_eq] at hop
  rcases hop with (((rfl | rfl) | rfl) | rfl) | ⟨rfl, -⟩ <;> revert h <;> decide

theorem stopsWord_blank {c : Char} (h : isBlankChar c = true) (cs : Text) :
    stopsWord m (.plain false) c cs = true := by
  have hquote : c ≠ '"' := by rintro rfl; revert h; decide
  have hopen : c ≠ '[' := by rintro rfl; revert h; decide
  have hclose : c ≠ ']' := by rintro rfl; revert h; decide
  simp [stopsWord, endsWord, h, hquote, hopen, hclose]

theorem stopsWord_operator {c : Char} {cs : Text} (h : isOperatorAt c cs = true) :
    stopsWord m (.plain false) c cs = true := by
  have h1 : c ≠ '"' := by rintro rfl; cases h
  have h2 : c ≠ '[' := by rintro rfl; cases h
  have h3 : c ≠ ']' := by rintro rfl; cases h
  simp [stopsWord, endsWord, h, h1, h2, h3]

namespace PlainMarker

theorem blank (hm : PlainMarker m) {c : Char} (h : isBlankChar c = true) : c ∉ m := fun hc => by
  have := (hm c hc).1
  rw [h] at this
  cases this

theorem operator (hm : PlainMarker m) {c : Char} {cs : Text} (h : isOperatorAt c cs = true) :
    c ∉ m := fun hc => by
  obtain ⟨-, h1, h2, -⟩ := hm c hc
  simp only [isOperatorAt, h1, Bool.false_or, Bool.and_eq_true, beq_iff_eq] at h
  exact h2 h.1

theorem openBrace (hm : PlainMarker m) : '{' ∉ m := fun hc => (hm _ hc).2.2.2.1 rfl

theorem closeBrace (hm : PlainMarker m) : '}' ∉ m := fun hc => (hm _ hc).2.2.2.2 rfl

end PlainMarker

theorem isCommentAt_operator (hm : PlainMarker m) {o : Text} (h : CutsOff m (.operator o) r)
    (t : Text) : isCommentAt m (o ++ t) = false := by
  obtain ⟨c, cs, rfl, hc⟩ := h.operator_start
  exact isCommentAt_foreign (hm.operator hc) _

/-- What stands in front of a blank stands in front of any gap and of the end. Only a word would
go on with a byte order mark. -/
theorem Stands.before_gap (hm : PlainMarker m) (hk : Stands m k)
    (ht : ∀ c ∈ t.head?, isGap c = true) (hword : ∀ w, k = .word w → StartsBlank t) :
    CutsOff m k t := by
  obtain ⟨x, hk⟩ := hk
  cases k with
  | openBrace => exact cutsOff_openBrace hm.openBrace
  | closeBrace => exact cutsOff_closeBrace hm.closeBrace
  | operator o =>
    refine hk.operator_before (isCommentAt_operator hm hk t) ?_
    rintro c cs rfl
    exact isOperatorAt_gap (ht c rfl) cs
  | word w =>
    have hblank := hword w rfl
    refine hk.word_before (endsLike_blank ?_ fun c hc => hm.blank (hblank c hc)) fun _ he => ?_
    · rintro c cs rfl
      exact stopsWord_blank (hblank c rfl) cs
    · exact absurd (ht _ he) (by decide)
  | comment _ | endOfInput | illegal _ => obtain ⟨c, cs, h, -⟩ := hk; cases h

theorem Stands.before_spaced (hm : PlainMarker m) (hk : Stands m k) (ht : StartsSpaced t) :
    CutsOff m k t :=
  hk.before_gap hm (fun c hc => isGap_of_isSpacing (ht c hc))
    fun _ _ c hc => isBlankChar_of_isSpacing (ht c hc)

/-- Tokens that may meet are read apart with nothing between them. -/
theorem Stands.before_token (hm : PlainMarker m) (hk : Stands m k) (hT : MayMeet k k')
    (hk' : CutsOff m k' r) : CutsOff m k (k'.lexeme ++ r) := by
  obtain ⟨x, hk⟩ := hk
  cases k with
  | openBrace => exact cutsOff_openBrace hm.openBrace
  | closeBrace => exact cutsOff_closeBrace hm.closeBrace
  | operator o =>
    refine hk.operator_before (isCommentAt_operator hm hk _) ?_
    intro d ds hd
    cases k' with
    | openBrace => cases hd; rfl
    | closeBrace => cases hd; rfl
    | operator _ => exact hT.elim
    | word w =>
      obtain ⟨c, cs, rfl, -, hs, -⟩ := cutsOff_word_iff.1 hk'
      cases hd
      exact hs.operator
    | comment _ | endOfInput | illegal _ => obtain ⟨c, cs, h, -⟩ := hk'; cases h
  | word w =>
    cases k' with
    | openBrace =>
      refine hk.word_before (endsLike_blank ?_ ?_) fun _ he => by cases he
      · rintro _ _ ⟨⟩; rfl
      · rintro _ ⟨⟩; exact hm.openBrace
    | closeBrace =>
      refine hk.word_before (endsLike_blank ?_ ?_) fun _ he => by cases he
      · rintro _ _ ⟨⟩; rfl
      · rintro _ ⟨⟩; exact hm.closeBrace
    | operator o =>
      obtain ⟨c, cs, rfl, hc⟩ := hk'.operator_start
      refine hk.word_before (endsLike_blank ?_ ?_) hT
      · rintro _ _ ⟨⟩; exact stopsWord_operator hc
      · rintro _ ⟨⟩; exact hm.operator hc
    | word _ => exact hT.elim
    | comment _ | endOfInput | illegal _ => obtain ⟨c, cs, h, -⟩ := hk'; cases h
  | comment _ | endOfInput | illegal _ => obtain ⟨c, cs, h, -⟩ := hk; cases h

/-- A text starts spaced, or with the first of `ks` as a token that is cut off there. -/
def StartsWith (m : Text) (ks : List TokenKind) (t : Text) : Prop :=
  StartsSpaced t ∨ ∃ k r, ks.head? = some k ∧ t = k.lexeme ++ r ∧ CutsOff m k r

theorem Apart.cutsOff (hm : PlainMarker m) (hk : Stands m k) (hap : Apart MayTouch k ks t)
    (ht : StartsWith m ks t) : CutsOff m k t := by
  rcases ht with ht | ⟨k', r, hk', rfl, hcut⟩
  · exact hk.before_spaced hm ht
  · rcases hap with ht | hT
    · exact hk.before_spaced hm ht
    · exact hk.before_token hm (hT k' hk').mayMeet hcut

theorem LaysOut.startsWith (hm : PlainMarker m) (h : LaysOut MayTouch ks t)
    (hs : ∀ k ∈ ks, Stands m k) : StartsWith m ks t := by
  induction h with
  | nil hg => exact .inl fun c hc => hg c (List.mem_of_mem_head? hc)
  | @cons g t k ks hg hap h ih =>
    cases g with
    | cons c g => exact .inl fun d hd => hg d (List.mem_of_mem_head? hd)
    | nil =>
      have ht := ih fun k hk => hs k (List.mem_cons_of_mem _ hk)
      exact .inr ⟨k, t, rfl, rfl, hap.cutsOff hm (hs k List.mem_cons_self) ht⟩

/-- **A layout is read as its tokens.** -/
theorem LaysOut.readsAs (hm : PlainMarker m) (h : LaysOut MayTouch ks t)
    (hs : ∀ k ∈ ks, Stands m k) : ReadsAs m t (ks ++ [.endOfInput]) := by
  induction h with
  | nil hg => simpa using readsAs_nil.gaps fun c hc => isGap_of_isSpacing (hg c hc)
  | @cons g t k ks hg hap h ih =>
    have hs' : ∀ k ∈ ks, Stands m k := fun k hk => hs k (List.mem_cons_of_mem _ hk)
    have hcut := hap.cutsOff hm (hs k List.mem_cons_self) (h.startsWith hm hs')
    exact ((ih hs').cons hcut).gaps fun c hc => isGap_of_isSpacing (hg c hc)

end

end GameScript
