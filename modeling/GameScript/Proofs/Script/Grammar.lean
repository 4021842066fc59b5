import GameScript.Script.Token
import Mathlib.Data.List.Induction

/-!
# The grammar of scripts

`Grammatical` says of tokens, comments left out, that none is illegal, that braces balance and do
not nest too deep, and that every operator stands behind a key and in front of a value. The same
can be said token by token: each one fits behind those before it (`grammatical_iff`).
-/

namespace GameScript

/-! ## Grammatical tokens -/

/-- Whether the last token is an operator. -/
def EndsInOperator (ks : List TokenKind) : Prop := ∃ op, ks.getLast? = some (.operator op)

/-- Whether the last token is a word that is not the value of an operator. -/
def EndsInKey (ks : List TokenKind) : Prop := ∃ l w, ks = l ++ [.word w] ∧ ¬ EndsInOperator l

/-- Whether a token can follow an operator. -/
def IsValueStart (k : TokenKind) : Prop := (∃ v, k = .word v) ∨ k = .openBrace

/-- What the full check asks for: no illegal token, and braces that balance. -/
structure WellBraced (ks : List TokenKind) : Prop where
  legal : ∀ cause, .illegal cause ∉ ks
  closes : ∀ l, l <+: ks → l.count .closeBrace ≤ l.count .openBrace
  balanced : ks.count .openBrace = ks.count .closeBrace

/-- What a strict reading accepts, without comments. -/
structure Grammatical (ks : List TokenKind) : Prop extends WellBraced ks where
  shallow : ∀ l, l <+: ks → l.count .openBrace ≤ l.count .closeBrace + 256
  placed : ∀ l op r, ks = l ++ .operator op :: r →
    EndsInKey l ∧ ∃ k r', r = k :: r' ∧ IsValueStart k

variable {before ks : List TokenKind} {k : TokenKind}

theorem not_endsInOperator_nil : ¬ EndsInOperator [] := by
  rintro ⟨op, h⟩
  cases h

theorem not_endsInKey_nil : ¬ EndsInKey [] := by
  rintro ⟨l, w, h, -⟩
  exact absurd h.symm (List.append_ne_nil_of_right_ne_nil l (List.cons_ne_nil _ _))

theorem endsInOperator_concat : EndsInOperator (before ++ [k]) ↔ ∃ op, k = .operator op := by
  simp [EndsInOperator]

theorem endsInKey_concat :
    EndsInKey (before ++ [k]) ↔ (∃ w, k = .word w) ∧ ¬ EndsInOperator before := by
  constructor
  · rintro ⟨l, w, h, hl⟩
    obtain ⟨rfl, rfl⟩ := List.append_inj' h rfl |>.imp id List.singleton_inj.1
    exact ⟨⟨w, rfl⟩, hl⟩
  · rintro ⟨⟨w, rfl⟩, hl⟩
    exact ⟨before, w, rfl, hl⟩

/-! ## Tokens that fit -/

/-- Whether a token can be read behind the tokens `before`. -/
structure Fits (before : List TokenKind) (k : TokenKind) : Prop where
  legal : ∀ cause, k ≠ .illegal cause
  closes : k = .closeBrace → before.count .closeBrace < before.count .openBrace
  shallow : k = .openBrace → before.count .openBrace < before.count .closeBrace + 256
  operator : ∀ op, k = .operator op → EndsInKey before
  value : EndsInOperator before → IsValueStart k

/-- Whether each token can be read behind those in front of it. -/
def AllFit (before : List TokenKind) (ks : List TokenKind) : Prop :=
  ∀ l k r, ks = l ++ k :: r → Fits (before ++ l) k

theorem allFit_nil : AllFit before [] := by
  intro l k r h
  simp at h

theorem allFit_cons : AllFit before (k :: ks) ↔ Fits before k ∧ AllFit (before ++ [k]) ks := by
  constructor
  · intro h
    refine ⟨by simpa using h [] k ks rfl, ?_⟩
    intro l k' r hr
    simpa using h (k :: l) k' r (by rw [hr, List.cons_append])
  · rintro ⟨hk, hks⟩ l k' r hr
    cases l with
    | nil =>
      obtain ⟨rfl, rfl⟩ := List.cons.inj hr
      simpa using hk
    | cons a l =>
      obtain ⟨rfl, rfl⟩ := List.cons.inj hr
      simpa using hks l k' r rfl

theorem AllFit.left {l : List TokenKind} (h : AllFit [] ks) (hl : l <+: ks) : AllFit [] l := by
  obtain ⟨r, rfl⟩ := hl
  rintro l' k r' rfl
  exact h l' k (r' ++ r) (by simp)

/-- As long as each token fits, no brace closes too much and none opens too deep. -/
theorem AllFit.counts (h : AllFit [] ks) :
    ks.count .closeBrace ≤ ks.count .openBrace ∧
      ks.count .openBrace ≤ ks.count .closeBrace + 256 := by
  induction ks using List.reverseRecOn with
  | nil => simp
  | append_singleton l k ih =>
    obtain ⟨hcloses, hshallow⟩ := ih (h.left (List.prefix_append l [k]))
    have hk : Fits l k := h l k [] rfl
    simp only [List.count_append, List.count_singleton]
    by_cases hopen : k = .openBrace
    · have := hk.shallow hopen
      subst hopen
      simp
      omega
    · by_cases hclose : k = .closeBrace
      · have := hk.closes hclose
        subst hclose
        simp
        omega
      · simp [hopen, hclose]
        omega

/-- Tokens are grammatical when each fits and all that was opened is closed, unless they end in
an operator. -/
theorem grammatical_iff (hend : ¬ EndsInOperator ks) :
    Grammatical ks ↔ AllFit [] ks ∧ ks.count .openBrace = ks.count .closeBrace := by
  constructor
  · intro h
    refine ⟨?_, h.balanced⟩
    intro l k r hks
    rw [List.nil_append]
    have hprefix : l ++ [k] <+: ks := ⟨r, by rw [hks, List.append_assoc]; rfl⟩
    have hcloses := h.closes _ hprefix
    have hshallow := h.shallow _ hprefix
    rw [List.count_append, List.count_append] at hcloses hshallow
    constructor
    case legal =>
      rintro cause rfl
      exact h.legal cause (by simp [hks])
    case closes =>
      rintro rfl
      simp at hcloses
      omega
    case shallow =>
      rintro rfl
      simp at hshallow
      omega
    case operator =>
      rintro op rfl
      exact (h.placed l op r hks).1
    case value =>
      rintro ⟨op, hop⟩
      obtain ⟨l', rfl⟩ := List.getLast?_eq_some_iff.1 hop
      obtain ⟨-, k', r', hr, hk'⟩ := h.placed l' op (k :: r) (by simp [hks])
      cases hr
      exact hk'
  · rintro ⟨h, hbalanced⟩
    constructor
    case toWellBraced =>
      refine ⟨?_, fun l hl => (h.left hl).counts.1, hbalanced⟩
      intro cause hmem
      obtain ⟨l, r, rfl⟩ := List.append_of_mem hmem
      exact (h l _ r rfl).legal cause rfl
    case shallow => exact fun l hl => (h.left hl).counts.2
    case placed =>
      intro l op r hks
      refine ⟨(h l _ r hks).operator op rfl, ?_⟩
      cases r with
      | nil => exact absurd ⟨op, by simp [hks]⟩ hend
      | cons k r =>
        have hk : Fits ([] ++ (l ++ [.operator op])) k := h _ k r (by simp [hks])
        exact ⟨k, r, rfl, hk.value (endsInOperator_concat.2 ⟨op, rfl⟩)⟩

end GameScript
