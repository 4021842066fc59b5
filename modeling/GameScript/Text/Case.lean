import GameScript.Text.Basic
import GameScript.Text.CaseTable

/-!
# Small letters

`lower` is full lowercasing: each character by its mapping, the capital dotted I as two
characters, and a capital sigma by its place in the word. `asciiLower` folds `A` to `Z` alone;
`same` compares texts up to that.
-/

namespace GameScript.Text

/-- The small form of one character, apart from the final sigma. -/
def lowerChar (c : Char) : Text :=
  if c.toNat < 128 then [c.toLower]
  else if c = '\u0130' then ['i', '\u0307']
  else
    match caseRuns.find? (·.covers c.toNat) with
    | some r => [Char.ofNat (r.small + (c.toNat - r.first))]
    | none => [c]

/-- Whether the next character that counts for case is a letter that has case. -/
def meetsCased (t : Text) : Bool :=
  match t.dropWhile (inRanges caseIgnorableRanges) with
  | [] => false
  | c :: _ => inRanges casedRanges c

/-- Lowercases a text that stands after `before` (nearest character first). A sigma is final
when a cased letter comes before it and none follows. -/
def lowerAfter (before : Text) : Text → Text
  | [] => []
  | c :: cs =>
    (if c = 'Σ' then [if meetsCased before && !meetsCased cs then 'ς' else 'σ'] else lowerChar c)
      ++ lowerAfter (c :: before) cs

def lower (t : Text) : Text := lowerAfter [] t

theorem lowerChar_ne_nil (c : Char) : lowerChar c ≠ [] := by
  unfold lowerChar
  split
  · exact List.cons_ne_nil _ _
  · split
    · exact List.cons_ne_nil _ _
    · split <;> exact List.cons_ne_nil _ _

@[simp] theorem lower_eq_nil {t : Text} : lower t = [] ↔ t = [] := by
  cases t with
  | nil => exact iff_of_true rfl rfl
  | cons c cs =>
    refine iff_of_false (fun h => ?_) (List.cons_ne_nil _ _)
    rw [lower, lowerAfter, List.append_eq_nil_iff] at h
    have hhead := h.1
    split at hhead
    · exact List.cons_ne_nil _ _ hhead
    · exact lowerChar_ne_nil c hhead

def asciiLower (t : Text) : Text := t.map Char.toLower

/-- Equality that ignores the case of `A` to `Z`. -/
def same (a b : Text) : Bool := asciiLower a == asciiLower b

/-- Whether the text begins with `head`, both lowercased. -/
def startsLike (head t : Text) : Bool := (lower head).isPrefixOf (lower t)

end GameScript.Text
