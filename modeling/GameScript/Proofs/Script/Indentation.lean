import GameScript.Proofs.Script.Condensing
import GameScript.Script.Layout

/-!
# Indentation

Two texts are `Shifted` if one becomes the other when the spaces at the beginnings of lines are
changed, and so are the texts of an element at two levels with two widths (`shifted_body`): the
layout writes its spaces right behind line feeds. Lines are trimmed when they are joined, so that
shifted texts have one single line (`Shifted.singleLine_eq`). Nothing is asked of the words of the
element, which may have blanks, line feeds and open quotes in them.
-/

namespace GameScript

open Text

/-! ## Texts with other spaces at the beginnings of lines -/

namespace Text

/-- Texts that are the same but for the number of spaces behind line feeds. -/
inductive Shifted : Text → Text → Prop where
  | nil : Shifted [] []
  | cons (c : Char) {t u : Text} : Shifted t u → Shifted (c :: t) (c :: u)
  | line (m n : Nat) {t u : Text} : Shifted t u →
      Shifted ('\n' :: (List.replicate m ' ' ++ t)) ('\n' :: (List.replicate n ' ' ++ u))

variable {t u v w p : Text} {ps qs : List Text}

theorem isSpacing_replicate (n : Nat) : ∀ c ∈ List.replicate n ' ', isSpacing c = true := by
  intro c hc
  rw [List.eq_of_mem_replicate hc]
  rfl

theorem trim_replicate (n : Nat) : trim (List.replicate n ' ' ++ t) = trim t := by
  induction n with
  | zero => rfl
  | succ n ih => rw [List.replicate_succ, List.cons_append, trim_cons_blank (by decide), ih]

theorem splitOn_replicate (n : Nat) (h : splitOn '\n' t = p :: ps) :
    splitOn '\n' (List.replicate n ' ' ++ t) = (List.replicate n ' ' ++ p) :: ps :=
  splitOn_append (fun hc => absurd (List.eq_of_mem_replicate hc) (by decide)) h

theorem marked_congr {q : Text} (hpq : trim p = trim q) (h : marked ps = marked qs) :
    marked (p :: ps) = marked (q :: qs) := by
  by_cases hp : trim p = []
  · rw [marked_cons_nil hp, marked_cons_nil (hpq ▸ hp), h]
  · rw [marked_cons hp, marked_cons (hpq ▸ hp), h, hpq]

namespace Shifted

theorem refl (t : Text) : Shifted t t := by
  induction t with
  | nil => exact .nil
  | cons c t ih => exact .cons c ih

theorem append (h : Shifted t u) (h' : Shifted v w) : Shifted (t ++ v) (u ++ w) := by
  induction h with
  | nil => exact h'
  | cons c _ ih => exact .cons c ih
  | line m n _ ih =>
    rw [List.cons_append, List.cons_append, List.append_assoc, List.append_assoc]
    exact .line m n ih

theorem append_left (t : Text) (h : Shifted u v) : Shifted (t ++ u) (t ++ v) := (refl t).append h

theorem withoutTabs (h : Shifted t u) : Shifted (withoutTabs t) (withoutTabs u) := by
  induction h with
  | nil => exact .nil
  | @cons c t u _ ih =>
    have hcons (x : Text) : GameScript.withoutTabs (c :: x) =
        GameScript.withoutTabs [c] ++ GameScript.withoutTabs x := withoutTabs_append (w := [c])
    rw [hcons t, hcons u]
    exact .append_left _ ih
  | @line m n t u _ ih =>
    have hline (k : Nat) (x : Text) : GameScript.withoutTabs ('\n' :: (List.replicate k ' ' ++ x)) =
        '\n' :: (List.replicate k ' ' ++ GameScript.withoutTabs x) := by
      have hk : '\t' ∉ '\n' :: List.replicate k ' ' := by simp
      rw [← List.cons_append, withoutTabs_append, withoutTabs_eq hk, List.cons_append]
    rw [hline, hline]
    exact .line m n ih

theorem splitOn_eq (h : Shifted t u) : ∃ p ps qs, splitOn '\n' t = p :: ps ∧
    splitOn '\n' u = p :: qs ∧ marked ps = marked qs := by
  induction h with
  | nil => exact ⟨[], [], [], rfl, rfl, rfl⟩
  | cons c _ ih =>
    obtain ⟨p, ps, qs, ht, hu, hmarked⟩ := ih
    by_cases hc : c = '\n'
    · subst hc
      exact ⟨[], p :: ps, p :: qs, by rw [splitOn_sep, ht], by rw [splitOn_sep, hu],
        marked_congr rfl hmarked⟩
    · exact ⟨c :: p, ps, qs, splitOn_cons hc ht, splitOn_cons hc hu, hmarked⟩
  | line m n _ ih =>
    obtain ⟨p, ps, qs, ht, hu, hmarked⟩ := ih
    have htrim : trim (List.replicate m ' ' ++ p) = trim (List.replicate n ' ' ++ p) := by
      rw [trim_replicate, trim_replicate]
    exact ⟨[], _, _, by rw [splitOn_sep, splitOn_replicate m ht],
      by rw [splitOn_sep, splitOn_replicate n hu], marked_congr htrim hmarked⟩

theorem singleLine_eq (h : Shifted t u) : singleLine t = singleLine u := by
  obtain ⟨p, ps, qs, ht, hu, hmarked⟩ := h.splitOn_eq
  rw [Text.singleLine_eq, Text.singleLine_eq, ht, hu, marked_congr rfl hmarked]

theorem singleLine_tidyCode (m n : Nat) (h : Shifted t u) :
    singleLine (Definition.tidyCode (List.replicate m ' ' ++ t)) =
      singleLine (Definition.tidyCode (List.replicate n ' ' ++ u)) := by
  have hspaces (k : Nat) (x : Text) :
      singleLine (Definition.tidyCode (List.replicate k ' ' ++ x)) =
        singleLine (GameScript.withoutTabs x) := by
    have hk : '\t' ∉ List.replicate k ' ' := by simp
    have hsplit : GameScript.withoutTabs (List.replicate k ' ' ++ x) =
        List.replicate k ' ' ++ GameScript.withoutTabs x := by
      rw [withoutTabs_append, withoutTabs_eq hk]
    rw [Text.singleLine_tidyCode]
    exact (congrArg singleLine hsplit).trans (singleLine_gap (isSpacing_replicate k))
  rw [hspaces, hspaces, h.withoutTabs.singleLine_eq]

end Shifted

end Text

/-! ## Elements at two levels -/

namespace Layout

variable (skip : Bool) (width width' : Nat)

mutual

theorem shifted_body (level level' : Nat) : (e : Element) →
    Shifted (body skip width level e) (body skip width' level' e)
  | .leaf key operator value => .refl _
  | .block key operator es => by
    rw [body, body]
    refine .append_left _ ?_
    cases isInline skip operator es with
    | true => exact .cons ' ' (shifted_onlyChild level level' es)
    | false =>
      have hlines := shifted_childLines (level + 1) (level' + 1) level level' es
      have hbraces := (hlines.append (.refl ['}'])).append_left
        (if key = [] ∧ operator = none then ['{'] else [' ', '{'])
      split at hbraces
      · next h => simpa [h] using hbraces
      · next h => simpa [h] using hbraces

/-- The lines of the children and the indentation behind them, after a line feed. -/
theorem shifted_childLines (level level' outer outer' : Nat) : (es : List Element) →
    Shifted ('\n' :: (childLines skip width level es ++ pad width outer))
      ('\n' :: (childLines skip width' level' es ++ pad width' outer'))
  | [] => by
    have hpads := Shifted.line (outer * width) (outer' * width') .nil
    rwa [List.append_nil, List.append_nil] at hpads
  | e :: es => by
    have hrest := shifted_childLines level level' outer outer' es
    cases hkeeps : keeps skip e with
    | false => simpa [childLines, hkeeps] using hrest
    | true =>
      have hline := (shifted_body level level' e).append hrest
      simpa [childLines, hkeeps, pad] using hline.line (level * width) (level' * width')

theorem shifted_onlyChild (level level' : Nat) : (es : List Element) →
    Shifted (onlyChild skip width level es) (onlyChild skip width' level' es)
  | [] => .nil
  | e :: es => by
    cases hkeeps : keeps skip e with
    | false => simpa [onlyChild, hkeeps] using shifted_onlyChild level level' es
    | true => simpa [onlyChild, hkeeps] using shifted_body level level' e

end

theorem exists_format (layout : Layout) (level width : Nat) (e : Element) : ∃ t u,
    format layout e = pad layout.width layout.level ++ t ∧
      format { layout with level, width } e = pad width level ++ u ∧ Shifted t u := by
  obtain ⟨level', width', skip, parent⟩ := layout
  cases parent with
  | none => exact ⟨_, _, rfl, rfl, shifted_body skip width' width level' level e⟩
  | some key =>
    have hclose := Shifted.line (level' * width') (level * width) (.refl ['}'])
    have hbody := (shifted_body skip width' width (level' + 1) (level + 1) e).append hclose
    have hline := hbody.line ((level' + 1) * width') ((level + 1) * width)
    refine ⟨_, _, ?_, ?_, hline.append_left (key ++ [' ', '=', ' ', '{'])⟩
    · simp [format, pad]
    · simp [format, pad]

/-- **Indentation changes no hash.** At whatever level and with whatever width an element is laid
out, the code has the same single line, and a definition the same hash with it. -/
theorem hash_indented (d : Definition) (layout : Layout) (level width : Nat) (e : Element) :
    (d.setCode (format { layout with level, width } e)).singleLine =
        (d.setCode (format layout e)).singleLine ∧
      (d.setCode (format { layout with level, width } e)).hash =
        (d.setCode (format layout e)).hash := by
  obtain ⟨t, u, ht, hu, hshifted⟩ := exists_format layout level width e
  have hline : singleLine (Definition.tidyCode (format { layout with level, width } e)) =
      singleLine (Definition.tidyCode (format layout e)) := by
    rw [ht, hu]
    exact (hshifted.singleLine_tidyCode _ _).symm
  exact ⟨hline, Definition.hash_setCode_congr (congrArg condense hline)⟩

end Layout

end GameScript
