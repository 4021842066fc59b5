import GameScript.Proofs.Script.Rereading

/-!
# What becomes of canonical text

When canonical text is read and written again, a blank is put in before the brace of every block
whose key leaves a bracket open, and the brace of an anonymous block goes up to the line before if
a leaf with such a key stands there; nothing else changes (`Redrawn`). So the text stays the same
just when there is neither (`parse_formatAll_again`).
-/

namespace GameScript

open Text Layout

namespace Element

variable {e : Element} {es cs : List Element} {k : Text}

/-! ## Texts -/

/-- `Redrawn j n t t'` says that `t'` is `t` with `n` blanks put in and with `j` braces taken up
from the beginning of a line to the end of the one before. -/
inductive Redrawn : Nat → Nat → Text → Text → Prop
  | same {t : Text} : Redrawn 0 0 t t
  | blank : Redrawn 0 1 [] [' ']
  | brace {indent : Text} : '\n' ∉ indent → Redrawn 1 0 ('\n' :: (indent ++ ['{'])) [' ', '{']
  | append {j j' n n' : Nat} {t t' u u' : Text} : Redrawn j n t t' → Redrawn j' n' u u' →
    Redrawn (j + j') (n + n') (t ++ u) (t' ++ u')

namespace Redrawn

variable {j n : Nat} {t t' : Text}

theorem count (h : Redrawn j n t t') : t.count '\n' = t'.count '\n' + j := by
  induction h with
  | same => rfl
  | blank => rfl
  | brace hindent => simp [List.count_eq_zero_of_not_mem hindent]
  | append _ _ ih ih' =>
    rw [List.count_append, List.count_append]
    omega

theorem length (h : Redrawn j n t t') (hj : j = 0) : t'.length = t.length + n := by
  induction h with
  | same => rfl
  | blank => rfl
  | brace _ => cases hj
  | append _ _ ih ih' =>
    rw [List.length_append, List.length_append]
    omega

theorem eq (h : Redrawn j n t t') (hj : j = 0) (hn : n = 0) : t' = t := by
  induction h with
  | same => rfl
  | blank => cases hn
  | brace _ => cases hj
  | append _ _ ih ih' => rw [ih (by omega) (by omega), ih' (by omega) (by omega)]

/-- The text stays the same only if nothing is put in or taken up. -/
theorem eq_iff (h : Redrawn j n t t') : t' = t ↔ j = 0 ∧ n = 0 := by
  constructor
  · rintro rfl
    have hj : j = 0 := by have := h.count; omega
    have hn := h.length hj
    exact ⟨hj, by omega⟩
  · exact fun ⟨hj, hn⟩ => h.eq hj hn

end Redrawn

mutual

/-- How many blocks in an element have a key that leaves a bracket open. -/
def opened : Element → Nat
  | leaf .. => 0
  | block k _ es => (if leavesOpen k then 1 else 0) + openedAll es

def openedAll : List Element → Nat
  | [] => 0
  | e :: es => opened e + openedAll es

end

mutual

/-- How many anonymous blocks in an element follow a leaf whose key leaves a bracket open. -/
def joined : Element → Nat
  | leaf .. => 0
  | block _ _ es => joinedAll es

def joinedAll : List Element → Nat
  | [] => 0
  | e :: es =>
    (joined e + joinedAll es) +
      if e.isLeaf && leavesOpen e.key && es.head?.any (·.isAnonymous) then 1 else 0

end

theorem Redrawn.braces {j n : Nat} {ls ls' : Text} (h : Redrawn j n ls ls') (a b : Text) :
    Redrawn j n (a ++ (ls ++ b)) (a ++ (ls' ++ b)) := by
  simpa using (Redrawn.same (t := a)).append (h.append (Redrawn.same (t := b)))

theorem redrawn_swallow {j n width level : Nat} (h : Redrawn j n
      (childLines false width (level + 1) es) (childLines false width (level + 1) cs)) (k : Text) :
    Redrawn j (n + 1)
      (k ++ [' ', '{', '\n'] ++ childLines false width (level + 1) es ++ pad width level ++ ['}'])
      (body false width level (block (k ++ [' ']) none cs)) := by
  have hblock := (Redrawn.same (t := k)).append
    (Redrawn.blank.append (h.braces [' ', '{', '\n'] (pad width level ++ ['}'])))
  simpa [body, headText, Nat.add_comm 1] using hblock

/-- The brace of an anonymous block goes up to the leaf before it. -/
theorem redrawn_attach {j j' n n' width level : Nat} {o v : Option Text} {cs' fs fs' : List Element}
    (hk : leavesOpen k = true)
    (hcs : Redrawn j n
      (childLines false width (level + 1) cs) (childLines false width (level + 1) cs'))
    (hfs : Redrawn j' n' (childLines false width level fs) (childLines false width level fs')) :
    Redrawn (j + j' + 1) (n + n')
      (childLines false width level (leaf k o v :: block [] none cs :: fs))
      (childLines false width level (block (leafText k o v) none cs' :: fs')) := by
  have hindent : '\n' ∉ pad width level := by simp [pad, List.mem_replicate]
  have hnext := (hcs.braces ['\n'] (pad width level ++ ['}', '\n'])).append hfs
  have hlines := (Redrawn.same (t := pad width level ++ leafText k o v)).append
    ((Redrawn.brace hindent).append hnext)
  simpa [childLines, body, keeps, headText, leafText_ne_nil hk, Nat.add_comm 1] using hlines

mutual

theorem redrawn_body (width level : Nat) : (e : Element) → Shaped e →
    Redrawn (joined e) (opened e) (body false width level e) (body false width level (reread e))
  | leaf k o v, _ => by
    cases hk : leavesOpen k with
    | false => rw [reread_leaf_closed hk]; exact .same
    | true => rw [reread_leaf_open hk]; exact .same
  | block k o es, hc => by
    have hlines := redrawn_childLines width (level + 1) es hc.2
    cases hin : isInline false o es with
    | true =>
      obtain ⟨op, kw, cs, rfl, rfl, hkw⟩ := of_isInline hin
      have hlines := redrawn_childLines width (level + 1) cs hc.2.1.2
      have hin' : isInline false (some op) [block kw none (rereadAll cs)] = true := hkw
      have hclosed := leavesOpen_of_isInlineKeyword hkw
      have hkw' : kw ≠ [] := by rintro rfl; cases hkw
      cases hk : leavesOpen k with
      | false =>
        have hblock := hlines.braces (headText k (some op) ++ ' ' :: (kw ++ [' ', '{', '\n']))
          (pad width level ++ ['}'])
        rw [reread_block_closed hk, rereadAll_inline hkw]
        simpa [body, hin, hin', onlyChild, keeps, headText, joined, joinedAll, opened, openedAll,
          isLeaf, hk, hclosed, hkw'] using hblock
      | true =>
        have hblock := redrawn_swallow hlines (headText k (some op) ++ ' ' :: kw)
        rw [reread_block_open hk, rereadAll_inline hkw, swallow_inline hkw]
        simpa [body, hin, onlyChild, keeps, headText, joined, joinedAll, opened, openedAll, isLeaf,
          hk, hclosed, hkw', Nat.add_comm 1] using hblock
    | false =>
      have hin' : isInline false o (rereadAll es) = false := isInline_rereadAll.trans hin
      cases hk : leavesOpen k with
      | false =>
        have hblock := hlines.braces (headText k o ++
          if k = [] ∧ o = none then ['{', '\n'] else [' ', '{', '\n']) (pad width level ++ ['}'])
        rw [reread_block_closed hk]
        simpa [body, hin, hin', joined, opened, hk] using hblock
      | true =>
        have hblock := redrawn_swallow hlines (headText k o)
        rw [reread_block_open hk, swallow_of_not_inline hin']
        simpa [body, hin, joined, opened, hk, ne_nil_of_leavesOpen hk, Nat.add_comm 1] using hblock

theorem redrawn_childLines (width level : Nat) : (es : List Element) → AllShaped es →
    Redrawn (joinedAll es) (openedAll es) (childLines false width level es)
      (childLines false width level (rereadAll es))
  | [], _ => .same
  | e :: es, hc => by
    have he := redrawn_body width level e hc.1
    have hes := redrawn_childLines width level es hc.2.2
    have hline : Redrawn (joined e + joinedAll es) (opened e + openedAll es)
        (childLines false width level (e :: es))
        (childLines false width level (reread e :: rereadAll es)) := by
      have hnext := he.append ((Redrawn.same (t := ['\n'])).append hes)
      simpa [childLines, keeps] using (Redrawn.same (t := pad width level)).append hnext
    cases e with
    | block k o cs => simpa [rereadAll_block, joinedAll, openedAll, isLeaf] using hline
    | leaf k o v =>
      cases hk : leavesOpen k with
      | false =>
        rw [reread_leaf_closed hk] at hline
        simpa [rereadAll_leaf_closed hk, joinedAll, openedAll, Element.key, hk] using hline
      | true =>
        rw [rereadAll_leaf_open hk]
        cases hanon : es.head?.any (·.isAnonymous) with
        | false =>
          rw [reread_leaf_open hk] at hline
          rw [attach_of_not_anonymous]
          · simpa [joinedAll, openedAll, hanon] using hline
          · intro f hf
            refine Bool.eq_false_iff.2 fun h => ?_
            obtain ⟨g, hg, h⟩ := isAnonymous_head_rereadAll hf h
            rw [Option.mem_def.1 hg, Option.any_some, h] at hanon
            cases hanon
        | true =>
          obtain ⟨cs, fs, rfl⟩ : ∃ cs fs, es = block [] none cs :: fs := by
            cases es with
            | nil => cases hanon
            | cons f fs =>
              obtain ⟨cs, rfl⟩ := exists_of_isAnonymous hc.2.2.1 hanon
              exact ⟨cs, fs, rfl⟩
          have hcs := redrawn_childLines width (level + 1) cs hc.2.2.1.2
          have hfs := redrawn_childLines width level fs hc.2.2.2.2
          have hlines := redrawn_attach (o := o) (v := v) hk hcs hfs
          have hnil : leavesOpen [] = false := rfl
          rw [rereadAll_block, reread_block_closed hnil, attach_anonymous]
          simpa [joinedAll, joined, openedAll, opened, isLeaf, Element.key, isAnonymous, hk, hnil]
            using hlines

end

/-- A script is the lines of its elements, without the last line end. -/
theorem formatAll_append (hne : es ≠ []) : formatAll es ++ ['\n'] = childLines false 4 0 es := by
  induction es with
  | nil => exact absurd rfl hne
  | cons e es ih =>
    cases es with
    | nil => simp [formatAll, unlines, join, format_eq_body, childLines, keeps, pad]
    | cons f es =>
      have hrest := ih (List.cons_ne_nil _ _)
      simp only [formatAll, unlines, List.map_cons, join] at hrest ⊢
      rw [childLines, ← hrest]
      simp [format_eq_body, keeps, pad]

theorem formatAll_rereadAll_iff (hc : AllShaped es) :
    formatAll (rereadAll es) = formatAll es ↔ joinedAll es = 0 ∧ openedAll es = 0 := by
  by_cases hnil : es = []
  · subst hnil
    exact iff_of_true rfl ⟨rfl, rfl⟩
  · have hnil' : rereadAll es ≠ [] := fun h => hnil (rereadAll_eq_nil.1 h)
    rw [← (redrawn_childLines 4 0 es hc).eq_iff, ← formatAll_append hnil, ← formatAll_append hnil',
      List.append_left_inj]

end Element

open Element

/-- **Canonical text is read again, but it is not always stable.** What is written of a script that
was read strictly is read strictly again. The same text is written of what is then read just when
no block has a key that leaves a bracket open and no anonymous block follows a leaf with such a
key. -/
theorem parse_formatAll_again {source : Text} {es : List Element}
    (h : parse .strict ['#'] source = .ok es) :
    parse .strict ['#'] (formatAll es) = .ok (rereadAll es) ∧
      (formatAll (rereadAll es) = formatAll es ↔ joinedAll es = 0 ∧ openedAll es = 0) := by
  obtain ⟨hshaped, hwords, hoperators, hbraces⟩ := of_parse_strict h
  refine ⟨parse_eq_ok.2 ?_, formatAll_rereadAll_iff hshaped⟩
  refine readFrom_spell (allShaped_rereadAll es hshaped)
    (Nat.le_trans (bracesAll_rereadAll es) hbraces) ?_
  exact readsAs_formatAll hshaped (fun w hw => cutsOff_word_of_mem_kinds (hwords w hw))
    (fun o ho => isOperator_of_mem_kinds (hoperators o ho)) {}

theorem parse_formatAll_again_brokenLine :
    ∃ es, parse .strict ['#'] "[a\n= b" = .ok es ∧
      parse .strict ['#'] (formatAll es) = .ok [.leaf "[a = b" none none] ∧
      formatAll [.leaf "[a = b" none none] = formatAll es := by
  have hok : (parse .strict ['#'] "[a\n= b").toOption = some [.leaf "[a" "=" "b"] := by
    decide +kernel
  have hreread : rereadAll [.leaf "[a" "=" "b"] = [.leaf "[a = b" none none] := by decide +kernel
  have hparse := eq_ok_of_toOption hok
  have hagain := parse_formatAll_again hparse
  rw [hreread] at hagain
  exact ⟨_, hparse, hagain.1, hagain.2.2 (by decide +kernel)⟩

/-- A key that leaves a bracket open takes in one blank more each time. -/
theorem formatAll_drifts :
    ∃ es fs, parse .strict ['#'] "[a\x7b\x7d" = .ok es ∧
      parse .strict ['#'] (formatAll es) = .ok fs ∧
      formatAll es = "[a \x7b\n\x7d" ∧ formatAll fs = "[a  \x7b\n\x7d" := by
  have hfirst : (parse .strict ['#'] "[a\x7b\x7d").toOption = some [.block "[a" none []] := by
    decide +kernel
  have hsecond : (parse .strict ['#'] (formatAll [.block "[a" none []])).toOption =
      some [.block "[a " none []] := by decide +kernel
  refine ⟨_, _, eq_ok_of_toOption hfirst, eq_ok_of_toOption hsecond, ?_, ?_⟩
  · decide +kernel
  · decide +kernel

end GameScript
