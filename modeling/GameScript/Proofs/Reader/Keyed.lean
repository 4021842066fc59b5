import GameScript.Proofs.Script.Written
import GameScript.Reader.Basic

/-!
# Scripts that name objects by generic keys

Whether objects are named by a generic key is scanned off the tokens of a script, with a count of
braces. What stands two braces deep is passed over (`hasGenericLeaf_deep`), and behind the first
brace the scan looks for a leaf that no brace follows (`hasGenericLeaf_body`). So it tells what
stands in the outermost braces of a script as it is written (`namesByGenericKey_iff`). The blocks of
the tree tell the same, unless an inline value was written for one, where the scan takes what is
inside of the value for what is inside of the block; or unless a nameless block follows the name,
where the scan takes the name for the head of a block (`namesByGenericKey_not`).
-/

namespace GameScript

open Text Written

/-- Whether siblings name the block around them: a leaf among them has a generic key and a value
that is not blank, and no nameless block follows it. -/
def namesBlock : List Element → Bool
  | [] => false
  | e :: es => (e.genericValue.isSome && !es.head?.any (·.isAnonymous)) || namesBlock es

/-! ## The scan -/

variable {d : Nat} {w : Written} {ws : List Written} {ks rest : List TokenKind}

/-- Words and operators count behind the first brace alone. -/
theorem hasGenericLeaf_marks (hd : d ≠ 1) (hks : ∀ k ∈ ks, k.isMark = true) :
    hasGenericLeaf d (ks ++ rest) = hasGenericLeaf d rest := by
  induction ks with
  | nil => rfl
  | cons k ks ih =>
    rw [List.forall_mem_cons] at hks
    rw [List.cons_append, ← ih hks.2]
    cases k with
    | word w =>
      rw [hasGenericLeaf, beq_eq_false_iff_ne.2 hd, Bool.false_and, Bool.false_and, Bool.false_or]
    | operator op => rfl
    | openBrace | closeBrace | comment body | endOfInput | illegal cause => cases hks.1

mutual

/-- What stands behind a second brace is passed over. -/
theorem hasGenericLeaf_spell (d : Nat) (rest : List TokenKind) : (w : Written) →
    hasGenericLeaf (d + 2) (w.spell ++ rest) = hasGenericLeaf (d + 2) rest
  | .leaf k given =>
    hasGenericLeaf_marks (Nat.succ_succ_ne_one d) (Written.isMark_of_mem_leaf k given)
  | .block front ws => by
    rw [Written.spell, List.append_assoc,
      hasGenericLeaf_marks (Nat.succ_succ_ne_one d) front.isMark_of_mem_spell, List.cons_append,
      hasGenericLeaf, List.append_assoc, hasGenericLeaf_deep (d + 1) _ ws, List.singleton_append,
      hasGenericLeaf]
    rfl

theorem hasGenericLeaf_deep (d : Nat) (rest : List TokenKind) : (ws : List Written) →
    hasGenericLeaf (d + 2) (spellAll ws ++ rest) = hasGenericLeaf (d + 2) rest
  | [] => rfl
  | w :: ws => by
    rw [spellAll, List.append_assoc, hasGenericLeaf_spell d _ w, hasGenericLeaf_deep d rest ws]

end

/-- What stands in front of a brace behind the first one gives no value. -/
theorem hasGenericLeaf_front (front : Front) :
    hasGenericLeaf 1 (front.spell ++ .openBrace :: rest) = hasGenericLeaf 2 rest := by
  cases front <;> simp [Front.spell, hasGenericLeaf, givesValue]

theorem isSome_genericValue_leaf {key op v : Text} :
    (Element.leaf key (some op) (some v)).genericValue.isSome =
      (isGenericKey key && !isBlank (unquote v)) := by
  rw [Element.genericValue, Element.isLeaf, Bool.true_and, Element.key]
  cases isGenericKey key with
  | false => rfl
  | true =>
    rw [if_pos rfl, Element.unquotedValue, Element.value, Option.map_some, Option.filter_some]
    cases isBlank (unquote v) <;> rfl

/-- A leaf gives a value when it has one that is not blank and no brace follows. -/
theorem hasGenericLeaf_leaf {key : Text} {given : Option (Text × Text)}
    (hrest : ∀ op, rest.head? ≠ some (.operator op)) :
    hasGenericLeaf 1 ((Written.leaf key given).spell ++ rest) =
      (((Written.leaf key given).element.genericValue.isSome && rest.head? != some .openBrace) ||
        hasGenericLeaf 1 rest) := by
  -- no word in front of the rest is a key
  have hword (w : Text) : hasGenericLeaf 1 (.word w :: rest) = hasGenericLeaf 1 rest := by
    have hnone : givesValue rest = false := by
      unfold givesValue
      split
      · exact absurd rfl (hrest _)
      · rfl
    rw [hasGenericLeaf, hnone, Bool.and_false, Bool.false_or]
  cases given with
  | none =>
    have hvalue : (Written.leaf key none).element.genericValue = none := ite_self _
    rw [Written.spell, List.singleton_append, hword, hvalue]
    rfl
  | some g =>
    obtain ⟨op, v⟩ := g
    have hvalue : (Written.leaf key (some (op, v))).element.genericValue.isSome =
        (isGenericKey key && !isBlank (unquote v)) := isSome_genericValue_leaf
    have hoperator : hasGenericLeaf 1 (.operator op :: .word v :: rest) =
        hasGenericLeaf 1 (.word v :: rest) := rfl
    rw [hvalue, Written.spell, List.cons_append, List.cons_append, List.singleton_append,
      hasGenericLeaf, hoperator, hword, givesValue, Bool.and_comm (rest.head? != _)]
    cases isGenericKey key <;> rfl

/-- A nameless block begins with its brace, and every other element with its key. -/
theorem head?_spell (hw : .word [] ∉ w.spell) :
    (w.spell ++ rest).head? = some .openBrace ∧ w.element.isAnonymous = true ∨
      ∃ k, (w.spell ++ rest).head? = some (.word k) ∧ w.element.isAnonymous = false := by
  cases w with
  | leaf k given => cases given <;> exact .inr ⟨k, rfl, rfl⟩
  | block front ws =>
    cases front with
    | nothing => exact .inl ⟨rfl, rfl⟩
    | key k | operator k op | keyword k op kw _ =>
      have hk : k ≠ [] := by
        rintro rfl
        exact hw List.mem_cons_self
      refine .inr ⟨k, rfl, ?_⟩
      simp [Written.element, Element.isAnonymous, Front.head, Tree.Head.block, Element.key, hk]

/-- What stands in the braces of a block begins with no operator, and with a brace just when a
nameless block comes first. -/
theorem head?_body (rest : List TokenKind) (hws : .word [] ∉ spellAll ws) :
    (∀ op, (spellAll ws ++ .closeBrace :: rest).head? ≠ some (.operator op)) ∧
      ((spellAll ws ++ .closeBrace :: rest).head? = some .openBrace ↔
        (elements ws).head?.any (·.isAnonymous) = true) := by
  cases ws with
  | nil => simp [spellAll, elements]
  | cons w ws =>
    rw [spellAll, List.mem_append, not_or] at hws
    rw [spellAll, List.append_assoc, elements, List.head?_cons, Option.any_some]
    rcases head?_spell hws.1 with ⟨hhead, hanon⟩ | ⟨k, hhead, hanon⟩
    · rw [hhead, hanon]
      exact ⟨by simp, iff_of_true rfl rfl⟩
    · rw [hhead, hanon]
      exact ⟨by simp, by simp⟩

/-- **Behind the first brace** the scan tells whether siblings name the block around them. -/
theorem hasGenericLeaf_body (hws : .word [] ∉ spellAll ws) :
    hasGenericLeaf 1 (spellAll ws ++ .closeBrace :: rest) =
      (namesBlock (elements ws) || hasGenericLeaf 0 rest) := by
  induction ws with
  | nil => rfl
  | cons w ws ih =>
    rw [spellAll, List.mem_append, not_or] at hws
    obtain ⟨hoperator, hbrace⟩ := head?_body rest hws.2
    rw [spellAll, List.append_assoc, elements, namesBlock, Bool.or_assoc, ← ih hws.2]
    cases w with
    | leaf key given =>
      have hanon : ((spellAll ws ++ .closeBrace :: rest).head? == some .openBrace) =
          (elements ws).head?.any (·.isAnonymous) :=
        Bool.eq_iff_iff.2 (beq_iff_eq.trans hbrace)
      rw [hasGenericLeaf_leaf hoperator, bne, hanon]
    | block front body =>
      have hvalue : (Written.block front body).element.genericValue = none := by
        cases front <;> rfl
      rw [Written.spell, List.append_assoc, List.cons_append, hasGenericLeaf_front,
        List.append_assoc, hasGenericLeaf_deep 0, hvalue]
      rfl

/-- The scan of a whole script. -/
theorem hasGenericLeaf_spellAll (hws : .word [] ∉ spellAll ws) :
    hasGenericLeaf 0 (spellAll ws ++ [.endOfInput]) =
      ws.any fun w => namesBlock (elements w.body) := by
  induction ws with
  | nil => rfl
  | cons w ws ih =>
    rw [spellAll, List.mem_append, not_or] at hws
    rw [spellAll, List.append_assoc, List.any_cons, ← ih hws.2]
    cases w with
    | leaf key given =>
      exact hasGenericLeaf_marks Nat.zero_ne_one (Written.isMark_of_mem_leaf key given)
    | block front body =>
      have hbody : .word [] ∉ spellAll body := fun h => hws.1 (by simp [Written.spell, h])
      rw [Written.spell, List.append_assoc,
        hasGenericLeaf_marks Nat.zero_ne_one front.isMark_of_mem_spell, List.cons_append,
        hasGenericLeaf, List.append_assoc, List.singleton_append, hasGenericLeaf_body hbody]
      rfl

/-! ## What is claimed by content -/

/-- A block that is no inline value has in the tree what stands in its braces. -/
theorem children_element
    (hinline : Layout.isInline false w.element.operator w.element.children = false) :
    w.element.children = elements w.body := by
  cases w with
  | leaf k given => rfl
  | block front body =>
    cases front with
    | nothing | key k | operator k op => rfl
    | keyword k op kw hkw =>
      have hkeyword : Element.isInlineKeyword kw = false := hinline
      exact absurd (hkw.symm.trans hkeyword) Bool.noConfusion

theorem namesBlock_eq_any {es : List Element}
    (h : ∀ e f, [e, f] <:+: es → e.genericValue.isSome = true → f.isAnonymous = false) :
    namesBlock es = es.any (·.genericValue.isSome) := by
  induction es with
  | nil => rfl
  | cons e es ih =>
    have hrest := ih fun c d hcd => h c d (hcd.trans (List.suffix_cons e es).isInfix)
    rw [namesBlock, List.any_cons, hrest]
    cases hvalue : e.genericValue.isSome with
    | false => rfl
    | true =>
      cases es with
      | nil => rfl
      | cons f es =>
        have hanon : f.isAnonymous = false := h e f ⟨[], es, rfl⟩ hvalue
        rw [List.head?_cons, Option.any_some, hanon]
        rfl

/-- **Selection by content.** The objects of a script that is read strictly are named by a generic
key when, as the script is written, the outermost braces hold a leaf that has one, with a value that
is not blank and no nameless block behind it. The tree tells the same when it has no block with an
inline value at the top, and in none a nameless block behind such a leaf. -/
theorem namesByGenericKey_iff {lines : List Text} {es : List Element}
    (h : parse .strict ['#'] (unlines lines) = .ok es) :
    (∃ ws, elements ws = es ∧
      plainKinds ['#'] (unlines lines) = spellAll ws ++ [.endOfInput] ∧
      (namesByGenericKey lines = true ↔ ∃ w ∈ ws, namesBlock (elements w.body) = true)) ∧
    ((∀ e ∈ es, Layout.isInline false e.operator e.children = false) →
      (∀ e ∈ es, ∀ c d, [c, d] <:+: e.children → c.genericValue.isSome = true →
        d.isAnonymous = false) →
      (namesByGenericKey lines = true ↔
        ∃ e ∈ es, ∃ c ∈ e.children, c.genericValue.isSome = true)) := by
  obtain ⟨ws, rfl, hkinds⟩ := exists_written h
  have hnil : .word [] ∉ spellAll ws := by
    intro hmem
    have hplain : .word [] ∈ plainKinds ['#'] (unlines lines) :=
      hkinds ▸ List.mem_append_left _ hmem
    exact ne_nil_of_mem_kinds (.inl (List.mem_filter.1 hplain).1) rfl
  have hscan : namesByGenericKey lines = true ↔ ∃ w ∈ ws, namesBlock (elements w.body) = true := by
    rw [← List.any_eq_true, ← hasGenericLeaf_spellAll hnil, ← hkinds]
    rfl
  refine ⟨⟨ws, rfl, hkinds, hscan⟩, fun hinline hbrace => hscan.trans ⟨?_, ?_⟩⟩
  · rintro ⟨w, hw, hnames⟩
    have he : w.element ∈ elements ws := mem_elements.2 ⟨w, hw, rfl⟩
    rw [← children_element (hinline _ he), namesBlock_eq_any (hbrace _ he),
      List.any_eq_true] at hnames
    exact ⟨w.element, he, hnames⟩
  · rintro ⟨e, he, hnames⟩
    obtain ⟨w, hw, rfl⟩ := mem_elements.1 he
    rw [← List.any_eq_true, ← namesBlock_eq_any (hbrace _ he),
      children_element (hinline _ he)] at hnames
    exact ⟨w, hw, hnames⟩

def namedShip : List Text :=
  ["# ships", "scout = \x7b", "\tcolor = hsv \x7b 0.6 1 1 \x7d", "\tNAME = \"Aurora\"", "\x7d"]

def namedShipElements : List Element :=
  [.block "scout" "=" [.block "color" "=" [.block "hsv" none
    [.leaf "0.6" none none, .leaf "1" none none, .leaf "1" none none]],
    .leaf "NAME" "=" "\"Aurora\""]]

theorem namesByGenericKey_namedShip :
    parse .strict ['#'] (unlines namedShip) = .ok namedShipElements ∧
      namesByGenericKey namedShip = true := by
  have h : parse .strict ['#'] (unlines namedShip) = .ok namedShipElements :=
    eq_ok_of_toOption (by decide +kernel)
  have hnamed : ∀ e ∈ namedShipElements, ∀ d ∈ e.children, d.isAnonymous = false := by decide
  refine ⟨h, ((namesByGenericKey_iff h).2 (by decide) fun e he c d hcd _ => ?_).2 (by decide)⟩
  exact hnamed e he d (hcd.subset (by simp))

/-- In the first script the name belongs to an inline value, and the tree has it one level deeper;
in the second a nameless block follows the name, and the scan takes it for a head. -/
theorem namesByGenericKey_not :
    (∃ (lines : List Text) (es : List Element), parse .strict ['#'] (unlines lines) = .ok es ∧
      namesByGenericKey lines = true ∧
        ¬ ∃ e ∈ es, ∃ c ∈ e.children, c.genericValue.isSome = true) ∧
    ∃ (lines : List Text) (es : List Element), parse .strict ['#'] (unlines lines) = .ok es ∧
      namesByGenericKey lines = false ∧ ∃ e ∈ es, ∃ c ∈ e.children, c.genericValue.isSome = true :=
  ⟨⟨["color = hsv \x7b name = x \x7d"],
      [.block "color" "=" [.block "hsv" none [.leaf "name" "=" "x"]]],
      eq_ok_of_toOption (by decide +kernel), by decide +kernel, by decide⟩,
    ["a = \x7b name = x \x7b b \x7d \x7d"],
    [.block "a" "=" [.leaf "name" "=" "x", .block [] none [.leaf "b" none none]]],
    eq_ok_of_toOption (by decide +kernel), by decide +kernel, by decide⟩

end GameScript
