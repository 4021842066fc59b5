import GameScript.Proofs.Script.Printing
import GameScript.Proofs.Script.Spelling
import GameScript.Proofs.Script.Tolerance

/-!
# Canonical text is read back

Any text that lays out the tokens of canonical elements is read as these elements
(`parse_of_laysOut`), and so is the text that they are written as.
-/

namespace GameScript

open Text Lexer Element

/-- A layout of the tokens of shaped elements is read as the elements, strictly or not, when each
of the tokens stands. -/
theorem parse_of_stands {r : Rigour} {m : Text} {es : List Element} {t : Text} (hm : PlainMarker m)
    (hs : AllShaped es) (hd : bracesAll es ≤ Tree.maxDepth)
    (hstands : ∀ k ∈ spellAll es, Stands m k) (h : LaysOut MayTouch (spellAll es) t) :
    parse r m t = .ok es :=
  parse_eq_ok.2 (readFrom_spell hs hd (h.readsAs hm hstands {}))

/-- **A layout of the tokens of canonical elements is read as the elements**, strictly or not. -/
theorem parse_of_laysOut {r : Rigour} {es : List Element} {t : Text} (hc : AllCanonical es)
    (hd : depthAll es ≤ Tree.maxDepth) (h : LaysOut MayTouch (spellAll es) t) :
    parse r ['#'] t = .ok es :=
  parse_of_stands plainMarker_hash hc.shaped (Nat.le_trans (bracesAll_le_depthAll es) hd)
    (stands_of_mem_spellAll es hc) h

/-- **Round trip.** What canonical elements are written as is read as these elements, and what is
read is written the same again. -/
theorem parse_formatAll {es : List Element} (hc : AllCanonical es)
    (hd : depthAll es ≤ Tree.maxDepth) :
    parse .strict ['#'] (formatAll es) = .ok es ∧
      (parse .strict ['#'] (formatAll es)).map formatAll = .ok (formatAll es) := by
  have h : parse .strict ['#'] (formatAll es) = .ok es :=
    parse_of_laysOut hc hd (laysOut_formatAll hc)
  refine ⟨h, ?_⟩
  rw [h]
  rfl

def palette : List Element :=
  [.block "sky" "=" [.block "HSV" none [.leaf "0.6" none none, .leaf "1" none none]],
   .leaf "name" "?=" "\"a \x7b b\"",
   .block "when" none [.leaf "x[a b]" ">=" "-3", .block [] none [.block "k" "=" []]]]

theorem canonical_palette : AllCanonical palette := by
  decide +kernel

theorem parse_formatAll_palette :
    AllCanonical palette ∧ depthAll palette ≤ Tree.maxDepth ∧
      parse .strict ['#'] (formatAll palette) = .ok palette :=
  ⟨canonical_palette, by decide, (parse_formatAll canonical_palette (by decide)).1⟩

end GameScript
