import GameScript.Path
import GameScript.Proofs.Text.Case
import GameScript.Proofs.Text.Pieces
import Mathlib.Data.List.DropRight

/-!
# Normalized paths

Normalizing leaves a path with one separator, and none of it at the ends. So what is normalized
stays as it is (`normalize_normalize`), also in small letters (`normalize_lower_iff`): whether a
path is normalized or lowercased first is all the same (`lower_normalize`). Only at the end of a
directory a separator may be left, from one that is repeated in the path
(`normalize_directory_iff`). A path that is joined from names has them as its directory and name
(`directory_join`).
-/

namespace GameScript

open Text

namespace Text

variable {c old : Char} {new t : Text}

theorem trimChar_eq : trimChar c t = (t.dropWhile (· == c)).rdropWhile (· == c) := rfl

theorem trimChar_isPrefix : trimChar c t <+: t.dropWhile (· == c) :=
  List.rdropWhile_prefix (· == c) _

theorem trimChar_trimChar : trimChar c (trimChar c t) = trimChar c t := by
  have hfront : (trimChar c t).dropWhile (· == c) = trimChar c t := by
    rw [List.dropWhile_eq_self_iff]
    intro hpos
    -- trimming at the end leaves the first character
    have hlt : 0 < (t.dropWhile (· == c)).length :=
      Nat.lt_of_lt_of_le hpos trimChar_isPrefix.length_le
    rw [trimChar_isPrefix.getElem hpos]
    exact List.dropWhile_get_zero_not _ _ hlt
  rw [trimChar_eq, hfront, trimChar_eq, List.rdropWhile_idempotent]

theorem subset_trimChar : trimChar c t ⊆ t :=
  fun _ h => (List.dropWhile_sublist _).mem (trimChar_isPrefix.mem h)

theorem trimChar_eq_self_iff : trimChar c t = t ↔ t.head? ≠ some c ∧ t.getLast? ≠ some c := by
  have hfront : t.dropWhile (· == c) = t ↔ t.head? ≠ some c := by
    cases t with
    | nil => simp
    | cons d t => simp [List.dropWhile_eq_self_iff]
  have hback : t.rdropWhile (· == c) = t ↔ t.getLast? ≠ some c := by
    rw [List.rdropWhile_eq_self_iff]
    constructor
    · intro h hlast
      obtain ⟨ys, rfl⟩ := List.getLast?_eq_some_iff.1 hlast
      exact h (by simp) (by simp)
    · intro h hne hc
      exact h (by rw [List.getLast?_eq_some_getLast hne, eq_of_beq hc])
  rw [← hfront, ← hback]
  constructor
  · intro h
    have hlong : (t.dropWhile (· == c)).length = t.length := by
      have hle := (trimChar_isPrefix (c := c) (t := t)).length_le
      rw [h] at hle
      exact Nat.le_antisymm (List.dropWhile_sublist _).length_le hle
    have hdrop := (List.dropWhile_sublist (· == c)).eq_of_length hlong
    refine ⟨hdrop, ?_⟩
    rw [trimChar_eq, hdrop] at h
    exact h
  · rintro ⟨hdrop, hrdrop⟩
    rw [trimChar_eq, hdrop, hrdrop]

theorem replaceChar_of_not_mem (h : old ∉ t) : replaceChar old new t = t := by
  induction t with
  | nil => rfl
  | cons c t ih =>
    rw [List.mem_cons, not_or] at h
    rw [replaceChar, List.flatMap_cons, if_neg (Ne.symm h.1)]
    exact congrArg (c :: ·) (ih h.2)

theorem not_mem_replaceChar (h : old ∉ new) : old ∉ replaceChar old new t := by
  intro hmem
  obtain ⟨c, -, hc⟩ := List.mem_flatMap.1 hmem
  split at hc
  · exact h hc
  · next hne => exact hne (List.mem_singleton.1 hc).symm

theorem lower_join {ps : List Text} (hc : Divides c) :
    lower (join [c] ps) = join [c] (ps.map lower) := by
  induction ps with
  | nil => rfl
  | cons p ps ih =>
    cases ps with
    | nil => rfl
    | cons q ps =>
      have hjoin (r s : Text) (rs : List Text) :
          join [c] (r :: s :: rs) = r ++ c :: join [c] (s :: rs) := by
        rw [join_cons (List.cons_ne_nil _ _), List.append_assoc, List.singleton_append]
      rw [hjoin, hc.lower_append, ih, List.map_cons, List.map_cons, List.map_cons, hjoin]

theorem splitOn_lower (hc : Divides c) : splitOn c (lower t) = (splitOn c t).map lower := by
  conv_lhs => rw [← join_splitOn c t, lower_join hc]
  refine splitOn_join (by simp) fun p hp => ?_
  obtain ⟨q, hq, rfl⟩ := List.mem_map.1 hp
  rw [hc.mem_lower]
  exact not_mem_of_mem_splitOn hq

theorem replaceChar_eq_join (old new : Char) (t : Text) :
    replaceChar old [new] t = join [new] (splitOn old t) := by
  induction t with
  | nil => rfl
  | cons c t ih =>
    obtain ⟨p, ps, hp⟩ := exists_splitOn old t
    rw [hp] at ih
    rw [replaceChar, List.flatMap_cons, ← replaceChar, ih]
    by_cases hc : c = old
    · subst hc
      rw [if_pos rfl, splitOn_sep, hp, join_cons (List.cons_ne_nil _ _)]
      rfl
    · rw [if_neg hc, splitOn_cons hc hp]
      exact (join_append (w := [c])).symm

theorem lower_replaceChar {new : Char} (ho : Divides old) (hn : Divides new) :
    lower (replaceChar old [new] t) = replaceChar old [new] (lower t) := by
  rw [replaceChar_eq_join, replaceChar_eq_join, lower_join hn, splitOn_lower ho]

theorem lower_dropWhile (hc : Divides c) :
    lower (t.dropWhile (· == c)) = (lower t).dropWhile (· == c) := by
  induction t with
  | nil => rfl
  | cons d t ih =>
    by_cases hd : d = c
    · subst hd
      have hcons : lower (d :: t) = d :: lower t := hc.lower_append (t := [])
      rw [List.dropWhile_cons_of_pos (by simp), hcons,
        List.dropWhile_cons_of_pos (by simp), ih]
    · rw [List.dropWhile_cons_of_neg (by simpa using hd)]
      have hfirst : (lower (d :: t)).head? ≠ some c := by simpa [hc.head?_lower] using hd
      cases hl : lower (d :: t) with
      | nil => rfl
      | cons e u =>
        rw [hl] at hfirst
        rw [List.dropWhile_cons_of_neg (by simpa using hfirst)]

theorem lower_rdropWhile (hc : Divides c) :
    lower (t.rdropWhile (· == c)) = (lower t).rdropWhile (· == c) := by
  induction t using List.reverseRecOn with
  | nil => rfl
  | append_singleton t d ih =>
    by_cases hd : d = c
    · subst hd
      have hconcat : lower (t ++ [d]) = lower t ++ [d] := hc.lower_append (u := [])
      rw [List.rdropWhile_concat_pos _ _ _ (by simp), hconcat,
        List.rdropWhile_concat_pos _ _ _ (by simp), ih]
    · rw [List.rdropWhile_concat_neg _ _ _ (by simpa using hd)]
      have hlast : (lower (t ++ [d])).getLast? ≠ some c := by simpa [hc.getLast?_lower] using hd
      refine (List.rdropWhile_eq_self_iff.2 fun hne heq => hlast ?_).symm
      rw [List.getLast?_eq_some_getLast hne, eq_of_beq heq]

theorem lower_trimChar (hc : Divides c) : lower (trimChar c t) = trimChar c (lower t) := by
  rw [trimChar_eq, trimChar_eq, lower_rdropWhile hc, lower_dropWhile hc]

end Text

namespace Path

/-- The separator that is replaced is gone. -/
theorem backslash_not_mem_normalize (path : Text) : '\\' ∉ normalize path := by
  intro h
  have hslash : '\\' ∉ replaceChar '\\' ['/'] path := not_mem_replaceChar (by decide)
  exact hslash (subset_trimChar h)

@[simp]
theorem normalize_normalize (path : Text) : normalize (normalize path) = normalize path := by
  rw [normalize, replaceChar_of_not_mem (backslash_not_mem_normalize path)]
  exact trimChar_trimChar

theorem normalize_eq_self_iff {path : Text} : normalize path = path ↔
    '\\' ∉ path ∧ path.head? ≠ some '/' ∧ path.getLast? ≠ some '/' := by
  rw [← trimChar_eq_self_iff]
  constructor
  · intro h
    have hplain := backslash_not_mem_normalize path
    rw [h] at hplain
    rw [normalize, replaceChar_of_not_mem hplain] at h
    exact ⟨hplain, h⟩
  · rintro ⟨hplain, h⟩
    rw [normalize, replaceChar_of_not_mem hplain, h]

theorem lower_normalize (path : Text) : lower (normalize path) = normalize (lower path) := by
  rw [normalize, normalize, lower_trimChar divides_slash,
    lower_replaceChar divides_backslash divides_slash]

/-- Separators have no case. -/
theorem normalize_lower_iff {path : Text} :
    normalize (lower path) = lower path ↔ normalize path = path := by
  have hslash : Caseless '/' := caseless_of_ascii (by decide) (by decide) (by decide)
  have hback : Caseless '\\' := caseless_of_ascii (by decide) (by decide) (by decide)
  rw [normalize_eq_self_iff, normalize_eq_self_iff, hback.mem_lower, Ne, hslash.head?_lower, Ne,
    hslash.getLast?_lower]

theorem directory_isPrefix (path : Text) : directory path <+: normalize path := by
  have hprefix := join_dropLast_isPrefix ['/'] (segments path)
  rwa [segments, join_splitOn] at hprefix

theorem normalize_directory_iff {path : Text} :
    normalize (directory path) = directory path ↔ (directory path).getLast? ≠ some '/' := by
  have hstart := directory_isPrefix path
  obtain ⟨hback, hfirst, -⟩ := normalize_eq_self_iff.1 (normalize_normalize path)
  rw [normalize_eq_self_iff]
  refine ⟨fun h => h.2.2, fun h => ⟨fun hmem => hback (hstart.mem hmem), fun hhead => ?_, h⟩⟩
  obtain ⟨rest, hrest⟩ := hstart
  rw [← hrest, List.head?_append, hhead] at hfirst
  exact hfirst rfl

/-! ## Segments -/

structure IsSegment (p : Text) : Prop where
  ne_nil : p ≠ []
  slash : '/' ∉ p
  backslash : '\\' ∉ p

theorem normalize_join {ps : List Text} (hne : ps ≠ []) (h : ∀ p ∈ ps, IsSegment p) :
    normalize (join ['/'] ps) = join ['/'] ps := by
  rw [normalize_eq_self_iff]
  induction ps with
  | nil => exact absurd rfl hne
  | cons p ps ih =>
    have hp := h p List.mem_cons_self
    have hfirst : p.head? ≠ some '/' := fun heq => hp.slash (List.mem_of_head? heq)
    cases ps with
    | nil => exact ⟨hp.backslash, hfirst, fun heq => hp.slash (List.mem_of_getLast? heq)⟩
    | cons q qs =>
      obtain ⟨hback, -, hlast⟩ :=
        ih (List.cons_ne_nil _ _) fun r hr => h r (List.mem_cons_of_mem _ hr)
      have hrest : join ['/'] (q :: qs) ≠ [] := by
        have hq := (h q (by simp)).ne_nil
        cases qs <;> simp [join, hq]
      rw [join_cons (List.cons_ne_nil _ _), List.append_assoc]
      refine ⟨?_, ?_, ?_⟩
      · simp [hp.backslash, hback]
      · rwa [List.head?_append_of_ne_nil _ hp.ne_nil]
      · rwa [List.singleton_append, List.getLast?_append_cons, List.getLast?_cons_of_ne_nil hrest]

theorem directory_join {ps : List Text} (hne : ps ≠ []) (h : ∀ p ∈ ps, IsSegment p) :
    directory (join ['/'] ps) = join ['/'] ps.dropLast := by
  rw [directory, segments, normalize_join hne h, splitOn_join hne fun p hp => (h p hp).slash]

theorem segments_lower (path : Text) : segments (lower path) = (segments path).map lower := by
  rw [segments, ← lower_normalize, splitOn_lower divides_slash, segments]

theorem directory_lower (path : Text) : directory (lower path) = lower (directory path) := by
  rw [directory, directory, segments_lower, ← List.map_dropLast, lower_join divides_slash]

theorem backslash_not_mem_segment {path p : Text} (h : p ∈ segments path) : '\\' ∉ p := by
  intro hmem
  have hpath : '\\' ∈ normalize path := subset_of_mem_splitOn h hmem
  exact backslash_not_mem_normalize path hpath

theorem dropLast_segments (path : Text) :
    (segments path).dropLast ++ [fileName path] = segments path := by
  obtain ⟨names, name, hsegments⟩ : ∃ names name, segments path = names ++ [name] :=
    ⟨_, _, (List.dropLast_append_getLast splitOn_ne_nil).symm⟩
  rw [fileName, hsegments, List.dropLast_concat, List.getLastD_concat]

theorem fileName_lower (path : Text) : fileName (lower path) = lower (fileName path) := by
  have hsegments := segments_lower path
  rw [← dropLast_segments path, List.map_append, List.map_singleton] at hsegments
  rw [fileName, hsegments, List.getLastD_concat]

theorem isSegment_fileName {path : Text} (h : normalize path ≠ []) : IsSegment (fileName path) := by
  have hname : fileName path ∈ segments path :=
    dropLast_segments path ▸ List.mem_append_right _ List.mem_cons_self
  have hjoin : join ['/'] ((segments path).dropLast ++ [fileName path]) = normalize path := by
    rw [dropLast_segments, segments, join_splitOn]
  refine ⟨fun hnil => ?_, not_mem_of_mem_splitOn hname, backslash_not_mem_segment hname⟩
  rw [hnil] at hjoin
  by_cases hnames : (segments path).dropLast = []
  · rw [hnames] at hjoin
    exact h hjoin.symm
  · rw [join_append_join hnames (List.cons_ne_nil _ _), join, List.append_nil] at hjoin
    have hlast := (normalize_eq_self_iff.1 (normalize_normalize path)).2.2
    rw [← hjoin, List.getLast?_concat] at hlast
    exact hlast rfl

theorem isSegment_head {path p q : Text} {ps : List Text} (h : segments path = p :: q :: ps) :
    IsSegment p := by
  have hp : p ∈ segments path := by simp [h]
  refine ⟨?_, not_mem_of_mem_splitOn hp, backslash_not_mem_segment hp⟩
  rintro rfl
  have hjoin : normalize path = '/' :: join ['/'] (q :: ps) := by
    rw [← join_splitOn '/' (normalize path), ← segments, h, join_cons (List.cons_ne_nil _ _)]
    rfl
  have hfirst := (normalize_eq_self_iff.1 (normalize_normalize path)).2.1
  rw [hjoin] at hfirst
  exact hfirst rfl

end Path

end GameScript
