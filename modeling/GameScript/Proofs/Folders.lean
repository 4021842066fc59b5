import GameScript.Proofs.Path

/-!
# Folders

A path lies within a folder when the segments of the folder are the first ones of the path, letter
case aside (`isWithin_iff`): a text followed by a separator is the front of another one just when
its pieces are the first of the other's (`splitOn_isPrefix_iff`). So folders lie within each other
as lists do, and a name that only begins with the name of a folder is not within it. Separators and
case can be mixed at will (`isWithin_respelled`).
-/

namespace GameScript

open Text

namespace Text

variable {sep d : Char} {t u : Text}

/-- The pieces of a text are the first of another one's just when the other goes on with a
separator, if it goes on. -/
theorem splitOn_isPrefix_iff : splitOn sep t <+: splitOn sep u ↔ t = u ∨ t ++ [sep] <+: u := by
  constructor
  · rintro ⟨ps, hps⟩
    have hu : join [sep] (splitOn sep t ++ ps) = u := by rw [hps, join_splitOn]
    by_cases hnil : ps = []
    · rw [hnil, List.append_nil, join_splitOn] at hu
      exact .inl hu
    · rw [join_append_join splitOn_ne_nil hnil, join_splitOn] at hu
      exact .inr ⟨_, hu⟩
  · rintro (rfl | ⟨r, rfl⟩)
    · exact List.prefix_refl _
    · rw [List.append_assoc, List.singleton_append, splitOn_append_cons]
      exact List.prefix_append _ _

theorem goesOn_iff : t = t ++ d :: u ∨ t ++ [sep] <+: t ++ d :: u ↔ d = sep := by
  have hlonger : t ≠ t ++ d :: u := by simp
  rw [or_iff_right hlonger, List.prefix_append_right_inj, List.cons_prefix_cons,
    and_iff_left List.nil_prefix, eq_comm]

end Text

namespace Path

variable {folder folder' path path' rest : Text} {d : Char}

/-- What is compared begins with the folder, and ends there or goes on with a separator. -/
theorem isWithin_iff_isPrefix : isWithin folder path = true ↔ normalize folder = [] ∨
    lower (normalize folder) = lower (normalize path) ∨
      lower (normalize folder) ++ ['/'] <+: lower (normalize path) := by
  rw [isWithin, Bool.or_eq_true, beq_iff_eq, lower_eq_nil]
  refine or_congr_right ?_
  generalize lower (normalize folder) = f, lower (normalize path) = p
  cases hstrip : stripStart? f p with
  | none =>
    -- the folder would be in front of what it is, or of what it begins
    have hnone : ¬ f <+: p := fun hprefix => by
      obtain ⟨r, hr⟩ := hprefix
      rw [stripStart?, List.isPrefixOf?_eq_some_iff_append_eq.2 hr] at hstrip
      cases hstrip
    refine iff_of_false Bool.false_ne_true ?_
    rintro (rfl | hprefix)
    · exact hnone (List.prefix_refl f)
    · exact hnone ((List.prefix_append f ['/']).trans hprefix)
  | some r =>
    obtain rfl : f ++ r = p := List.isPrefixOf?_eq_some_iff_append_eq.1 hstrip
    cases r with
    | nil => simp
    | cons d r =>
      rw [goesOn_iff]
      simp

/-- **A folder holds the paths that begin with its segments.** -/
theorem isWithin_iff : isWithin folder path = true ↔ normalize folder = [] ∨
    splitOn '/' (lower (normalize folder)) <+: splitOn '/' (lower (normalize path)) := by
  rw [isWithin_iff_isPrefix, splitOn_isPrefix_iff]

theorem isWithin_refl (path : Text) : isWithin path path = true :=
  isWithin_iff.2 (.inr (List.prefix_refl _))

/-- Nothing but the empty folder holds the empty path. -/
theorem normalize_eq_nil_of_isWithin (h : isWithin folder path = true)
    (hpath : normalize path = []) : normalize folder = [] := by
  rcases isWithin_iff_isPrefix.1 h with hnil | heq | hprefix
  · exact hnil
  · rwa [hpath, lower_eq_nil.2 rfl, lower_eq_nil] at heq
  · rw [hpath, lower_eq_nil.2 rfl, List.prefix_nil] at hprefix
    exact absurd hprefix (List.append_ne_nil_of_right_ne_nil _ (List.cons_ne_nil _ _))

theorem isWithin_trans {a b c : Text} (hab : isWithin a b = true) (hbc : isWithin b c = true) :
    isWithin a c = true := by
  rcases isWithin_iff.1 hbc with hb | hbc
  · exact isWithin_iff.2 (.inl (normalize_eq_nil_of_isWithin hab hb))
  · exact isWithin_iff.2 ((isWithin_iff.1 hab).imp_right fun hab => hab.trans hbc)

/-- Where a path goes on behind a folder, it is within the folder if it goes on with a separator. -/
theorem isWithin_append_iff (hfolder : normalize folder ≠ [])
    (hpath : lower (normalize path) = lower (normalize folder) ++ d :: rest) :
    isWithin folder path = true ↔ d = '/' := by
  rw [isWithin_iff_isPrefix, or_iff_right hfolder, hpath, goesOn_iff]

/-- Paths that differ in letter case, and in which of the two separators they are written with. -/
def IsRespelled (path path' : Text) : Prop :=
  replaceChar '\\' ['/'] (lower path) = replaceChar '\\' ['/'] (lower path')

theorem IsRespelled.lower_normalize_eq (h : IsRespelled path path') :
    lower (normalize path) = lower (normalize path') := by
  rw [lower_normalize, lower_normalize, normalize, normalize, h]

theorem isWithin_respelled (hfolder : IsRespelled folder folder') (hpath : IsRespelled path path') :
    isWithin folder path = isWithin folder' path' := by
  rw [isWithin, isWithin, hfolder.lower_normalize_eq, hpath.lower_normalize_eq]

/-- **Folders hold paths segment by segment**: those that begin with the segments of the folder in
small letters, and all of them if it has none. So every path is within itself, what is within a
folder is within all that the folder is within, and nothing is within a folder that has the folder
end inside a segment. Separators and letter case make no difference. -/
theorem isWithin_segmentwise :
    (∀ folder path, isWithin folder path = true ↔ normalize folder = [] ∨
        splitOn '/' (lower (normalize folder)) <+: splitOn '/' (lower (normalize path))) ∧
      (∀ path, isWithin path path = true) ∧
      (∀ a b c, isWithin a b = true → isWithin b c = true → isWithin a c = true) ∧
      (∀ folder path d rest, normalize folder ≠ [] →
        lower (normalize path) = lower (normalize folder) ++ d :: rest →
        (isWithin folder path = true ↔ d = '/')) ∧
      ∀ folder folder' path path', IsRespelled folder folder' → IsRespelled path path' →
        isWithin folder path = isWithin folder' path' :=
  ⟨fun _ _ => isWithin_iff, isWithin_refl, fun _ _ _ => isWithin_trans,
    fun _ _ _ _ => isWithin_append_iff, fun _ _ _ _ => isWithin_respelled⟩

/-- A folder with the other separator, below another folder and above a path that repeats a
separator; and a folder whose name begins with the same letters. -/
theorem isWithin_segmentwise_popJobs :
    isWithin "common/" "Common\\Pop_Jobs" = true ∧
      isWithin "Common\\Pop_Jobs" "/COMMON/pop_jobs//x.txt" = true ∧
      isWithin "common/" "/COMMON/pop_jobs//x.txt" = true ∧
      normalize "Common\\Pop_Jobs" ≠ [] ∧
      lower (normalize "common/pop_jobs_extra/x.txt") =
        lower (normalize "Common\\Pop_Jobs") ++ '_' :: ("extra/x.txt" : Text) ∧
      isWithin "Common\\Pop_Jobs" "common/pop_jobs_extra/x.txt" = false ∧
      IsRespelled "Common\\Pop_Jobs" "common/pop_jobs" ∧
      IsRespelled "/COMMON/pop_jobs//x.txt" "\\common/pop_jobs/\\X.txt" ∧
      isWithin "Common\\Pop_Jobs" "/COMMON/pop_jobs//x.txt" =
        isWithin "common/pop_jobs" "\\common/pop_jobs/\\X.txt" := by
  obtain ⟨-, -, htrans, hborder, hrespelled⟩ := isWithin_segmentwise
  have hbelow : isWithin "common/" "Common\\Pop_Jobs" = true := by decide +kernel
  have hpath : isWithin "Common\\Pop_Jobs" "/COMMON/pop_jobs//x.txt" = true := by decide +kernel
  have hne : normalize "Common\\Pop_Jobs" ≠ [] := by decide +kernel
  have hgoesOn : lower (normalize "common/pop_jobs_extra/x.txt") =
      lower (normalize "Common\\Pop_Jobs") ++ '_' :: ("extra/x.txt" : Text) := by
    decide +kernel
  have hfolder : IsRespelled "Common\\Pop_Jobs" "common/pop_jobs" := by
    unfold IsRespelled
    decide +kernel
  have hrespelling : IsRespelled "/COMMON/pop_jobs//x.txt" "\\common/pop_jobs/\\X.txt" := by
    unfold IsRespelled
    decide +kernel
  have hinside : ¬ isWithin "Common\\Pop_Jobs" "common/pop_jobs_extra/x.txt" = true :=
    mt (hborder _ _ _ _ hne hgoesOn).1 (by decide)
  exact ⟨hbelow, hpath, htrans _ _ _ hbelow hpath, hne, hgoesOn, Bool.eq_false_iff.2 hinside,
    hfolder, hrespelling, hrespelled _ _ _ _ hfolder hrespelling⟩

end Path

end GameScript
