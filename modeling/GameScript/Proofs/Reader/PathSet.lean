import GameScript.Proofs.Path
import GameScript.Proofs.Text.Spellings
import GameScript.Reader.BuiltIn

/-!
# Sets of paths and letter case

Folders are compared in small letters, other entries of a set only up to the case of `A` to `Z`.
So a set tells paths apart that have the same small form, when one of its entries has another
spelling (`contains_tells_apart`); with entries that have none, it ignores case altogether
(`ignoresCase_iff`). Extensions are small already when they are compared. There it is the sigma
that is final in one place and not in another.
-/

namespace GameScript

open Text

namespace Path

variable {f g path stem ext : Text}

/-! ## Parts of paths with the same small form -/

theorem directory_alike (h : lower (normalize f) = lower (normalize g)) :
    lower (directory f) = lower (directory g) := by
  rw [lower_normalize, lower_normalize] at h
  rw [← directory_lower, ← directory_lower, directory, segments, h, ← segments, ← directory]

theorem fileName_alike (h : lower (normalize f) = lower (normalize g)) :
    lower (fileName f) = lower (fileName g) := by
  rw [lower_normalize, lower_normalize] at h
  rw [← fileName_lower, ← fileName_lower, fileName, segments, h, ← segments, ← fileName]

theorem caseless_dot : Caseless '.' := caseless_of_ascii (by decide) (by decide) (by decide)

theorem extension_eq (h : fileName path = stem ++ '.' :: ext) (hdot : '.' ∉ ext) :
    extension path = if stem = [] then [] else lower ('.' :: ext) := by
  rw [extension, h, splitLast_append hdot]

theorem extension_eq_nil (h : '.' ∉ fileName path) : extension path = [] := by
  rw [extension, splitLast_of_not_mem h]

theorem asciiLower_extension (path : Text) : asciiLower (extension path) = extension path := by
  rw [extension]
  split
  · split
    · rfl
    · exact asciiLower_lower _
  · rfl

theorem exists_last_dot {u : Text} (h : lower (stem ++ '.' :: ext) = lower u) (hdot : '.' ∉ ext) :
    ∃ stem' ext', u = stem' ++ '.' :: ext' ∧ '.' ∉ ext' ∧ (stem = [] ↔ stem' = []) ∧
      lowerAfter ('.' :: stem.reverse) ext = lowerAfter ('.' :: stem'.reverse) ext' := by
  have hsplit (a b : Text) : ∃ front,
      lower (a ++ '.' :: b) = front ++ '.' :: lowerAfter ('.' :: a.reverse) b ∧
        (front = [] ↔ a = []) := by
    obtain ⟨front, hfront, hnil⟩ := exists_lowerAfter_append [] a ('.' :: b)
    refine ⟨front, ?_, hnil⟩
    rw [List.append_nil, lowerAfter_cons, caseless_dot.smallForm_eq] at hfront
    exact hfront
  have hmem : '.' ∈ u := by
    rw [← caseless_dot.mem_lower, ← h, caseless_dot.mem_lower]
    simp
  obtain ⟨stem', ext', rfl, hdot'⟩ := exists_last_of_mem hmem
  obtain ⟨front, hfront, hnil⟩ := hsplit stem ext
  obtain ⟨front', hfront', hnil'⟩ := hsplit stem' ext'
  rw [hfront, hfront'] at h
  have hlast := congrArg (splitLast '.') h
  rw [splitLast_append (mt caseless_dot.mem_lowerAfter.1 hdot),
    splitLast_append (mt caseless_dot.mem_lowerAfter.1 hdot'), Option.some_inj, Prod.mk.injEq]
    at hlast
  exact ⟨stem', ext', rfl, hdot', hnil.symm.trans (hlast.1 ▸ hnil'), hlast.2⟩

/-- An extension without a sigma is read the same in every spelling of a path. -/
theorem extension_alike (h : lower (normalize f) = lower (normalize g))
    (hsigma : 'σ' ∉ extension f) (hfinal : 'ς' ∉ extension f) : extension g = extension f := by
  have hnames := fileName_alike h
  by_cases hmem : '.' ∈ fileName f
  · obtain ⟨stem, ext, hf, hdot⟩ := exists_last_of_mem hmem
    rw [hf] at hnames
    obtain ⟨stem', ext', hg, hdot', hnil, hrest⟩ := exists_last_dot hnames hdot
    rw [extension_eq hf hdot] at hsigma hfinal ⊢
    rw [extension_eq hg hdot']
    by_cases hstem : stem = []
    · rw [if_pos hstem, if_pos (hnil.1 hstem)]
    rw [if_neg hstem] at hsigma hfinal ⊢
    rw [if_neg (mt hnil.2 hstem)]
    have hcons (x : Text) : lower ('.' :: x) = '.' :: lowerAfter ['.'] x := by
      rw [lower, lowerAfter_cons, caseless_dot.smallForm_eq]
      rfl
    rw [hcons] at hsigma hfinal
    rw [hcons, hcons]
    have hsame : lowerAfter ['.'] ext' = lowerAfter ['.'] ext :=
      lowerAfter_congr hrest (mt (List.mem_cons_of_mem _) hsigma)
        (mt (List.mem_cons_of_mem _) hfinal)
    rw [hsame]
  · have hmem' : '.' ∉ fileName g := by
      rwa [← caseless_dot.mem_lower, ← hnames, caseless_dot.mem_lower]
    rw [extension_eq_nil hmem, extension_eq_nil hmem']

/-! ## Entries -/

/-- An entry with one spelling is met by every path with its small form. -/
theorem same_iff_of_hasOneSpelling {e : Text} (he : HasOneSpelling (normalize e)) :
    same f e = true ↔ lower (normalize f) = lower (normalize e) :=
  ⟨lower_eq_of_same, he _⟩

theorem same_alike {e : Text} (he : HasOneSpelling (normalize e))
    (h : lower (normalize f) = lower (normalize g)) : same f e = same g e :=
  Bool.eq_iff_iff.2 (by rw [same_iff_of_hasOneSpelling he, same_iff_of_hasOneSpelling he, h])

theorem same_directory_alike {e : Text} (he : HasOneSpelling (normalize e))
    (h : lower (normalize f) = lower (normalize g)) :
    same (directory f) e = same (directory g) e :=
  same_alike he (by rw [lower_normalize, directory_alike h, ← lower_normalize])

theorem same_extension_alike {e : Text} (hsigma : 'σ' ∉ e) (hfinal : 'ς' ∉ e)
    (h : lower (normalize f) = lower (normalize g)) :
    Text.same e (extension f) = Text.same e (extension g) := by
  have hmeets {x y : Text} (hxy : lower (normalize x) = lower (normalize y))
      (hx : Text.same e (extension x) = true) : Text.same e (extension y) = true := by
    have hentry : extension x = asciiLower e := by
      rw [Text.same_iff.1 hx, asciiLower_extension]
    rw [extension_alike hxy, hx] <;> rw [hentry]
    · exact mt (mem_of_mem_asciiLower (by decide)) hsigma
    · exact mt (mem_of_mem_asciiLower (by decide)) hfinal
  exact Bool.eq_iff_iff.2 ⟨hmeets h, hmeets h.symm⟩

end Path

namespace PathSet

variable {s : PathSet} {f g : Text}

/-- Whether the set tells no two spellings of a path apart. -/
def IgnoresCase (s : PathSet) : Prop :=
  ∀ f g, lower (Path.normalize f) = lower (Path.normalize g) → s.contains f = s.contains g

theorem isWithin_alike (folder : Text) (h : lower (Path.normalize f) = lower (Path.normalize g)) :
    Path.isWithin folder f = Path.isWithin folder g := by
  rw [Path.isWithin, Path.isWithin, h]

theorem any_alike {es : List Text} {p q : Text → Bool} (h : ∀ e ∈ es, p e = q e) :
    es.any p = es.any q := by
  induction es with
  | nil => rfl
  | cons e es ih =>
    rw [List.forall_mem_cons] at h
    rw [List.any_cons, List.any_cons, h.1, ih h.2]

theorem ignoresCase_of_oneSpelling
    (hnames : ∀ e ∈ s.files ++ s.directories, HasOneSpelling (Path.normalize e))
    (hextensions : ∀ e ∈ s.extensions, 'σ' ∉ e ∧ 'ς' ∉ e) : s.IgnoresCase := by
  intro f g h
  rw [List.forall_mem_append] at hnames
  have hfolders : s.folders.any (Path.isWithin · f) = s.folders.any (Path.isWithin · g) :=
    List.any_congr rfl fun e => isWithin_alike e h
  have hfiles : s.files.any (Path.same f) = s.files.any (Path.same g) :=
    any_alike fun e he => Path.same_alike (hnames.1 e he) h
  have hdirectories : s.directories.any (Path.same (Path.directory f)) =
      s.directories.any (Path.same (Path.directory g)) :=
    any_alike fun e he => Path.same_directory_alike (hnames.2 e he) h
  have hexts : s.extensions.any (Text.same · (Path.extension f)) =
      s.extensions.any (Text.same · (Path.extension g)) :=
    any_alike fun e he => Path.same_extension_alike (hextensions e he).1 (hextensions e he).2 h
  rw [contains, contains, hfolders, hfiles, hdirectories, hexts]

theorem hasOneSpelling_of_ignoresCase {e : Text} (h : IgnoresCase { files := [e] }) :
    HasOneSpelling (Path.normalize e) := by
  intro u hu
  have hnormal : Path.normalize u = u := by
    rw [← Path.normalize_lower_iff, hu, ← Path.lower_normalize, Path.normalize_normalize]
  have hself : contains { files := [e] } e = true := by
    simp [contains, Path.same, Text.same]
  rw [h e u (by rw [hnormal, hu])] at hself
  simpa [contains, Path.same, hnormal] using hself

theorem ignoresCase_defaultFiles (b : BuiltIn) : b.defaultFiles.IgnoresCase := by
  have hall : ((b.defaultFiles.files ++ b.defaultFiles.directories).all fun e =>
      (Path.normalize e).all fun c => c.toNat < 128 && c.toLower != 'k') = true := by
    cases b <;> decide +kernel
  have hascii : ∀ e ∈ b.defaultFiles.files ++ b.defaultFiles.directories,
      ∀ c ∈ Path.normalize e, c.toNat < 128 ∧ c.toLower ≠ 'k' := by
    simpa only [List.all_eq_true, Bool.and_eq_true, decide_eq_true_eq, bne_iff_ne] using hall
  have hextensions : ∀ e ∈ b.defaultFiles.extensions, 'σ' ∉ e ∧ 'ς' ∉ e := by
    cases b <;> decide +kernel
  exact ignoresCase_of_oneSpelling (fun e he => hasOneSpelling_of_ascii (hascii e he)) hextensions

/-- **Which sets ignore case.** Whatever folders they have, and with extensions without a sigma,
all sets with files and directories of some kind ignore the case of paths if and only if every
entry of that kind has one spelling. The sets of the built-in readers ignore it. -/
theorem ignoresCase_iff (P : Text → Prop) :
    ((∀ s : PathSet, (∀ e ∈ s.files ++ s.directories, P e) →
        (∀ e ∈ s.extensions, 'σ' ∉ e ∧ 'ς' ∉ e) → s.IgnoresCase) ↔
      ∀ e, P e → HasOneSpelling (Path.normalize e)) ∧
    ∀ b : BuiltIn, b.defaultFiles.IgnoresCase := by
  refine ⟨⟨fun h e he => ?_, fun h s hnames hextensions => ?_⟩, ignoresCase_defaultFiles⟩
  · exact hasOneSpelling_of_ignoresCase (h _ (by simpa using he) (by simp))
  · exact ignoresCase_of_oneSpelling (fun e he => h e (hnames e he)) hextensions

/-- A file with a letter outside ASCII, a directory with the letter k, and an extension with a
sigma that is final in the path but not by itself. -/
theorem contains_tells_apart :
    (lower (Path.normalize "É.txt") = lower (Path.normalize "é.txt") ∧
        contains { files := ["é.txt"] } "é.txt" = true ∧
        contains { files := ["é.txt"] } "É.txt" = false) ∧
      (lower (Path.normalize "\u212A/a.txt") = lower (Path.normalize "k/a.txt") ∧
        contains { directories := ["k"] } "k/a.txt" = true ∧
        contains { directories := ["k"] } "\u212A/a.txt" = false) ∧
      lower (Path.normalize "a.Σ") = lower (Path.normalize "a.ς") ∧
        contains { extensions := [".σ"] } "a.Σ" = true ∧
        contains { extensions := [".σ"] } "a.ς" = false := by
  decide +kernel

end PathSet

end GameScript
