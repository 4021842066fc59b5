import GameScript.Proofs.Text.Condensed
import GameScript.Proofs.Text.SingleLine

/-!
# Loose blanks

The spaces and tabs outside quotes are loose. Condensing changes nothing else
(`withoutLooseBlanks_condense`), and it leaves a text in which they are as few as they can be: one
space at a time, and none beside something tight (`isCondensed_condense`). Such a text it leaves
alone (`condense_of_isCondensed`), so that condensing twice is condensing once.
-/

namespace GameScript.Text

/-! ## Quotes -/

/-- Where a text stands as to quotes. A quoted segment goes on to the next double quote that no
backslash takes along, or to the end of the text. -/
inductive Quoting where
  | outside
  | quoted
  | escaped
  deriving DecidableEq

def Quoting.next : Quoting → Char → Quoting
  | .outside, c => if c = '"' then .quoted else .outside
  | .quoted, c => if c = '\\' then .escaped else if c = '"' then .outside else .quoted
  | .escaped, _ => .quoted

def Quoting.after (q : Quoting) (w : Text) : Quoting := w.foldl next q

/-- Whether `c` is a loose blank in a text that stands at `q`. -/
def IsLoose (q : Quoting) (c : Char) : Prop := q = .outside ∧ (c = ' ' ∨ c = '\t')

instance (q : Quoting) (c : Char) : Decidable (IsLoose q c) :=
  inferInstanceAs (Decidable (_ ∧ _))

/-- What is left of a text that stands at `q` without its loose blanks. -/
def dropLooseBlanks : Quoting → Text → Text
  | _, [] => []
  | q, c :: cs => if IsLoose q c then dropLooseBlanks q cs else c :: dropLooseBlanks (q.next c) cs

/-- A text without the spaces and tabs outside its quotes. -/
def withoutLooseBlanks (t : Text) : Text := dropLooseBlanks .outside t

/-- Neighbours of which a space is one too many: it is beside another, or beside something
tight. -/
def Crowds (c d : Char) : Prop :=
  c = ' ' ∧ d = ' ' ∨ c = ' ' ∧ isTight d = true ∨ isTight c = true ∧ d = ' '

/-- A text, from where it stands, that has no tab outside quotes and no space there that is one too
many. -/
structure IsCondensed (q : Quoting) (t : Text) : Prop where
  tab : ∀ a b, t = a ++ '\t' :: b → q.after a ≠ .outside
  apart : ∀ a c d b, t = a ++ c :: d :: b → Crowds c d → q.after a ≠ .outside

variable {c d last : Char} {q : Quoting} {s : Condenser} {t : Text} {tight pending : Bool}

/-! ## The condenser, character by character -/

def Condenser.quoting : Condenser → Quoting
  | .outside _ _ => .outside
  | .quoted => .quoted
  | .escaped => .escaped

/-- The condenser when it has written `last`, with no blanks since. -/
def Quoting.condenser (last : Char) : Quoting → Condenser
  | .outside => .outside (isTight last) false
  | .quoted => .quoted
  | .escaped => .escaped

/-- What the condenser writes in front of `c`. -/
def Condenser.gap : Condenser → Char → Text
  | .outside tight pending, c => spaceBefore tight pending [c]
  | _, _ => []

theorem Quoting.quoting_condenser : (q.condenser last).quoting = q := by
  cases q <;> rfl

theorem Quoting.gap_condenser : (q.condenser last).gap c = [] := by
  cases q <;> rfl

theorem Condenser.gap_cases (s : Condenser) (c : Char) :
    s.gap c = [] ∨ s.gap c = [' '] ∧ s = .outside false true ∧ isTight c = false := by
  cases s with
  | quoted | escaped => exact .inl rfl
  | outside tight pending =>
    cases tight <;> cases pending <;> cases hc : isTight c <;>
      simp [gap, spaceBefore, startsTight, hc]

/-- A loose blank is only kept in mind. -/
theorem condenseFrom_loose (h : IsLoose .outside c) :
    condenseFrom (.outside tight pending) (c :: t) = condenseFrom (.outside tight true) t := by
  rw [condenseFrom, if_pos h.2]

/-- Everything else is copied. -/
theorem condenseFrom_copy (h : ¬ IsLoose s.quoting c) :
    condenseFrom s (c :: t) =
      s.gap c ++ c :: condenseFrom ((s.quoting.next c).condenser c) t := by
  cases s with
  | escaped => rfl
  | quoted =>
    have hnext : (Quoting.quoted.next c).condenser c =
        if c = '\\' then .escaped else if c = '"' then .outside false false else .quoted := by
      rw [Quoting.next]
      split
      · rfl
      split
      · next hquote => rw [hquote]; rfl
      · rfl
    rw [condenseFrom, Condenser.quoting, hnext]
    rfl
  | outside tight pending =>
    have hnext : (Quoting.outside.next c).condenser c =
        if c = '"' then .quoted else .outside (isTight c) false := by
      rw [Quoting.next]
      split <;> rfl
    have hblank : ¬ (c = ' ' ∨ c = '\t') := fun hb => h ⟨rfl, hb⟩
    rw [condenseFrom_mark hblank, Condenser.quoting, hnext]
    rfl

/-! ## Nothing else is changed -/

theorem dropLooseBlanks_gap (s : Condenser) :
    dropLooseBlanks s.quoting (s.gap d ++ t) = dropLooseBlanks s.quoting t := by
  rcases s.gap_cases d with hgap | ⟨hgap, rfl, -⟩
  · rw [hgap, List.nil_append]
  · rw [hgap]
    exact if_pos ⟨rfl, .inl rfl⟩

theorem dropLooseBlanks_condenseFrom (s : Condenser) (t : Text) :
    dropLooseBlanks s.quoting (condenseFrom s t) = dropLooseBlanks s.quoting t := by
  induction t generalizing s with
  | nil => rw [condenseFrom_nil]
  | cons c t ih =>
    by_cases h : IsLoose s.quoting c
    · have hdrop : dropLooseBlanks s.quoting (c :: t) = dropLooseBlanks s.quoting t := if_pos h
      cases s with
      | quoted | escaped => cases h.1
      | outside tight pending =>
        rw [hdrop, condenseFrom_loose h]
        exact ih (.outside tight true)
    · have hnext := ih ((s.quoting.next c).condenser c)
      rw [Quoting.quoting_condenser] at hnext
      rw [condenseFrom_copy h, dropLooseBlanks_gap, dropLooseBlanks, if_neg h, hnext,
        dropLooseBlanks, if_neg h]

/-- **Condensing drops and adds nothing but loose blanks** of the trimmed text. -/
theorem withoutLooseBlanks_condense (t : Text) :
    withoutLooseBlanks (condense t) = withoutLooseBlanks (trim t) :=
  dropLooseBlanks_condenseFrom (.outside false false) (trim t)

/-! ## Few loose blanks are left -/

theorem isCondensed_nil : IsCondensed q [] where
  tab a b h := by simp at h
  apart a c d b h := by simp at h

theorem isCondensed_cons : IsCondensed q (c :: t) ↔
    (q = .outside → c ≠ '\t' ∧ ∀ d ∈ t.head?, ¬ Crowds c d) ∧ IsCondensed (q.next c) t := by
  constructor
  · rintro ⟨htab, hapart⟩
    refine ⟨fun hq => ⟨?_, fun d hd hcrowds => ?_⟩, fun a b h => ?_, fun a d e b h => ?_⟩
    · rintro rfl
      exact htab [] t rfl hq
    · obtain ⟨b, rfl⟩ := List.head?_eq_some_iff.1 hd
      exact hapart [] c d b rfl hcrowds hq
    · exact htab (c :: a) b (congrArg (c :: ·) h)
    · exact hapart (c :: a) d e b (congrArg (c :: ·) h)
  · rintro ⟨hfirst, htab, hapart⟩
    refine ⟨fun a b h hq => ?_, fun a d e b h hcrowds hq => ?_⟩
    · cases a with
      | nil => exact (hfirst hq).1 (List.cons.inj h).1
      | cons c' a =>
        obtain ⟨rfl, ht⟩ := List.cons.inj h
        exact htab a b ht hq
    · cases a with
      | nil =>
        obtain ⟨rfl, rfl⟩ := List.cons.inj h
        exact (hfirst hq).2 e rfl hcrowds
      | cons c' a =>
        obtain ⟨rfl, ht⟩ := List.cons.inj h
        exact hapart a d e b ht hcrowds hq

theorem crowds_space_left : Crowds ' ' d ↔ d = ' ' ∨ isTight d = true := by
  have htight : isTight ' ' = false := rfl
  simp [Crowds, htight]

theorem crowds_space_right : Crowds c ' ' ↔ c = ' ' ∨ isTight c = true := by
  have htight : isTight ' ' = false := rfl
  simp [Crowds, htight]

theorem not_crowds_quote : ¬ Crowds '"' c := by
  rintro (⟨⟨⟩, -⟩ | ⟨⟨⟩, -⟩ | ⟨⟨⟩, -⟩)

/-- Behind something tight no space is written. -/
theorem head?_condenseFrom_tight (t : Text) :
    (condenseFrom (.outside true pending) t).head? ≠ some ' ' := by
  induction t generalizing pending with
  | nil => rintro ⟨⟩
  | cons c t ih =>
    by_cases h : IsLoose .outside c
    · rw [condenseFrom_loose h]
      exact ih
    · have hgap : (Condenser.outside true pending).gap c = [] := by
        simp [Condenser.gap, spaceBefore]
      rw [condenseFrom_copy (s := .outside true pending) h, hgap]
      rintro ⟨⟩
      exact h ⟨rfl, .inl rfl⟩

theorem not_crowds_condensed (hc : ¬ IsLoose .outside c)
    (hd : d ∈ (condenseFrom ((Quoting.outside.next c).condenser c) t).head?) : ¬ Crowds c d := by
  rintro (⟨rfl, -⟩ | ⟨rfl, -⟩ | ⟨htight, rfl⟩)
  · exact hc ⟨rfl, .inl rfl⟩
  · exact hc ⟨rfl, .inl rfl⟩
  · have hnext : Quoting.outside.next c = .outside := if_neg (by rintro rfl; cases htight)
    rw [hnext, Quoting.condenser, htight] at hd
    exact head?_condenseFrom_tight t hd

theorem isCondensed_condenseFrom (s : Condenser) (t : Text) :
    IsCondensed s.quoting (condenseFrom s t) := by
  induction t generalizing s with
  | nil =>
    rw [condenseFrom_nil]
    exact isCondensed_nil
  | cons c t ih =>
    by_cases h : IsLoose s.quoting c
    · cases s with
      | quoted | escaped => cases h.1
      | outside tight pending =>
        rw [condenseFrom_loose h]
        exact ih (.outside tight true)
    · have hnext := ih ((s.quoting.next c).condenser c)
      rw [Quoting.quoting_condenser] at hnext
      have hcopy : IsCondensed s.quoting
          (c :: condenseFrom ((s.quoting.next c).condenser c) t) := by
        refine isCondensed_cons.2 ⟨fun hq => ⟨fun htab => h ⟨hq, .inr htab⟩, fun d hd => ?_⟩, hnext⟩
        rw [hq] at h hd
        exact not_crowds_condensed h hd
      rw [condenseFrom_copy h]
      rcases s.gap_cases c with hgap | ⟨hgap, rfl, htight⟩
      · rwa [hgap]
      · -- the space is written in front of a mark that is not tight
        rw [hgap]
        refine isCondensed_cons.2 ⟨fun _ => ⟨by decide, ?_⟩, hcopy⟩
        rintro d ⟨⟩
        rw [crowds_space_left, htight, or_iff_left Bool.false_ne_true]
        rintro rfl
        exact h ⟨rfl, .inl rfl⟩

theorem isCondensed_condense (t : Text) : IsCondensed .outside (condense t) :=
  isCondensed_condenseFrom (.outside false false) (trim t)

/-! ## What is condensed is left alone -/

/-- A pending space is written in front of a mark that is not tight. -/
theorem condenseFrom_pending (hc : ¬ IsLoose .outside c) (htight : isTight c = false) :
    condenseFrom (.outside false true) (c :: t) =
      ' ' :: condenseFrom (.outside false false) (c :: t) := by
  have hgap : (Condenser.outside false true).gap c = [' '] := by
    simp [Condenser.gap, spaceBefore, startsTight, htight]
  rw [condenseFrom_copy (s := .outside false true) hc, hgap,
    condenseFrom_copy (s := .outside false false) hc]
  rfl

/-- Only the quote that closes a segment leads out of it. -/
theorem eq_quote_of_next (h : Quoting.quoted.next c = .outside) : c = '"' := by
  rw [Quoting.next] at h
  split at h
  · cases h
  · split at h
    · assumption
    · cases h

/-- Behind `last`, a condensed text is copied, unless it ends with a space. -/
theorem condenseFrom_of_isCondensed (h : IsCondensed q t)
    (hfirst : q = .outside → ∀ c ∈ t.head?, ¬ Crowds last c) (hlast : t.getLast? ≠ some ' ') :
    condenseFrom (q.condenser last) t = t := by
  induction t generalizing q last with
  | nil => exact condenseFrom_nil _
  | cons c t ih =>
    obtain ⟨hc, hrest⟩ := isCondensed_cons.1 h
    have hnext : q.next c = .outside → ∀ d ∈ t.head?, ¬ Crowds c d := by
      intro hq
      cases q with
      | outside => exact (hc rfl).2
      | escaped => cases hq
      | quoted =>
        rw [eq_quote_of_next hq]
        exact fun _ _ => not_crowds_quote
    have hbelow : t.getLast? ≠ some ' ' := fun heq => hlast (by rw [List.getLast?_cons, heq]; rfl)
    have hcopy : condenseFrom ((q.next c).condenser c) t = t := ih hrest hnext hbelow
    by_cases hloose : IsLoose q c
    · obtain ⟨rfl, hblank⟩ := hloose
      obtain rfl : c = ' ' := hblank.resolve_right (hc rfl).1
      have hgap : isTight last = false := by
        simpa using (not_or.1 (mt crowds_space_right.2 (hfirst rfl ' ' rfl))).2
      cases t with
      | nil => exact absurd rfl hlast
      | cons d t =>
        have hd : ¬ (d = ' ' ∨ isTight d = true) := mt crowds_space_left.2 ((hc rfl).2 d rfl)
        have htab : d ≠ '\t' := ((isCondensed_cons.1 hrest).1 rfl).1
        have hmark : ¬ IsLoose .outside d := fun hd' => hd'.2.elim (not_or.1 hd).1 htab
        rw [Quoting.condenser, condenseFrom_loose ⟨rfl, .inl rfl⟩, hgap,
          condenseFrom_pending hmark (by simpa using (not_or.1 hd).2)]
        exact congrArg (' ' :: ·) hcopy
    · have hmark : ¬ IsLoose (q.condenser last).quoting c := by
        rwa [Quoting.quoting_condenser]
      rw [condenseFrom_copy hmark, Quoting.gap_condenser, Quoting.quoting_condenser, hcopy]
      rfl

theorem condense_of_isCondensed (htrim : trim t = t) (h : IsCondensed .outside t) :
    condense t = t := by
  have hlast : t.getLast? ≠ some ' ' := by
    intro hspace
    have hbounded : Bounded t := htrim ▸ bounded_trim (by rw [htrim]; rintro rfl; cases hspace)
    obtain ⟨cs, c, rfl, hc⟩ := hbounded.last
    rw [List.getLast?_concat] at hspace
    cases hspace
    cases hc
  have hcopy : condenseFrom (Quoting.outside.condenser '"') t = t :=
    condenseFrom_of_isCondensed h (fun _ _ _ => not_crowds_quote) hlast
  rw [condense, htrim]
  exact hcopy

theorem trim_condense (t : Text) : trim (condense t) = condense t := by
  by_cases hnil : trim t = []
  · rw [condense, hnil, condenseFrom_nil]
    rfl
  have hbounded := bounded_trim hnil
  have hmark {q : Quoting} {c : Char} (hc : isBlankChar c = false) : ¬ IsLoose q c := by
    rintro ⟨-, rfl | rfl⟩ <;> cases hc
  refine Bounded.trim_eq ⟨?_, ?_⟩
  · obtain ⟨c, cs, hfirst, hc⟩ := hbounded.head
    rw [condense, hfirst, condenseFrom_copy (hmark hc)]
    exact ⟨c, _, rfl, hc⟩
  · obtain ⟨cs, c, hlast, hc⟩ := hbounded.last
    rw [condense, hlast, condenseFrom_append, condenseFrom_copy (hmark hc), condenseFrom_nil,
      ← List.append_assoc]
    exact ⟨_, c, rfl, hc⟩

/-- **Condensing settles a text.** It changes nothing but loose blanks of the trimmed text, and
leaves no tab outside quotes, no two spaces there, and none beside something tight. What it has
settled it leaves alone: it changes exactly the texts that are not trimmed or not condensed. -/
theorem condense_settles (t : Text) :
    condense (condense t) = condense t ∧
      withoutLooseBlanks (condense t) = withoutLooseBlanks (trim t) ∧
      IsCondensed .outside (condense t) ∧
      (condense t = t ↔ trim t = t ∧ IsCondensed .outside t) := by
  refine ⟨condense_of_isCondensed (trim_condense t) (isCondensed_condense t),
    withoutLooseBlanks_condense t, isCondensed_condense t, fun h => ?_,
    fun h => condense_of_isCondensed h.1 h.2⟩
  rw [← h]
  exact ⟨trim_condense t, isCondensed_condense t⟩

/-- In a segment that is not closed everything is kept up to the trimmed end; the no-break space is
no loose blank. -/
example : condense "\ta  =\u00A0\t\u00A0 \"b\\\"  = \" = \"\t\t= " =
    "a=\u00A0 \u00A0 \"b\\\"  = \"=\"\t\t=" := by
  decide +kernel

end GameScript.Text
