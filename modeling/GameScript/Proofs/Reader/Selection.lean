import GameScript.Proofs.Reader.Stamps
import Mathlib.Data.List.Induction

/-!
# Which reader is selected

The foremost reader is the first of the highest priority (`foremost_eq_some_iff`), and one more
reader is foremost only above all others (`foremost_concat`). A registry keeps its readers by family
in the order of registration, so the selected reader is told by that order alone, and what one more
reader changes is told by the reader selected before (`select_registered`).
-/

namespace GameScript

def Family.rank : Family → Nat
  | game => 0
  | general => 1
  | fallback => 2

namespace Registry

def registered (s : ReaderSettings) (qs : List Reader) : Registry := qs.foldl register (bare s)

def claimants (f : Family) (qs : List Reader) (c : Candidate) : List Reader :=
  qs.filter fun q => q.family = f && q.claims c

/-- Whether `best` is the first of the highest priority. -/
def IsForemost (rs : List Reader) (best : Reader) : Prop :=
  ∃ before after, rs = before ++ best :: after ∧ (∀ r ∈ before, r.priority < best.priority) ∧
    ∀ r ∈ after, r.priority ≤ best.priority

/-- Which of the readers `qs` is to read a file: the foremost one for the game that claims it, else
the foremost one for every game, else the fallback that was registered last. -/
inductive Prefers (s : ReaderSettings) (qs : List Reader) (c : Candidate) : Reader → Prop where
  | game {best : Reader} : IsForemost (claimants .game qs c) best → Prefers s qs c best
  | general {best : Reader} : claimants .game qs c = [] →
    IsForemost (claimants .general qs c) best → Prefers s qs c best
  | fallback : claimants .game qs c = [] → claimants .general qs c = [] →
    Prefers s qs c
      ((qs.filter (·.family = .fallback)).getLast?.getD (BuiltIn.fallback.reader s))

/-- Whether a reader goes before the one that was selected without it. -/
def GoesBefore (q previous : Reader) : Prop :=
  q.family.rank < previous.family.rank ∨
    q.family = previous.family ∧ previous.priority < q.priority

instance (q previous : Reader) : Decidable (GoesBefore q previous) :=
  inferInstanceAs (Decidable (_ ∨ _))

variable {s : ReaderSettings} {r : Registry} {rs qs : List Reader} {q best : Reader}
  {c : Candidate} {f : Family}

/-! ## The foremost of a list -/

theorem foremost_eq_none_iff : foremost rs = none ↔ rs = [] := by
  cases rs with
  | nil => simp [foremost]
  | cons r rs =>
    rw [foremost]
    split
    · split <;> simp
    · simp

/-- One more reader is foremost only above all others. -/
theorem foremost_concat : foremost (rs ++ [q]) =
    match foremost rs with
    | some best => if best.priority < q.priority then some q else some best
    | none => some q := by
  induction rs with
  | nil => rfl
  | cons r rs ih =>
    rw [List.cons_append, foremost, ih, foremost]
    cases foremost rs with
    | none => simp
    | some best =>
      by_cases hq : best.priority < q.priority
      · by_cases hr : r.priority < best.priority
        · simp [hq, hr, Int.lt_trans hr hq]
        · simp [hq, hr]
      · by_cases hr : r.priority < best.priority
        · simp [hq, hr]
        · have : ¬ r.priority < q.priority := by omega
          simp [hq, hr, this]

theorem isForemost_of_foremost (h : foremost rs = some best) : IsForemost rs best := by
  induction rs generalizing best with
  | nil => cases h
  | cons r rs ih =>
    rw [foremost] at h
    cases hrs : foremost rs with
    | none =>
      rw [hrs] at h
      obtain rfl := Option.some.inj h
      obtain rfl := foremost_eq_none_iff.1 hrs
      exact ⟨[], [], rfl, List.forall_mem_nil _, List.forall_mem_nil _⟩
    | some other =>
      obtain ⟨before, after, rfl, hbefore, hafter⟩ := ih hrs
      simp only [hrs] at h
      split at h
      · next hlt =>
        obtain rfl := Option.some.inj h
        exact ⟨r :: before, after, rfl, List.forall_mem_cons.2 ⟨hlt, hbefore⟩, hafter⟩
      · next hle =>
        obtain rfl := Option.some.inj h
        refine ⟨[], before ++ other :: after, rfl, List.forall_mem_nil _, fun x hx => ?_⟩
        have hother := Int.not_lt.1 hle
        rcases List.mem_append.1 hx with hx | hx
        · exact Int.le_trans (Int.le_of_lt (hbefore x hx)) hother
        · rcases List.mem_cons.1 hx with rfl | hx
          · exact hother
          · exact Int.le_trans (hafter x hx) hother

theorem foremost_of_isForemost (h : IsForemost rs best) : foremost rs = some best := by
  obtain ⟨before, after, rfl, hbefore, hafter⟩ := h
  have hrest : foremost (best :: after) = some best := by
    rw [foremost]
    cases hother : foremost after with
    | none => rfl
    | some other =>
      obtain ⟨_, _, rfl, -, -⟩ := isForemost_of_foremost hother
      exact if_neg (Int.not_lt.2 (hafter other (by simp)))
  induction before with
  | nil => exact hrest
  | cons r before ih =>
    rw [List.forall_mem_cons] at hbefore
    rw [List.cons_append, foremost, ih hbefore.2]
    exact if_pos hbefore.1

/-- **The foremost reader is the first of the highest priority.** -/
theorem foremost_eq_some_iff : foremost rs = some best ↔ IsForemost rs best :=
  ⟨isForemost_of_foremost, foremost_of_isForemost⟩

theorem choose_concat : choose (rs ++ [q]) c =
    if q.claims c then
      match choose rs c with
      | some best => if best.priority < q.priority then some q else some best
      | none => some q
    else choose rs c := by
  rw [choose, List.filter_append, List.filter_cons]
  split
  · exact foremost_concat
  · rw [List.filter_nil, List.append_nil]
    rfl

/-! ## Registered readers -/

/-- Every reader is where its family belongs. -/
structure Sorted (r : Registry) : Prop where
  game : ∀ q ∈ r.game, q.family = .game
  general : ∀ q ∈ r.general, q.family = .general
  fallback : r.fallback.family = .fallback

theorem registered_concat : registered s (qs ++ [q]) = (registered s qs).register q := by
  simp [registered]

/-- Readers are kept by family, in the order of registration; of fallbacks the last one is. -/
theorem registered_eq : registered s qs =
    { game := qs.filter (·.family = .game)
      general := qs.filter (·.family = .general)
      fallback :=
        (qs.filter (·.family = .fallback)).getLast?.getD (BuiltIn.fallback.reader s) } := by
  induction qs using List.reverseRecOn with
  | nil => rfl
  | append_singleton qs q ih =>
    rw [registered_concat, ih, register]
    cases hq : q.family <;> simp [hq]

theorem sorted_registered : (registered s qs).Sorted := by
  rw [registered_eq]
  refine ⟨fun q hq => ?_, fun q hq => ?_, ?_⟩
  · simpa using (List.mem_filter.1 hq).2
  · simpa using (List.mem_filter.1 hq).2
  · show ((qs.filter (·.family = .fallback)).getLast?.getD _).family = _
    cases h : (qs.filter (·.family = .fallback)).getLast? with
    | none => rfl
    | some q => simpa using (List.mem_filter.1 (List.mem_of_getLast? h)).2

theorem choose_filter : choose (qs.filter (·.family = f)) c = foremost (claimants f qs c) := by
  rw [choose, List.filter_filter, claimants]
  congr 1
  exact List.filter_congr fun q _ => Bool.and_comm _ _

/-- What is selected is what is preferred. -/
theorem select_eq_iff : (registered s qs).select c = best ↔ Prefers s qs c best := by
  rw [select, registered_eq, choose_filter, choose_filter]
  constructor
  · rintro rfl
    cases hgame : foremost (claimants .game qs c) with
    | some best => exact .game (foremost_eq_some_iff.1 hgame)
    | none =>
      have hgame := foremost_eq_none_iff.1 hgame
      cases hgeneral : foremost (claimants .general qs c) with
      | some best => exact .general hgame (foremost_eq_some_iff.1 hgeneral)
      | none => exact .fallback hgame (foremost_eq_none_iff.1 hgeneral)
  · intro h
    cases h with
    | game h => rw [foremost_eq_some_iff.2 h]; rfl
    | general hgame h => rw [hgame, foremost_eq_some_iff.2 h]; rfl
    | fallback hgame hgeneral => rw [hgame, hgeneral]; rfl

theorem goesBefore_of_same (h : q.family = best.family) :
    GoesBefore q best ↔ best.priority < q.priority := by
  simp [GoesBefore, h]

theorem not_goesBefore (h : best.family.rank < q.family.rank) : ¬ GoesBefore q best := by
  rintro (hlt | ⟨hsame, -⟩)
  · exact Nat.lt_asymm h hlt
  · exact absurd (congrArg Family.rank hsame) (Nat.ne_of_gt h)

/-- Without a reader for the game, a later family is asked. -/
theorem Sorted.rank_select (hr : r.Sorted) (h : choose r.game c = none) :
    Family.game.rank < (r.select c).family.rank := by
  rw [select, h, Option.none_or]
  cases hgeneral : choose r.general c with
  | some b =>
    show 0 < b.family.rank
    rw [hr.general b (mem_of_choose hgeneral)]
    decide
  | none =>
    show 0 < r.fallback.family.rank
    rw [hr.fallback]
    decide

theorem select_of_game (h : choose r.game c = some best) : r.select c = best := by
  rw [select, h]
  rfl

/-- One more reader of a family takes the place of the chosen one if it goes before that one. -/
theorem choose_concat_some (hbest : choose rs c = some best) (hsame : q.family = best.family) :
    choose (rs ++ [q]) c = some (if q.claims c ∧ GoesBefore q best then q else best) := by
  rw [choose_concat, hbest]
  by_cases hclaims : q.claims c
  · simp only [hclaims, goesBefore_of_same hsame, true_and, if_true]
    split <;> rfl
  · rw [if_neg hclaims, if_neg fun h => hclaims h.1]

theorem choose_concat_none (hnone : choose rs c = none) :
    choose (rs ++ [q]) c = if q.claims c then some q else none := by
  rw [choose_concat, hnone]

theorem select_register_game (hr : r.Sorted) (hfamily : q.family = .game) :
    (r.register q).select c =
      if q.claims c ∧ GoesBefore q (r.select c) then q else r.select c := by
  have hselect : (r.register q).select c =
      ((choose (r.game ++ [q]) c).or (choose r.general c)).getD r.fallback := by
    rw [register, hfamily, select]
  cases hgame : choose r.game c with
  | some b =>
    have hsame : q.family = b.family := hfamily.trans (hr.game b (mem_of_choose hgame)).symm
    rw [hselect, choose_concat_some hgame hsame, select_of_game hgame]
    rfl
  | none =>
    have hlater : GoesBefore q (r.select c) := .inl (hfamily ▸ hr.rank_select hgame)
    rw [hselect, choose_concat_none hgame]
    by_cases hclaims : q.claims c
    · rw [if_pos hclaims, if_pos ⟨hclaims, hlater⟩]
      rfl
    · rw [if_neg hclaims, if_neg fun h => hclaims h.1, select, hgame]

theorem select_register_general (hr : r.Sorted) (hfamily : q.family = .general) :
    (r.register q).select c =
      if q.claims c ∧ GoesBefore q (r.select c) then q else r.select c := by
  have hselect : (r.register q).select c =
      ((choose r.game c).or (choose (r.general ++ [q]) c)).getD r.fallback := by
    rw [register, hfamily, select]
  cases hgame : choose r.game c with
  | some b =>
    have hearlier : b.family.rank < q.family.rank := by
      rw [hfamily, hr.game b (mem_of_choose hgame)]
      decide
    rw [hselect, hgame, select_of_game hgame, if_neg fun h => not_goesBefore hearlier h.2]
    rfl
  | none =>
    have hold : r.select c = (choose r.general c).getD r.fallback := by
      rw [select, hgame, Option.none_or]
    rw [hselect, hgame, hold, Option.none_or]
    cases hgeneral : choose r.general c with
    | some b =>
      have hsame : q.family = b.family :=
        hfamily.trans (hr.general b (mem_of_choose hgeneral)).symm
      rw [choose_concat_some hgeneral hsame]
      rfl
    | none =>
      have hlater : GoesBefore q r.fallback := by
        refine .inl ?_
        rw [hfamily, hr.fallback]
        decide
      rw [choose_concat_none hgeneral, Option.getD_none]
      by_cases hclaims : q.claims c
      · rw [if_pos hclaims, if_pos ⟨hclaims, hlater⟩]
        rfl
      · rw [if_neg hclaims, if_neg fun h => hclaims h.1]
        rfl

/-- What is selected with one more reader, for a game or for every game. -/
theorem select_register (hr : r.Sorted) (hq : q.family ≠ .fallback) :
    (r.register q).select c =
      if q.claims c ∧ GoesBefore q (r.select c) then q else r.select c := by
  cases hfamily : q.family with
  | fallback => exact absurd hfamily hq
  | game => exact select_register_game hr hfamily
  | general => exact select_register_general hr hfamily

/-- **Selection is a stable maximum, and one more reader can only put itself first.** Whatever
readers are registered, in whatever order, the one that is selected is the first of the highest
priority among those for the game that claim the file; without any, among those for every game; and
else the last fallback. With one more reader of the first two families the selection stays, unless
that reader claims the file and goes before the one selected so far. -/
theorem select_registered (s : ReaderSettings) (qs : List Reader) (c : Candidate) :
    (∀ best, (registered s qs).select c = best ↔ Prefers s qs c best) ∧
    ∀ q : Reader, q.family ≠ .fallback → (registered s (qs ++ [q])).select c =
      if q.claims c ∧ GoesBefore q ((registered s qs).select c) then q
      else (registered s qs).select c := by
  refine ⟨fun best => select_eq_iff, fun q hq => ?_⟩
  rw [registered_concat]
  exact select_register sorted_registered hq

def claimant (name : Text) (priority : Int) : Reader where
  name := name
  family := .game
  priority := priority
  claims := fun _ => true
  read := fun _ => []

/-- Of two readers of one priority the first is kept, until one of a higher priority comes. -/
theorem select_registered_third :
    let qs := [claimant "first" (-1), claimant "second" (-1)]
    let c : Candidate := { file := "common/x/y.txt", game := .other }
    (registered {} qs).select c = claimant "first" (-1) ∧
      (claimant "third" 5).family ≠ .fallback ∧
      (registered {} (qs ++ [claimant "third" 5])).select c = claimant "third" 5 := by
  intro qs c
  have hthird : (claimant "third" 5).family ≠ .fallback := by decide
  have hfirst : (registered {} qs).select c = claimant "first" (-1) := by
    refine (select_registered {} qs c).1 _ |>.2 (.game ⟨[], [claimant "second" (-1)], rfl,
      List.forall_mem_nil _, ?_⟩)
    exact List.forall_mem_singleton.2 (Int.le_refl _)
  refine ⟨hfirst, hthird, ((select_registered {} qs c).2 _ hthird).trans ?_⟩
  rw [hfirst]
  exact if_pos ⟨rfl, .inr ⟨rfl, by decide⟩⟩

end Registry

end GameScript
