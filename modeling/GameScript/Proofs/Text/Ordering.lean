import GameScript.Text.Order
import Mathlib.Data.Char
import Mathlib.Data.List.Lex
import Mathlib.Data.List.Sort

/-!
# Sorting by text keys

The order of texts is the lexicographic one (`le_iff`), and `sortBy` is an insertion sort by it.
Keys that all differ come out strictly increasing, in an order that does not depend on the one
they went in with (`sortBy_eq_of_perm`). A list that is sorted by a key is determined by what it
holds for each key (`eq_of_filter_eq`).
-/

namespace GameScript.Text

theorem le_iff {a b : Text} : le a b = true ↔ a ≤ b := by
  rw [← not_lt]
  induction a generalizing b with
  | nil => simp [le]
  | cons c cs ih =>
    cases b with
    | nil => simp [le]
    | cons d ds =>
      rw [le, Bool.or_eq_true, Bool.and_eq_true, ih, List.cons_lt_cons_iff]
      simp only [decide_eq_true_eq, beq_iff_eq, not_or, not_and, not_lt]
      constructor
      · rintro (h | ⟨rfl, h⟩)
        · exact ⟨h.le, fun hdc => absurd hdc h.ne'⟩
        · exact ⟨le_refl c, fun _ => h⟩
      · rintro ⟨h, hcs⟩
        rcases h.lt_or_eq with hlt | rfl
        · exact .inl hlt
        · exact .inr ⟨rfl, hcs rfl⟩

variable {α : Type} {key : α → Text} {as bs : List α}

theorem sortBy_eq : sortBy key as = as.insertionSort (fun a b => key a ≤ key b) := by
  have hinsert : ∀ (a : α) (bs : List α),
      insertBy key a bs = bs.orderedInsert (fun a b => key a ≤ key b) a := by
    intro a bs
    induction bs with
    | nil => rfl
    | cons b bs ih => simp only [insertBy, List.orderedInsert, le_iff, ih]
  induction as with
  | nil => rfl
  | cons a as ih =>
    rw [List.insertionSort_cons, ← ih, ← hinsert]
    rfl

theorem sortBy_perm : (sortBy key as).Perm as := by
  rw [sortBy_eq]
  exact List.perm_insertionSort ..

theorem pairwise_sortBy : (sortBy key as).Pairwise fun a b => key a ≤ key b := by
  have htotal : Std.Total fun a b => key a ≤ key b := ⟨fun a b => le_total (key a) (key b)⟩
  have htrans : IsTrans α fun a b => key a ≤ key b := ⟨fun _ _ _ => le_trans⟩
  rw [sortBy_eq]
  exact List.pairwise_insertionSort ..

theorem pairwise_lt_sortBy (hd : (as.map key).Nodup) :
    (sortBy key as).Pairwise fun a b => key a < key b := by
  have hne : (sortBy key as).Pairwise fun a b => key a ≠ key b :=
    List.pairwise_map.1 ((sortBy_perm.map key).nodup_iff.2 hd)
  exact (pairwise_sortBy.and hne).imp fun h => lt_of_le_of_ne h.1 h.2

/-- Lists that are related entry by entry, by entries with the same keys, are so when sorted. -/
theorem forall₂_sortBy {R : α → α → Prop}
    (h : List.Forall₂ (fun a b => key a = key b ∧ R a b) as bs) :
    List.Forall₂ (fun a b => key a = key b ∧ R a b) (sortBy key as) (sortBy key bs) := by
  have hinsert {a b : α} {as bs : List α} (hab : key a = key b ∧ R a b)
      (h : List.Forall₂ (fun a b => key a = key b ∧ R a b) as bs) :
      List.Forall₂ (fun a b => key a = key b ∧ R a b) (insertBy key a as) (insertBy key b bs) := by
    induction h with
    | nil => exact .cons hab .nil
    | @cons c d cs ds hcd hcs ih =>
      rw [insertBy, insertBy, hab.1, hcd.1]
      split
      · exact .cons hab (.cons hcd hcs)
      · exact .cons hcd ih
  induction h with
  | nil => exact .nil
  | cons hab _ ih => exact hinsert hab ih

/-- A list with strictly increasing keys is determined by its members. -/
theorem eq_of_pairwise_lt (ha : as.Pairwise fun a b => key a < key b)
    (hb : bs.Pairwise fun a b => key a < key b) (h : ∀ a, a ∈ as ↔ a ∈ bs) : as = bs :=
  have : Std.Irrefl fun a b => key a < key b := ⟨fun a => lt_irrefl (key a)⟩
  have : Std.Antisymm fun a b => key a < key b := ⟨fun _ _ h₁ h₂ => absurd h₁ h₂.asymm⟩
  List.Pairwise.eq_of_mem_iff ha hb h

/-- When all keys differ, the order before sorting does not matter. -/
theorem sortBy_eq_of_perm (hp : as.Perm bs) (hd : (as.map key).Nodup) :
    sortBy key as = sortBy key bs := by
  refine eq_of_pairwise_lt (pairwise_lt_sortBy hd)
    (pairwise_lt_sortBy ((hp.map key).nodup_iff.1 hd)) fun a => ?_
  rw [sortBy_perm.mem_iff, sortBy_perm.mem_iff, hp.mem_iff]

/-- Sorted lists that hold the same for each key are the same. -/
theorem eq_of_filter_eq (ha : as.Pairwise fun a b => key a ≤ key b)
    (hb : bs.Pairwise fun a b => key a ≤ key b)
    (h : ∀ k, as.filter (key · = k) = bs.filter (key · = k)) : as = bs := by
  have hmem {a : α} : a ∈ as ↔ a ∈ bs := by
    have := congrArg (a ∈ ·) (h (key a))
    simpa using this
  induction as generalizing bs with
  | nil =>
    cases bs with
    | nil => rfl
    | cons b bs => exact absurd (hmem.2 List.mem_cons_self) List.not_mem_nil
  | cons a as ih =>
    cases bs with
    | nil => exact absurd (hmem.1 List.mem_cons_self) List.not_mem_nil
    | cons b bs =>
      rw [List.pairwise_cons] at ha hb
      have hab : key a ≤ key b := by
        rcases List.mem_cons.1 (hmem.2 List.mem_cons_self) with rfl | hmb
        · exact le_refl _
        · exact ha.1 b hmb
      have hba : key b ≤ key a := by
        rcases List.mem_cons.1 (hmem.1 List.mem_cons_self) with rfl | hma
        · exact le_refl _
        · exact hb.1 a hma
      have hkey : key a = key b := le_antisymm hab hba
      have hhead := h (key a)
      rw [List.filter_cons_of_pos (by simp), List.filter_cons_of_pos (by simp [hkey])] at hhead
      obtain ⟨rfl, -⟩ := List.cons.inj hhead
      have htail : ∀ k, as.filter (key · = k) = bs.filter (key · = k) := by
        intro k
        have hk := h k
        by_cases hak : key a = k
        · rw [List.filter_cons_of_pos (by simp [hak]),
            List.filter_cons_of_pos (by simp [hak])] at hk
          exact (List.cons.inj hk).2
        · rw [List.filter_cons_of_neg (by simp [hak]),
            List.filter_cons_of_neg (by simp [hak])] at hk
          exact hk
      have hmem' {c : α} : c ∈ as ↔ c ∈ bs := by
        have := congrArg (c ∈ ·) (htail (key c))
        simpa using this
      rw [ih ha.2 hb.2 htail hmem']

end GameScript.Text
