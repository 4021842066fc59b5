import GameScript.Proofs.Store.Table
import GameScript.Proofs.Text.Ordering
import GameScript.Store.KeyCount

/-!
# What counted keys hold

`c.Counts ks` says that `c` counts the keys in the list `ks`, each as often as it occurs and the
empty key not at all. The order of `ks` does not matter. Adding a key puts it in front of the
list, and erasing takes it from there. The known keys that a `KeySet` keeps are always those that
it counts (`KeySet.known_add`, `KeySet.known_erase`).
-/

namespace GameScript

namespace Text.SortedSet

variable {k t : Text} {s : SortedSet} {ts us : List Text}

@[simp] theorem mem_insert : k ∈ insert t s ↔ k = t ∨ k ∈ s := by
  induction s with
  | nil => simp [insert]
  | cons u us ih =>
    rw [insert]
    split
    · next h => subst h; simp
    · split
      · simp
      · rw [List.mem_cons, List.mem_cons, ih, or_left_comm]

@[simp] theorem mem_ofList : k ∈ ofList ts ↔ k ∈ ts := by
  induction ts with
  | nil => exact Iff.rfl
  | cons t ts ih => rw [ofList, List.foldr_cons, mem_insert, ← ofList, ih, List.mem_cons]

theorem pairwise_insert (h : s.Pairwise (· < ·)) : (insert t s).Pairwise (· < ·) := by
  induction s with
  | nil => exact List.pairwise_singleton ..
  | cons u us ih =>
    rw [List.pairwise_cons] at h
    rw [insert]
    split
    · exact List.pairwise_cons.2 h
    · next hne =>
      split
      · next hle =>
        have htu : t < u := lt_of_le_of_ne (le_iff.1 hle) hne
        refine List.pairwise_cons.2 ⟨fun v hv => ?_, List.pairwise_cons.2 h⟩
        rcases List.mem_cons.1 hv with rfl | hv
        · exact htu
        · exact htu.trans (h.1 v hv)
      · next hle =>
        have hut : u < t := lt_of_not_ge fun htu => hle (le_iff.2 htu)
        refine List.pairwise_cons.2 ⟨fun v hv => ?_, ih h.2⟩
        rcases mem_insert.1 hv with rfl | hv
        · exact hut
        · exact h.1 v hv

theorem pairwise_ofList : (ofList ts).Pairwise (· < ·) := by
  induction ts with
  | nil => exact .nil
  | cons t ts ih => exact pairwise_insert ih

@[simp] theorem mem_erase : k ∈ erase t s ↔ k ∈ s ∧ k ≠ t := by
  rw [erase, List.mem_filter, decide_eq_true_iff]

theorem eq_of_mem_iff {s₁ s₂ : SortedSet} (h₁ : s₁.Pairwise (· < ·)) (h₂ : s₂.Pairwise (· < ·))
    (h : ∀ t, t ∈ s₁ ↔ t ∈ s₂) : s₁ = s₂ :=
  @eq_of_pairwise_lt _ id _ _ h₁ h₂ h

end Text.SortedSet

namespace KeyCount

/-- What stands at a key that was added `n` times. -/
def stored (k : Text) (n : Nat) : Option Nat := if k = [] ∨ n = 0 then none else some n

def Counts (c : KeyCount) (ks : List Text) : Prop := ∀ k, c.get? k = stored k (ks.count k)

variable {c : KeyCount} {k : Text} {ks js : List Text}

theorem counts_nil : Counts [] [] := fun k => by simp [Table.get?, stored]

theorem Counts.perm (h : Counts c ks) (hp : ks.Perm js) : Counts c js :=
  fun k => (h k).trans (by rw [hp.count_eq])

theorem Counts.add (h : Counts c ks) : Counts (c.add k) (k :: ks) := by
  intro l
  rw [KeyCount.add]
  by_cases hk : k = []
  · subst hk
    rw [if_pos rfl, h l]
    by_cases hl : l = []
    · simp [stored, hl]
    · rw [List.count_cons_of_ne (Ne.symm hl)]
  · rw [if_neg hk, Table.get?_alter]
    by_cases hl : k = l
    · subst hl
      rw [if_pos rfl, h k, List.count_cons_self]
      by_cases hn : ks.count k = 0 <;> simp [stored, hk, hn]
    · rw [if_neg hl, h l, List.count_cons_of_ne hl]

theorem Counts.erase (h : Counts c (k :: ks)) : Counts (c.erase k) ks := by
  intro l
  rw [KeyCount.erase, Table.get?_alter]
  by_cases hl : k = l
  · subst hl
    rw [if_pos rfl, h k, List.count_cons_self]
    by_cases hk : k = []
    · simp [stored, hk]
    · cases hn : ks.count k <;> simp [stored, hk]
  · rw [if_neg hl, h l, List.count_cons_of_ne hl]

/-! ## What is known -/

def known (c : KeyCount) : Text.SortedSet := Text.SortedSet.ofList c.keys

@[simp] theorem mem_known : k ∈ c.known ↔ c.contains k = true := by
  rw [known, Text.SortedSet.mem_ofList, Table.mem_keys, contains]

theorem contains_add {l : Text} (hk : k ≠ []) :
    (c.add k).contains l = true ↔ l = k ∨ c.contains l = true := by
  rw [contains, KeyCount.add, if_neg hk, Table.get?_alter]
  by_cases hl : k = l
  · simp [hl]
  · simp [hl, Ne.symm hl, contains]

theorem contains_erase_of_ne {l : Text} (hl : l ≠ k) :
    (c.erase k).contains l = c.contains l := by
  rw [contains, KeyCount.erase, Table.get?_alter, if_neg hl.symm, contains]

theorem Counts.contains_iff (h : Counts c ks) : c.contains k = true ↔ k ≠ [] ∧ k ∈ ks := by
  rw [contains, h k, stored]
  by_cases hk : k = []
  · simp [hk]
  · by_cases hn : ks.count k = 0
    · simp [hn, List.count_eq_zero.1 hn]
    · simp [hk, hn, List.count_pos_iff.1 (Nat.pos_of_ne_zero hn)]

end KeyCount

namespace KeySet

open Text

variable {s s' : KeySet} {k l : Text} {ks js : List Text}

/-! ## The keys at hand -/

@[simp] theorem counts_add : (s.add k).counts = s.counts.add k := by
  rw [add, KeyCount.add]
  split <;> rfl

/-- Of an unknown key no adding is taken back. -/
@[simp] theorem counts_erase : (s.erase k).counts = s.counts.erase k := by
  rw [erase]
  split
  · rfl
  · next hk =>
    have hnone : s.counts.get? k = none := by simpa [KeyCount.contains] using hk
    exact (Table.alter_self (by rw [hnone])).symm

/-- What is kept as known is what is counted, if it is sorted and has the same members. -/
theorem known_iff : s.known = s.counts.known ↔
    s.known.Pairwise (· < ·) ∧ ∀ l, l ∈ s.known ↔ s.counts.contains l = true := by
  constructor
  · intro h
    exact h ▸ ⟨SortedSet.pairwise_ofList, fun l => KeyCount.mem_known⟩
  · rintro ⟨hsorted, hmem⟩
    exact SortedSet.eq_of_mem_iff hsorted SortedSet.pairwise_ofList fun l =>
      (hmem l).trans KeyCount.mem_known.symm

theorem known_add (h : s.known = s.counts.known) : (s.add k).known = (s.add k).counts.known := by
  obtain ⟨hsorted, hmem⟩ := known_iff.1 h
  rw [known_iff, counts_add, add]
  by_cases hk : k = []
  · rw [if_pos hk, KeyCount.add, if_pos hk]
    exact ⟨hsorted, hmem⟩
  rw [if_neg hk]
  dsimp only
  split
  · next hold =>
    refine ⟨hsorted, fun l => ?_⟩
    rw [KeyCount.contains_add hk, hmem, or_iff_right_of_imp]
    rintro rfl
    exact hold
  · refine ⟨SortedSet.pairwise_insert hsorted, fun l => ?_⟩
    rw [SortedSet.mem_insert, KeyCount.contains_add hk, hmem]

theorem known_erase (h : s.known = s.counts.known) :
    (s.erase k).known = (s.erase k).counts.known := by
  obtain ⟨hsorted, hmem⟩ := known_iff.1 h
  by_cases hk : s.counts.contains k = true
  · rw [known_iff, counts_erase, erase, if_pos hk]
    dsimp only
    split
    · next hstays =>
      refine ⟨hsorted, fun l => ?_⟩
      by_cases hl : l = k
      · simp [hl, hmem, hk, hstays]
      · rw [hmem, KeyCount.contains_erase_of_ne hl]
    · next hgone =>
      refine ⟨hsorted.filter _, fun l => ?_⟩
      by_cases hl : l = k
      · simp [hl, hgone]
      · simp [hl, hmem, KeyCount.contains_erase_of_ne hl]
  · rwa [erase, if_neg hk]

/-! ## What is counted -/

structure Counts (s : KeySet) (ks : List Text) : Prop where
  counts : s.counts.Counts ks
  known : s.known = s.counts.known

theorem counts_nil : Counts {} [] := ⟨KeyCount.counts_nil, rfl⟩

theorem Counts.perm (h : Counts s ks) (hp : ks.Perm js) : Counts s js :=
  ⟨h.counts.perm hp, h.known⟩

theorem Counts.add (h : Counts s ks) : Counts (s.add k) (k :: ks) :=
  ⟨counts_add ▸ h.counts.add, known_add h.known⟩

theorem Counts.erase (h : Counts s (k :: ks)) : Counts (s.erase k) ks :=
  ⟨counts_erase ▸ h.counts.erase, known_erase h.known⟩

theorem Counts.addAll (h : Counts s ks) : Counts (js.foldl (fun s k => s.add k) s) (js ++ ks) := by
  induction js generalizing s ks with
  | nil => exact h
  | cons j js ih => exact (ih h.add).perm List.perm_middle

theorem Counts.eraseAll (h : Counts s (js ++ ks)) :
    Counts (js.foldl (fun s k => s.erase k) s) ks := by
  induction js generalizing s with
  | nil => exact h
  | cons j js ih => exact ih h.erase

/-! ## The keys of listed things -/

variable {α : Type} {keys : α → List Text} {as bs : List α} {a : α}

theorem Counts.insert (h : Counts s (as.flatMap keys)) :
    Counts ((keys a).foldl (fun s k => s.add k) s) ((as ++ [a]).flatMap keys) := by
  refine h.addAll.perm ?_
  rw [List.flatMap_append, List.flatMap_singleton]
  exact List.perm_append_comm

theorem Counts.remove (h : Counts s ((as ++ a :: bs).flatMap keys)) :
    Counts ((keys a).foldl (fun s k => s.erase k) s) ((as ++ bs).flatMap keys) := by
  refine eraseAll (h.perm ?_)
  rw [List.flatMap_append, List.flatMap_cons, List.flatMap_append, ← List.append_assoc,
    ← List.append_assoc]
  exact List.perm_append_comm.append_right _

theorem Counts.contains_iff (h : Counts s ks) : s.contains k = true ↔ k ≠ [] ∧ k ∈ ks :=
  h.counts.contains_iff

theorem Counts.contains_eq (h : Counts s ks) (h' : Counts s' ks) :
    s'.contains k = s.contains k := by
  rw [Bool.eq_iff_iff, h.contains_iff, h'.contains_iff]

/-- The known keys are those counted, without the empty one. -/
theorem Counts.mem_known (h : Counts s ks) : k ∈ s.known ↔ k ≠ [] ∧ k ∈ ks := by
  rw [h.known, KeyCount.mem_known, h.counts.contains_iff]

theorem Counts.known_eq (h : Counts s ks) (h' : Counts s' ks) : s'.known = s.known :=
  SortedSet.eq_of_mem_iff (known_iff.1 h'.known).1 (known_iff.1 h.known).1 fun k => by
    rw [h.mem_known, h'.mem_known]

end KeySet

end GameScript
