import GameScript.Store.Table
import Mathlib.Data.List.Nodup
import Mathlib.Data.List.Perm.Basic

/-!
# The entries of a table

A table has one entry for each key, as long as its keys differ: `mem_iff` ties the entries to what
the keys hold, and changes of a table keep its keys different. Changes of one key are put together
by `alter_alter`, and one that changes nothing there leaves the table as it is.
-/

namespace GameScript.Table

variable {κ α : Type} [DecidableEq κ] {t t' : Table κ α} {k l : κ} {a b : α}

theorem mem_keys : k ∈ t.keys ↔ (t.get? k).isSome = true := by
  induction t with
  | nil => simp [keys, get?]
  | cons e t ih =>
    obtain ⟨l, a⟩ := e
    by_cases hl : l = k
    · simp [keys, get?, hl]
    · have hmem : k ∈ keys ((l, a) :: t) ↔ k ∈ keys t := by simp [keys, Ne.symm hl]
      rw [hmem, ih]
      simp [get?, hl]

theorem mem_of_get? (h : t.get? k = some a) : (k, a) ∈ t := by
  induction t with
  | nil => cases h
  | cons e t ih =>
    obtain ⟨m, b⟩ := e
    rw [get?] at h
    split at h
    · next hm =>
      obtain rfl := Option.some.inj h
      subst hm
      exact List.mem_cons_self
    · exact List.mem_cons_of_mem _ (ih h)

theorem mem_iff (hd : t.keys.Nodup) : (k, a) ∈ t ↔ t.get? k = some a := by
  refine ⟨fun h => ?_, mem_of_get?⟩
  induction t with
  | nil => cases h
  | cons e t ih =>
    obtain ⟨m, b⟩ := e
    have hd : m ∉ keys t ∧ (keys t).Nodup := List.nodup_cons.1 hd
    rcases List.mem_cons.1 h with he | ht
    · obtain ⟨rfl, rfl⟩ := Prod.mk.inj he
      simp [get?]
    · have hmk : m ≠ k := fun hmk => hd.1 (hmk ▸ List.mem_map_of_mem (f := (·.1)) ht)
      simp [get?, hmk, ih hd.2 ht]

theorem mem_keys_set : l ∈ (t.set k a).keys ↔ l = k ∨ l ∈ t.keys := by
  induction t with
  | nil => simp [set, keys]
  | cons e t ih =>
    obtain ⟨m, b⟩ := e
    by_cases hm : m = k
    · subst hm
      simp [set, keys]
    · simp only [set, if_neg hm, keys, List.map_cons, List.mem_cons] at ih ⊢
      rw [ih, or_left_comm]

theorem nodup_keys_set (hd : t.keys.Nodup) : (t.set k a).keys.Nodup := by
  induction t with
  | nil => simp [set, keys]
  | cons e t ih =>
    obtain ⟨m, b⟩ := e
    have hd : m ∉ keys t ∧ (keys t).Nodup := List.nodup_cons.1 hd
    rw [set]
    split
    · next hm =>
      subst hm
      exact List.nodup_cons.2 hd
    · next hm =>
      refine List.nodup_cons.2 ⟨fun hmem => ?_, ih hd.2⟩
      rcases mem_keys_set.1 hmem with h | h
      · exact hm h
      · exact hd.1 h

theorem nodup_keys_alter {change : Option α → Option α} (hd : t.keys.Nodup) :
    (t.alter k change).keys.Nodup := by
  rw [alter]
  split
  · exact nodup_keys_set hd
  · exact hd.sublist (List.filter_sublist.map _)

/-! ## Changes of one key -/

theorem set_set : (t.set k a).set k b = t.set k b := by
  induction t with
  | nil => simp [set]
  | cons e t ih =>
    obtain ⟨m, c⟩ := e
    by_cases hm : m = k <;> simp [set, hm, ih]

theorem erase_set : (t.set k a).erase k = t.erase k := by
  induction t with
  | nil => simp [set, erase]
  | cons e t ih =>
    obtain ⟨m, c⟩ := e
    have ih : (set k a t).filter (·.1 ≠ k) = t.filter (·.1 ≠ k) := ih
    by_cases hm : m = k <;> simp_all [set, erase]

theorem set_self (h : t.get? k = some a) : t.set k a = t := by
  induction t with
  | nil => cases h
  | cons e t ih =>
    obtain ⟨m, c⟩ := e
    by_cases hm : m = k
    · rw [get?, if_pos hm] at h
      obtain rfl := Option.some.inj h
      simp [set, hm]
    · rw [get?, if_neg hm] at h
      simp [set, hm, ih h]

theorem erase_self (h : t.get? k = none) : t.erase k = t := by
  refine List.filter_eq_self.2 fun e he => decide_eq_true fun hk => ?_
  have hmem : k ∈ t.keys := hk ▸ List.mem_map_of_mem he
  rw [mem_keys, h] at hmem
  cases hmem

theorem alter_eq_set {change : Option α → Option α} (h : change (t.get? k) = some a) :
    t.alter k change = t.set k a := by
  rw [alter, h]

theorem alter_congr {change change' : Option α → Option α}
    (h : change (t.get? k) = change' (t.get? k)) : t.alter k change = t.alter k change' := by
  rw [alter, alter, h]

theorem alter_self {change : Option α → Option α} (h : change (t.get? k) = t.get? k) :
    t.alter k change = t := by
  rw [alter, h]
  cases hk : t.get? k with
  | none => exact erase_self hk
  | some a => exact set_self hk

/-- Two changes at a key, the first of which leaves something there. -/
theorem alter_alter {change change' : Option α → Option α} (h : change (t.get? k) = some a) :
    (t.alter k change).alter k change' = t.alter k fun o => change' (change o) := by
  rw [alter, get?_alter, if_pos rfl]
  simp only [alter, h]
  cases change' (some a) with
  | none => exact erase_set
  | some b => exact set_set

theorem forall₂_set {R : κ × α → κ × α → Prop} (hR : ∀ e, R e e) (h : t.get? k = some a)
    (hab : R (k, a) (k, b)) : List.Forall₂ R t (t.set k b) := by
  induction t with
  | nil => cases h
  | cons e t ih =>
    obtain ⟨m, c⟩ := e
    by_cases hm : m = k
    · subst hm
      rw [get?, if_pos rfl] at h
      obtain rfl := Option.some.inj h
      rw [set, if_pos rfl]
      exact .cons hab (List.forall₂_same.2 fun e _ => hR e)
    · rw [get?, if_neg hm] at h
      rw [set, if_neg hm]
      exact .cons (hR _) (ih h)

/-- Tables that hold the same are the same but for the order of their entries. -/
theorem perm_of_get?_eq (hd : t.keys.Nodup) (hd' : t'.keys.Nodup)
    (h : ∀ k, t.get? k = t'.get? k) : t.Perm t' := by
  refine (List.perm_ext_iff_of_nodup hd.of_map hd'.of_map).2 ?_
  rintro ⟨k, a⟩
  rw [mem_iff hd, mem_iff hd', h]

end GameScript.Table
