import GameScript.Store.Index
import Mathlib.Data.List.Nodup

/-!
# What an index lists

`i.Lists key hs` says that under each key `i` has the handles of `hs` with that key, in the order
of `hs`. A definition for which `key` gives nothing is not listed. When objects are added again
while they are stored, that is not kept; what an index lists is still stored (`i.Within key hs`).
-/

namespace GameScript.Index

variable {κ : Type} [DecidableEq κ] {i : Index κ} {k l : κ} {h : Handle}

@[simp]
theorem under_insert : (i.insert k h).under l = if k = l then i.under k ++ [h] else i.under l := by
  rw [under, Index.insert, Table.get?_alter]
  split
  · rfl
  · rfl

@[simp] theorem under_erase :
    (i.erase k h).under l =
      if k = l then (i.under k).filter (·.number ≠ h.number) else i.under l := by
  rw [under, Index.erase, Table.get?_alter]
  split
  · rw [under]
    cases hf : ((i.get? k).getD []).filter (·.number ≠ h.number) <;> rfl
  · rfl

def Lists (i : Index κ) (key : Definition → Option κ) (hs : List Handle) : Prop :=
  ∀ k, i.under k = hs.filter (key ·.definition = some k)

variable {key : Definition → Option κ} {hs hs₁ hs₂ : List Handle}

theorem lists_nil : Lists ([] : Index κ) key [] := fun _ => rfl

/-- Adding a handle under its key, if it has one, puts it at the end of the list. -/
theorem Lists.insert (hi : Lists i key hs) :
    Lists ((key h.definition).elim i (i.insert · h)) key (hs ++ [h]) := by
  intro l
  rw [List.filter_append]
  cases hk : key h.definition with
  | none => simp [hi l, hk]
  | some k =>
    rw [Option.elim, under_insert]
    by_cases hl : k = l
    · subst hl
      simp [hi k, hk]
    · simp [hi l, hk, hl]

/-- No other handle has the number of one in the middle of a list. -/
theorem filter_number (hd : ((hs₁ ++ h :: hs₂).map (·.number)).Nodup) :
    (hs₁ ++ h :: hs₂).filter (·.number ≠ h.number) = hs₁ ++ hs₂ := by
  rw [List.map_append, List.map_cons, List.nodup_append, List.nodup_cons] at hd
  obtain ⟨-, ⟨hafter, -⟩, hbefore⟩ := hd
  have h₁ : hs₁.filter (·.number ≠ h.number) = hs₁ := List.filter_eq_self.2 fun a ha =>
    decide_eq_true (hbefore _ (List.mem_map_of_mem ha) _ List.mem_cons_self)
  have h₂ : hs₂.filter (·.number ≠ h.number) = hs₂ := List.filter_eq_self.2 fun a ha =>
    decide_eq_true fun hn => hafter (hn ▸ List.mem_map_of_mem ha)
  rw [List.filter_append, h₁, List.filter_cons_of_neg (by simp), h₂]

/-- Removing an object takes every one of its handles out of the list. -/
theorem Lists.erase_all (hi : Lists i key hs) (hsame : ∀ g ∈ hs, g.number = h.number → g = h) :
    Lists ((key h.definition).elim i (i.erase · h)) key (hs.filter (·.number ≠ h.number)) := by
  intro l
  by_cases hl : key h.definition = some l
  · rw [hl, Option.elim, under_erase, if_pos rfl, hi l, List.filter_filter, List.filter_filter]
    simp only [Bool.and_comm]
  · have hother : ((key h.definition).elim i (i.erase · h)).under l = i.under l := by
      cases hk : key h.definition with
      | none => rfl
      | some k => rw [Option.elim, under_erase, if_neg fun hkl => hl (hk.trans (congrArg some hkl))]
    rw [hother, hi l, List.filter_filter]
    -- the handles of the object have another key
    refine List.filter_congr fun g hg => ?_
    by_cases hn : g.number = h.number
    · rw [hsame g hg hn]
      simp [hl]
    · simp [hn]

/-- Removing a handle takes it out of the list, when no other has its number. -/
theorem Lists.erase (hi : Lists i key (hs₁ ++ h :: hs₂))
    (hd : ((hs₁ ++ h :: hs₂).map (·.number)).Nodup) :
    Lists ((key h.definition).elim i (i.erase · h)) key (hs₁ ++ hs₂) := by
  rw [← filter_number hd]
  refine hi.erase_all fun g hg hn => ?_
  exact List.inj_on_of_nodup_map hd hg (List.mem_append_right _ List.mem_cons_self) hn

/-- What is listed under the key of a definition is searched for it as the whole list is. -/
theorem Lists.find?_under {d : Definition} (hi : Lists i key hs) (hk : key d = some k) :
    (i.under k).find? (·.definition = d) = hs.find? (·.definition = d) := by
  have hkey : ∀ h : Handle, (decide (key h.definition = some k) = true ∧
      decide (h.definition = d) = true) ↔ h.definition = d := by
    intro h
    by_cases hd : h.definition = d <;> simp [hd, hk]
  rw [hi, List.find?_filter]
  simp only [hkey]

/-! ## Objects that are listed again -/

/-- What is listed under a key is a handle of `hs` with that key, perhaps not every one and not
just once. -/
def Within (i : Index κ) (key : Definition → Option κ) (hs : List Handle) : Prop :=
  ∀ k, ∀ h ∈ i.under k, key h.definition = some k ∧ h ∈ hs

theorem within_nil : Within ([] : Index κ) key [] := by rintro k h ⟨⟩

theorem Within.insert (hi : Within i key hs) :
    Within ((key h.definition).elim i (i.insert · h)) key (hs ++ [h]) := by
  have hold : Within i key (hs ++ [h]) := fun l g hg =>
    ⟨(hi l g hg).1, List.mem_append_left _ (hi l g hg).2⟩
  cases hk : key h.definition with
  | none => exact hold
  | some k =>
    intro l g hg
    rw [Option.elim, under_insert] at hg
    split at hg
    · next hkl =>
      subst hkl
      rcases List.mem_append.1 hg with hg | hg
      · exact hold k g hg
      · obtain rfl := List.mem_singleton.1 hg
        exact ⟨hk, List.mem_append_right _ hg⟩
    · exact hold l g hg

/-- Removing an object lists it no more, so that just the other handles have to stay. -/
theorem Within.erase (hi : Within i key hs₁) (hstay : ∀ g ∈ hs₁, g ≠ h → g ∈ hs₂) :
    Within ((key h.definition).elim i (i.erase · h)) key hs₂ := by
  intro l g hg
  by_cases hl : key h.definition = some l
  · rw [hl, Option.elim, under_erase, if_pos rfl, List.mem_filter] at hg
    obtain ⟨hkey, hmem⟩ := hi l g hg.1
    refine ⟨hkey, hstay g hmem ?_⟩
    rintro rfl
    simp at hg
  · have hother : ((key h.definition).elim i (i.erase · h)).under l = i.under l := by
      cases hk : key h.definition with
      | none => rfl
      | some k => rw [Option.elim, under_erase, if_neg fun hkl => hl (hk.trans (congrArg some hkl))]
    rw [hother] at hg
    obtain ⟨hkey, hmem⟩ := hi l g hg
    refine ⟨hkey, hstay g hmem ?_⟩
    rintro rfl
    exact hl hkey

/-- Removing a new object right after it was added. -/
theorem under_erase_insert (hnew : ∀ g ∈ i.under k, g.number ≠ h.number) :
    ((i.insert k h).erase k h).under l = i.under l := by
  rw [under_erase]
  split
  · next hkl =>
    subst hkl
    rw [under_insert, if_pos rfl, List.filter_append,
      List.filter_eq_self.2 fun g hg => decide_eq_true (hnew g hg)]
    simp
  · next hkl => rw [under_insert, if_neg hkl]

theorem Within.under_undo (hi : Within i key hs) (hnew : ∀ g ∈ hs, g.number ≠ h.number) (l : κ) :
    ((key h.definition).elim ((key h.definition).elim i (i.insert · h))
      (((key h.definition).elim i (i.insert · h)).erase · h)).under l = i.under l := by
  cases key h.definition with
  | none => rfl
  | some k => exact under_erase_insert fun g hg => hnew g (hi k g hg).2

end GameScript.Index
