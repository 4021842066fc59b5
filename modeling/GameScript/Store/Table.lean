/-!
# Tables

A table is a list of keyed entries, in the order in which their keys were first set. What it
holds is read off through `get?`: `get?_alter` says what a change of one key does to every key.
-/

namespace GameScript

abbrev Table (κ α : Type) := List (κ × α)

namespace Table

variable {κ α : Type} [DecidableEq κ]

def get? (k : κ) : Table κ α → Option α
  | [] => none
  | (l, a) :: t => if l = k then some a else get? k t

/-- Replaces the entry of a key, or adds one at the end. -/
def set (k : κ) (a : α) : Table κ α → Table κ α
  | [] => [(k, a)]
  | (l, b) :: t => if l = k then (k, a) :: t else (l, b) :: set k a t

def erase (k : κ) (t : Table κ α) : Table κ α := t.filter (·.1 ≠ k)

/-- Changes what stands at a key, where `none` stands for no entry. -/
def alter (k : κ) (change : Option α → Option α) (t : Table κ α) : Table κ α :=
  match change (get? k t) with
  | some a => set k a t
  | none => erase k t

def keys (t : Table κ α) : List κ := t.map (·.1)

/-! ## What a key holds -/

@[simp] theorem get?_set (k l : κ) (a : α) (t : Table κ α) :
    get? l (set k a t) = if k = l then some a else get? l t := by
  induction t with
  | nil => simp [set, get?]
  | cons e t ih =>
    obtain ⟨m, b⟩ := e
    by_cases hm : m = k
    · subst hm
      by_cases hl : m = l <;> simp [set, get?, hl]
    · by_cases hl : m = l
      · subst hl
        simp [set, get?, hm, Ne.symm hm]
      · simp [set, get?, hm, hl, ih]

@[simp] theorem get?_erase (k l : κ) (t : Table κ α) :
    get? l (erase k t) = if k = l then none else get? l t := by
  induction t with
  | nil => simp [erase, get?]
  | cons e t ih =>
    obtain ⟨m, b⟩ := e
    have ih : get? l (t.filter (·.1 ≠ k)) = if k = l then none else get? l t := ih
    by_cases hm : m = k
    · subst hm
      by_cases hl : m = l <;> simp_all [erase, get?]
    · by_cases hl : m = l
      · subst hl
        simp [erase, get?, hm, Ne.symm hm]
      · simp_all [erase, get?]

@[simp] theorem get?_alter (k l : κ) (change : Option α → Option α) (t : Table κ α) :
    get? l (alter k change t) = if k = l then change (get? k t) else get? l t := by
  unfold alter
  split <;> rename_i h <;> simp [h]

end Table

end GameScript
