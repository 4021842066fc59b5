import GameScript.Proofs.Store.Sharing

/-!
# What is stored and what is listed

An object that was added several times is stored several times. A removal takes one of these
entries out of the stored ones, but every one out of the indexes. A stock keeps both lists and
says what each operation does to them. After every run the indexes list just what the stock lists
(`Store.performAll_holds`), which is what is stored as long as no removal takes out an object that
is stored more than once (`Stock.Sound.afterAll_eq_iff`).
-/

namespace GameScript

structure Stock where
  /-- The handles of the entries, in the order of adding. -/
  stored : List Handle := []
  /-- The handles that the indexes list. -/
  listed : List Handle := []
  /-- A number that no handle has yet. -/
  next : Nat := 0

namespace Stock

def add (k : Stock) (h : Handle) : Stock where
  stored := k.stored ++ [h]
  listed := k.listed ++ [h]
  next := max k.next (h.number + 1)

def drop (k : Stock) (h : Handle) : Stock where
  stored := k.stored.eraseP (·.number = h.number)
  listed := k.listed.filter (·.number ≠ h.number)
  next := k.next

def target? (k : Stock) (d : Definition) : Option Handle := k.listed.find? (·.definition = d)

def afterChange (k : Stock) : Change → Stock
  | .addAll ds _ => ds.foldl (fun k d => k.add ⟨k.next, d⟩) k
  | .add d _ => k.add ⟨k.next, d⟩
  | .remove d => (k.target? d).elim k k.drop
  | .startSearch => k
  | .setReset _ => k

def after (k : Stock) : Operation → Stock
  | .change change => k.afterChange change
  | .share h _ => k.add h

def afterAll (k : Stock) (ops : List Operation) : Stock := ops.foldl after k

/-- Whether an object that is added again is one and the same as before. -/
def Fits (k : Stock) : Operation → Prop
  | .change _ => True
  | .share h _ => ∀ g ∈ k.stored, g.number = h.number → g = h

/-- Whether the object that is removed, if any, is stored just once. -/
def TakesLast (k : Stock) : Operation → Prop
  | .change (.remove d) =>
    ∀ h ∈ k.target? d, k.stored.countP (·.number = h.number) = 1
  | _ => True

/-- Whether every operation of a run has a property of the stock that it is performed on. -/
def Throughout (P : Stock → Operation → Prop) (k : Stock) : List Operation → Prop
  | [] => True
  | op :: ops => P k op ∧ (k.after op).Throughout P ops

instance (k : Stock) : (op : Operation) → Decidable (k.Fits op)
  | .change _ => .isTrue trivial
  | .share h _ => inferInstanceAs (Decidable (∀ g ∈ k.stored, g.number = h.number → g = h))

instance decidableThroughout {P : Stock → Operation → Prop} [∀ k op, Decidable (P k op)]
    (k : Stock) : (ops : List Operation) → Decidable (k.Throughout P ops)
  | [] => .isTrue trivial
  | op :: ops =>
    have := decidableThroughout (P := P) (k.after op) ops
    inferInstanceAs (Decidable (P k op ∧ (k.after op).Throughout P ops))

/-! ## Stored and listed -/

structure Sound (k : Stock) : Prop where
  fresh : ∀ h ∈ k.stored, h.number < k.next
  /-- A number stands for one object. -/
  same : ∀ g ∈ k.stored, ∀ h ∈ k.stored, g.number = h.number → g = h
  sublist : k.listed.Sublist k.stored

variable {k : Stock} {h : Handle} {d : Definition} {op : Operation} {ops : List Operation}

theorem sound_empty : Sound {} where
  fresh := by rintro h ⟨⟩
  same := by rintro g ⟨⟩
  sublist := List.Sublist.refl _

theorem Sound.add (hk : Sound k) (hfits : ∀ g ∈ k.stored, g.number = h.number → g = h) :
    Sound (k.add h) where
  fresh := by
    intro g hg
    show g.number < max k.next (h.number + 1)
    rcases List.mem_append.1 hg with hg | hg
    · have := hk.fresh g hg
      omega
    · obtain rfl := List.mem_singleton.1 hg
      omega
  same := by
    intro f hf g hg hn
    rcases List.mem_append.1 hf with hf | hf <;> rcases List.mem_append.1 hg with hg | hg
    · exact hk.same f hf g hg hn
    · cases List.mem_singleton.1 hg
      exact hfits f hf hn
    · cases List.mem_singleton.1 hf
      exact (hfits g hg hn.symm).symm
    · rw [List.mem_singleton.1 hf, List.mem_singleton.1 hg]
  sublist := hk.sublist.append (List.Sublist.refl _)

theorem Sound.fits_next (hk : Sound k) (d : Definition) :
    ∀ g ∈ k.stored, g.number = (⟨k.next, d⟩ : Handle).number → g = ⟨k.next, d⟩ := by
  intro g hg hn
  have hlt := hk.fresh g hg
  rw [hn] at hlt
  exact absurd hlt (Nat.lt_irrefl _)

theorem filter_sublist_eraseP {α : Type} (p : α → Bool) (l : List α) :
    (l.filter (!p ·)).Sublist (l.eraseP p) := by
  induction l with
  | nil => exact List.Sublist.refl _
  | cons a l ih =>
    cases ha : p a with
    | true =>
      rw [List.filter_cons_of_neg (by simp [ha]), List.eraseP_cons_of_pos ha]
      exact List.filter_sublist
    | false =>
      rw [List.filter_cons_of_pos (by simp [ha]), List.eraseP_cons_of_neg (by simp [ha])]
      exact ih.cons_cons a

theorem Sound.drop (hk : Sound k) (h : Handle) : Sound (k.drop h) where
  fresh g hg := hk.fresh g (List.mem_of_mem_eraseP hg)
  same f hf g hg := hk.same f (List.mem_of_mem_eraseP hf) g (List.mem_of_mem_eraseP hg)
  sublist := by
    have hfilter := filter_sublist_eraseP (fun g : Handle => g.number = h.number) k.stored
    simp only [← decide_not] at hfilter
    exact (hk.sublist.filter _).trans hfilter

theorem Sound.addAll (hk : Sound k) (ds : List Definition) :
    Sound (ds.foldl (fun k d => k.add ⟨k.next, d⟩) k) := by
  induction ds generalizing k with
  | nil => exact hk
  | cons d ds ih => exact ih (hk.add (hk.fits_next d))

theorem Sound.after (hk : Sound k) (hfits : k.Fits op) : Sound (k.after op) := by
  cases op with
  | share h hidden => exact hk.add hfits
  | change change =>
    cases change with
    | addAll ds keepsOutline => exact hk.addAll ds
    | add d hidden => exact hk.add (hk.fits_next d)
    | remove d =>
      show Sound ((k.target? d).elim k k.drop)
      cases k.target? d with
      | none => exact hk
      | some h => exact hk.drop h
    | startSearch => exact hk
    | setReset d => exact hk

theorem Sound.afterAll (hk : Sound k) (hfits : k.Throughout Fits ops) : Sound (k.afterAll ops) := by
  induction ops generalizing k with
  | nil => exact hk
  | cons op ops ih => exact ih (hk.after hfits.1) hfits.2

theorem Sound.eq_iff_length (hk : Sound k) :
    k.listed = k.stored ↔ k.listed.length = k.stored.length :=
  ⟨congrArg _, hk.sublist.eq_of_length⟩

theorem mem_of_target? (ht : k.target? d = some h) : h ∈ k.listed ∧ h.definition = d :=
  ⟨List.mem_of_find?_eq_some ht, by simpa using List.find?_some ht⟩

/-- How many entries a removal leaves. -/
theorem length_drop_stored (hmem : h ∈ k.stored) :
    (k.drop h).stored.length + 1 = k.stored.length := by
  show (k.stored.eraseP _).length + 1 = _
  rw [List.length_eraseP_of_mem hmem (by simp)]
  have := List.length_pos_of_mem hmem
  omega

theorem length_drop_listed :
    (k.drop h).listed.length + k.listed.countP (·.number = h.number) = k.listed.length := by
  show (k.listed.filter _).length + _ = _
  rw [← List.countP_eq_length_filter, Nat.add_comm,
    List.length_eq_countP_add_countP (·.number = h.number)]
  simp

theorem add_eq_iff : (k.add h).listed = (k.add h).stored ↔ k.listed = k.stored :=
  List.append_left_inj [h]

theorem addAll_eq_iff {ds : List Definition} :
    (ds.foldl (fun k d => k.add ⟨k.next, d⟩) k).listed =
        (ds.foldl (fun k d => k.add ⟨k.next, d⟩) k).stored ↔ k.listed = k.stored := by
  induction ds generalizing k with
  | nil => exact Iff.rfl
  | cons d ds ih => exact ih.trans add_eq_iff

/-- Removing a listed object leaves the lists the same when it was stored once. -/
theorem Sound.drop_eq_iff (hk : Sound k) (hh : h ∈ k.listed) :
    (k.drop h).listed = (k.drop h).stored ↔
      k.listed = k.stored ∧ k.stored.countP (·.number = h.number) = 1 := by
  have hstored := length_drop_stored (hk.sublist.mem hh)
  have hlisted := length_drop_listed (k := k) (h := h)
  have hle := hk.sublist.length_le
  have hpos : 0 < k.listed.countP (·.number = h.number) := List.countP_pos_iff.2 ⟨h, hh, by simp⟩
  rw [(hk.drop h).eq_iff_length]
  constructor
  · intro hlength
    have heq : k.listed = k.stored := hk.eq_iff_length.2 (by omega)
    rw [heq] at hlisted hpos
    exact ⟨heq, by omega⟩
  · rintro ⟨heq, hone⟩
    rw [heq, hone] at hlisted
    omega

theorem Sound.after_eq_iff (hk : Sound k) :
    (k.after op).listed = (k.after op).stored ↔ k.listed = k.stored ∧ k.TakesLast op := by
  cases op with
  | share h hidden => exact add_eq_iff.trans (and_iff_left trivial).symm
  | change change =>
    cases change with
    | addAll ds keepsOutline => exact addAll_eq_iff.trans (and_iff_left trivial).symm
    | add d hidden => exact add_eq_iff.trans (and_iff_left trivial).symm
    | remove d =>
      show ((k.target? d).elim k k.drop).listed = ((k.target? d).elim k k.drop).stored ↔
        k.listed = k.stored ∧ ∀ h ∈ k.target? d, k.stored.countP (·.number = h.number) = 1
      cases ht : k.target? d with
      | none => simp
      | some h => simpa using hk.drop_eq_iff (mem_of_target? ht).1
    | startSearch => exact (and_iff_left trivial).symm
    | setReset d => exact (and_iff_left trivial).symm

/-- What is stored is listed, unless an object was removed while it was stored more than once. -/
theorem Sound.afterAll_eq_iff (hk : Sound k) (hfits : k.Throughout Fits ops) :
    (k.afterAll ops).listed = (k.afterAll ops).stored ↔
      k.listed = k.stored ∧ k.Throughout TakesLast ops := by
  induction ops generalizing k with
  | nil => exact (and_iff_left trivial).symm
  | cons op ops ih =>
    show ((k.after op).afterAll ops).listed = ((k.after op).afterAll ops).stored ↔ _
    rw [ih (hk.after hfits.1) hfits.2, hk.after_eq_iff, and_assoc, Throughout]

end Stock

/-! ## The stock of a catalog -/

namespace Catalog

variable {c : Catalog} {k : Stock} {h : Handle} {d : Definition} {hidden : Bool}

/-- Every index of the catalog lists what the stock does. -/
structure Holds (c : Catalog) (k : Stock) : Prop where
  stored : c.handles = k.stored
  next : c.next = k.next
  byFile : c.byFile.Lists (fun d => some d.fileKey) k.listed
  byDiskFile : c.byDiskFile.Lists Definition.diskFileKey k.listed
  byDirectory : c.byDirectory.Lists (fun d => some d.directoryKey) k.listed
  byType : c.byType.Lists (fun d => some d.typeKey) k.listed
  byTypeAndId : c.byTypeAndId.Lists (fun d => some d.typeAndId) k.listed
  byKind : c.byKind.Lists (fun d => some d.kind) k.listed

theorem holds_empty : Holds {} {} where
  stored := rfl
  next := rfl
  byFile := Index.lists_nil
  byDiskFile := Index.lists_nil
  byDirectory := Index.lists_nil
  byType := Index.lists_nil
  byTypeAndId := Index.lists_nil
  byKind := Index.lists_nil

theorem Holds.insert (hc : Holds c k) : Holds (c.insert h hidden) (k.add h) where
  stored := by rw [handles_insert, hc.stored]; rfl
  next := congrArg (max · (h.number + 1)) hc.next
  byFile := hc.byFile.insert
  byDiskFile := hc.byDiskFile.insert
  byDirectory := hc.byDirectory.insert
  byType := hc.byType.insert
  byTypeAndId := hc.byTypeAndId.insert
  byKind := hc.byKind.insert

theorem Holds.add (hc : Holds c k) : Holds (c.add d hidden) (k.add ⟨k.next, d⟩) :=
  hc.next ▸ hc.insert

theorem Holds.addAll (hc : Holds c k) (ds : List Definition) :
    Holds (ds.foldl (·.add · false) c) (ds.foldl (fun k d => k.add ⟨k.next, d⟩) k) := by
  induction ds generalizing c k with
  | nil => exact hc
  | cons d ds ih => exact ih hc.add

theorem Holds.drop (hc : Holds c k) (hk : k.Sound) {e : Entry} (he : e.handle ∈ k.stored) :
    Holds (c.drop e) (k.drop e.handle) := by
  have hsame : ∀ g ∈ k.listed, g.number = e.handle.number → g = e.handle := fun g hg hn =>
    hk.same g (hk.sublist.mem hg) e.handle he hn
  constructor
  case stored =>
    rw [Stock.drop, ← hc.stored, handles, handles, List.eraseP_map]
    rfl
  case next => exact hc.next
  case byFile => exact hc.byFile.erase_all hsame
  case byDiskFile => exact hc.byDiskFile.erase_all hsame
  case byDirectory => exact hc.byDirectory.erase_all hsame
  case byType => exact hc.byType.erase_all hsame
  case byTypeAndId => exact hc.byTypeAndId.erase_all hsame
  case byKind => exact hc.byKind.erase_all hsame

theorem Holds.erase?_eq (hc : Holds c k) (hk : k.Sound) (d : Definition) :
    (k.target? d = none ∧ c.erase? d = none) ∨
      ∃ e : Entry, k.target? d = some e.handle ∧ c.erase? d = some (c.drop e) := by
  have hfind : (c.byTypeAndId.under d.typeAndId).find? (·.definition = d) = k.target? d :=
    hc.byTypeAndId.find?_under rfl
  cases ht : k.target? d with
  | none =>
    refine .inl ⟨rfl, ?_⟩
    rw [erase?, hfind, ht]
    rfl
  | some h =>
    have hmem : h ∈ k.stored := hk.sublist.mem (Stock.mem_of_target? ht).1
    rw [← hc.stored] at hmem
    obtain ⟨e, he, rfl⟩ := List.mem_map.1 hmem
    have hsome : (c.entries.find? (·.handle.number = e.handle.number)).isSome :=
      List.find?_isSome.2 ⟨e, he, by simp⟩
    obtain ⟨f, hf⟩ := Option.isSome_iff_exists.1 hsome
    have hfmem : f.handle ∈ c.handles := List.mem_map_of_mem (List.mem_of_find?_eq_some hf)
    have hnumber : f.handle.number = e.handle.number := by simpa using List.find?_some hf
    rw [hc.stored] at hfmem hmem
    refine .inr ⟨f, by rw [hk.same _ hfmem _ hmem hnumber], ?_⟩
    rw [erase?, hfind, ht]
    show (c.entries.find? (·.handle.number = e.handle.number)).bind _ = _
    rw [hf]
    rfl

end Catalog

/-! ## Runs -/

variable {c : Catalog} {k : Stock}

theorem Change.apply_holds (hc : c.Holds k) (hk : k.Sound) (change : Change) :
    ∃ c' : Catalog, change.apply ⟨some c⟩ = .ok ⟨some c'⟩ ∧ c'.Holds (k.afterChange change) := by
  cases change with
  | addAll ds keepsOutline =>
    have hkept : Catalog.Holds { c with keepsOutline := keepsOutline } k := { hc with }
    exact ⟨_, rfl, hkept.addAll ds⟩
  | add d hidden => exact ⟨_, rfl, hc.add⟩
  | remove d =>
    rw [apply, Store.remove, Store.changeIf, Stock.afterChange]
    rcases hc.erase?_eq hk d with ⟨ht, hnone⟩ | ⟨e, ht, hsome⟩
    · exact ⟨c, by simp only [hnone]; rfl, by rw [ht]; exact hc⟩
    · refine ⟨c.drop e, by simp only [hsome]; rfl, ?_⟩
      rw [ht]
      exact hc.drop hk (hk.sublist.mem (Stock.mem_of_target? ht).1)
  | startSearch => exact ⟨_, rfl, { hc with }⟩
  | setReset d =>
    rw [apply, Store.setReset, Store.changeIf]
    cases ho : c.outline.setReset? d d.reset with
    | none => exact ⟨c, by simp only [ho]; rfl, hc⟩
    | some o => exact ⟨{ c with outline := o }, by simp only [ho]; rfl, { hc with }⟩

theorem Operation.perform_holds (hc : c.Holds k) (hk : k.Sound) (op : Operation) :
    ∃ c' : Catalog, op.perform ⟨some c⟩ = .ok ⟨some c'⟩ ∧ c'.Holds (k.after op) := by
  cases op with
  | change change => exact Change.apply_holds hc hk change
  | share h hidden => exact ⟨_, rfl, hc.insert⟩

/-- A run in which every object stays what it was leaves the catalog with its stock. -/
theorem Store.performAll_holds (hc : c.Holds k) (hk : k.Sound) {ops : List Operation}
    (hfits : k.Throughout Stock.Fits ops) :
    ∃ c' : Catalog, Store.performAll ⟨some c⟩ ops = .ok ⟨some c'⟩ ∧ c'.Holds (k.afterAll ops) := by
  induction ops generalizing c k with
  | nil => exact ⟨c, rfl, hc⟩
  | cons op ops ih =>
    obtain ⟨c', hperform, hc'⟩ := Operation.perform_holds hc hk op
    obtain ⟨c'', hrun, hc''⟩ := ih hc' (hk.after hfits.1) hfits.2
    refine ⟨c'', ?_, hc''⟩
    rw [Store.performAll, hperform]
    exact hrun

end GameScript
