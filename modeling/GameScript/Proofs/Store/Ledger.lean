import GameScript.Proofs.Store.Nodes
import GameScript.Proofs.Store.Runs

/-!
# The outline over whole runs

A ledger notes for each stored definition whether it was put into the outline when it was added,
and goes by the changes alone. Every change keeps the catalog to its ledger (`Change.Does.keeps`):
the outline groups the definitions that are noted as put into it, also where several of them have
the same contribution and an earlier one is taken out instead. So the outline shows just these
(`run_shows`).
-/

namespace GameScript

structure Ledger where
  keepsOutline : Bool := true
  /-- The stored definitions, and whether each was put into the outline. -/
  entries : List (Definition × Bool) := []

namespace Ledger

def record (l : Ledger) : Change → Ledger
  | .addAll ds keepsOutline => ⟨keepsOutline, l.entries ++ ds.map (·, keepsOutline)⟩
  | .add d hidden => { l with entries := l.entries ++ [(d, l.keepsOutline && !hidden)] }
  | .remove d => { l with entries := l.entries.eraseP (·.1 = d) }
  | .startSearch => l
  | .setReset _ => l

/-- The definitions that are noted as put into the outline. -/
def outlined (l : Ledger) : List Definition := (l.entries.filter (·.2)).map (·.1)

end Ledger

def Entry.note (e : Entry) : Definition × Bool := (e.handle.definition, e.outlined)

namespace Catalog

variable {c : Catalog} {l : Ledger} {g : Handle} {e : Entry} {l₁ l₂ : List Entry} {hidden : Bool}

/-- The catalog has what its ledger notes. -/
structure Keeps (c : Catalog) (l : Ledger) : Prop where
  keepsOutline : c.keepsOutline = l.keepsOutline
  entries : c.entries.map Entry.note = l.entries
  groups : c.outline.Groups l.outlined

theorem Keeps.insert (h : c.Keeps l) : (c.insert g hidden).Keeps
    { l with entries := l.entries ++ [(g.definition, l.keepsOutline && !hidden)] } where
  keepsOutline := h.keepsOutline
  entries := by
    show (c.entries ++ [_]).map _ = _
    rw [List.map_append, ← h.keepsOutline, ← h.entries]
    rfl
  groups := by
    show (if c.keepsOutline && !hidden then c.outline.insert g.definition else c.outline).Groups _
    rw [h.keepsOutline, Ledger.outlined, List.filter_append, List.map_append]
    cases l.keepsOutline && !hidden with
    | true => exact h.groups.insert
    | false => exact (List.append_nil l.outlined).symm ▸ h.groups

theorem Keeps.addAll (h : c.Keeps l) (ds : List Definition) :
    (ds.foldl (·.add · false) c).Keeps
      { l with entries := l.entries ++ ds.map (·, l.keepsOutline) } := by
  refine foldl_add_keeps (P := fun c ds =>
    c.Keeps { l with entries := l.entries ++ ds.map (·, l.keepsOutline) }) ?_ ?_ ds
  · intro c ds d hc
    have hadd : (c.add d false).Keeps _ := hc.insert
    rw [Bool.not_false, Bool.and_true, List.append_assoc] at hadd
    rw [List.map_append]
    exact hadd
  · simpa using h

theorem Keeps.drop (h : c.Keeps l) (hc : c.InStep) (hl : c.entries = l₁ ++ e :: l₂)
    (hfirst : e.handle.definition ∉ l₁.map (·.handle.definition)) :
    (c.drop e).Keeps (l.record (.remove e.handle.definition)) := by
  have hentries : l.entries = l₁.map Entry.note ++ e.note :: l₂.map Entry.note := by
    rw [← h.entries, hl, List.map_append, List.map_cons]
  have hbefore : ∀ x ∈ l₁.map Entry.note, ¬ decide (x.1 = e.handle.definition) = true := by
    rintro x hx hxd
    obtain ⟨y, hy, rfl⟩ := List.mem_map.1 hx
    exact hfirst (List.mem_map.2 ⟨y, hy, of_decide_eq_true hxd⟩)
  have hrecord : (l.record (.remove e.handle.definition)).entries =
      l₁.map Entry.note ++ l₂.map Entry.note := by
    show l.entries.eraseP _ = _
    rw [hentries, List.eraseP_append_right _ hbefore,
      List.eraseP_cons_of_pos (by simp [Entry.note])]
  have hgroups := h.groups
  constructor
  case keepsOutline => exact h.keepsOutline
  case entries =>
    rw [hc.entries_drop hl, List.map_append, hrecord]
  case groups =>
    show (if e.outlined then (c.outline.erase? e.handle.definition).getD c.outline
      else c.outline).Groups _
    rw [Ledger.outlined, hentries, List.filter_append, List.map_append] at hgroups
    rw [Ledger.outlined, hrecord, List.filter_append, List.map_append]
    cases he : e.outlined with
    | false =>
      rw [List.filter_cons_of_neg (by simp [Entry.note, he])] at hgroups
      exact hgroups
    | true =>
      rw [List.filter_cons_of_pos (by simp [Entry.note, he]), List.map_cons] at hgroups
      obtain ⟨o, ho, hrest⟩ := Outline.Groups.erase (d := e.handle.definition) hgroups
      rw [if_pos rfl, ho]
      exact hrest

end Catalog

/-- A change keeps the catalog to its ledger. -/
theorem Change.Does.keeps {c c' : Catalog} {l : Ledger} {change : Change} (hc : c.InStep)
    (h : c.Keeps l) (hdoes : change.Does c c') : c'.Keeps (l.record change) := by
  cases change with
  | addAll ds keepsOutline =>
    subst hdoes
    have hset : { c with keepsOutline := keepsOutline }.Keeps ⟨keepsOutline, l.entries⟩ :=
      ⟨rfl, h.entries, h.groups⟩
    exact hset.addAll ds
  | add d hidden =>
    subst hdoes
    exact h.insert
  | remove d =>
    rcases hdoes with ⟨hd, rfl⟩ | ⟨l₁, e, l₂, hl, rfl, hfirst, rfl⟩
    · have hnone : l.entries.eraseP (·.1 = d) = l.entries := by
        refine List.eraseP_of_forall_not fun x hx hxd => hd ?_
        rw [← h.entries] at hx
        obtain ⟨e, he, rfl⟩ := List.mem_map.1 hx
        exact List.mem_map.2 ⟨e, he, of_decide_eq_true hxd⟩
      have hrecord : l.record (.remove d) = l := by rw [Ledger.record, hnone]
      rw [hrecord]
      exact h
    · exact h.drop hc hl hfirst
  | startSearch =>
    subst hdoes
    exact ⟨h.keepsOutline, h.entries, h.groups⟩
  | setReset d =>
    rcases hdoes with rfl | ⟨o, ho, rfl⟩
    · exact h
    · exact ⟨h.keepsOutline, h.entries, h.groups.setReset ho⟩

/-- **The outline is the grouping of the surviving definitions.** After every run the nodes show
the stored definitions that were put into the outline, folder by folder and topic by topic, and
no others; and they would be the same nodes if the folders and topics stood in another order. -/
theorem run_shows (changes : List Change) :
    ∃ s, Store.run {} changes = .ok s ∧
      s.definitions = (changes.foldl Ledger.record {}).entries.map (·.1) ∧
      Shows (changes.foldl Ledger.record {}).outlined s.outline ∧
      ∀ o, s.catalog.outline.SameUpToOrder o → o.nodes = s.outline := by
  have hempty : Catalog.Keeps {} {} := ⟨rfl, rfl, grouped_nil⟩
  obtain ⟨c, hrun, -, hkeeps⟩ := run_keeps (f := Ledger.record) (P := Catalog.Keeps)
    (fun hc hl hdoes => hdoes.keeps hc hl) Catalog.inStep_empty hempty changes
  refine ⟨⟨some c⟩, hrun, ?_, hkeeps.groups.shows, fun o ho => hkeeps.groups.nodes_eq ho⟩
  rw [← hkeeps.entries, List.map_map]
  rfl

end GameScript
