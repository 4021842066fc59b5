import GameScript.Proofs.Store.Nodes
import GameScript.Proofs.Store.Sharing

/-!
# Adding and removing

A definition that is added and at once removed leaves every answer of the store (`SameAnswers`),
and the outline but for the order of the files and mods in its nodes (`add_remove`). The outline
forgets the first contribution like the one of the definition. So the order stays when no other
definition contributes the same to the topic, and else that one may lose its place
(`add_remove_reorders`).
-/

namespace GameScript

/-- The stores answer the same, except for the outline. -/
structure Store.SameAnswers (s s' : Store) : Prop where
  definitions : s'.definitions = s.definitions
  byFile : ∀ file, s'.byFile file = s.byFile file
  byDiskFile : ∀ file, s'.byDiskFile file = s.byDiskFile file
  byDirectory : ∀ path, s'.byDirectory path = s.byDirectory path
  byType : ∀ type, s'.byType type = s.byType type
  byTypeAndId : ∀ key, s'.byTypeAndId key = s.byTypeAndId key
  byKind : ∀ kind, s'.byKind kind = s.byKind kind
  files : s'.files = s.files
  types : s'.types = s.types
  typeAndIds : s'.typeAndIds = s.typeAndIds
  directories : s'.directories = s.directories
  hasFile : ∀ file, s'.hasFile file = s.hasFile file
  hasGameDefinitions : s'.hasGameDefinitions = s.hasGameDefinitions
  search : ∀ term, s'.search term = s.search term

/-- Whether a definition contributes the same as another one to the same topic. -/
def Definition.IsTwin (d e : Definition) : Prop :=
  Outline.folderKey e = Outline.folderKey d ∧ Outline.topicKey e = Outline.topicKey d ∧
    Contribution.of e = Contribution.of d

instance (d e : Definition) : Decidable (d.IsTwin e) := inferInstanceAs (Decidable (_ ∧ _))

namespace Catalog

variable {c : Catalog} {h : Handle} {hidden : Bool}

/-- What is removed right after it was added is the new entry. -/
theorem Tidy.erase?_insert (hc : Tidy c) (hnew : ∀ g ∈ c.handles, g.number ≠ h.number)
    (hd : h.definition ∉ c.definitions) :
    (c.insert h hidden).erase? h.definition =
      some ((c.insert h hidden).drop ⟨h, c.keepsOutline && !hidden⟩) := by
  have hbefore :
      ∀ g ∈ c.byTypeAndId.under h.definition.typeAndId, ¬ g.definition = h.definition := by
    intro g hg hgd
    refine hd ?_
    rw [definitions_eq, ← hgd]
    exact List.mem_map_of_mem (hc.byTypeAndId _ g hg).2
  have hfound : ((c.insert h hidden).byTypeAndId.under h.definition.typeAndId).find?
      (·.definition = h.definition) = some h := by
    show ((c.byTypeAndId.insert h.definition.typeAndId h).under _).find? _ = _
    rw [Index.under_insert, if_pos rfl, List.find?_append,
      List.find?_eq_none.2 (by simpa using hbefore)]
    simp
  have hentry : (c.insert h hidden).entries.find? (·.handle.number = h.number) =
      some ⟨h, c.keepsOutline && !hidden⟩ := by
    have hnone : c.entries.find? (·.handle.number = h.number) = none := by
      refine List.find?_eq_none.2 fun e he => ?_
      simpa using hnew _ (List.mem_map_of_mem he)
    show (c.entries ++ [_]).find? _ = _
    rw [List.find?_append, hnone]
    simp
  rw [erase?, hfound]
  show ((c.insert h hidden).entries.find? (·.handle.number = h.number)).bind _ = _
  rw [hentry]
  rfl

theorem entries_undo (hnew : ∀ g ∈ c.handles, g.number ≠ h.number) :
    ((c.insert h hidden).drop ⟨h, c.keepsOutline && !hidden⟩).entries = c.entries := by
  have hl : (c.insert h hidden).entries = c.entries ++ ⟨h, c.keepsOutline && !hidden⟩ :: [] := rfl
  rw [entries_drop_of_first hl fun e he => hnew _ (List.mem_map_of_mem he), List.append_nil]

theorem Tidy.sameAnswers {c' : Catalog} (hc : Tidy c) (hc' : Tidy c')
    (hentries : c'.entries = c.entries)
    (hfile : ∀ k, c'.byFile.under k = c.byFile.under k)
    (hdisk : ∀ k, c'.byDiskFile.under k = c.byDiskFile.under k)
    (hdir : ∀ k, c'.byDirectory.under k = c.byDirectory.under k)
    (htype : ∀ k, c'.byType.under k = c.byType.under k)
    (hid : ∀ k, c'.byTypeAndId.under k = c.byTypeAndId.under k)
    (hkind : ∀ k, c'.byKind.under k = c.byKind.under k)
    (htags : ∀ term, c'.tags.elim [] (·.search term) = c.tags.elim [] (·.search term)) :
    Store.SameAnswers ⟨some c⟩ ⟨some c'⟩ := by
  have hdefinitions : c'.definitions = c.definitions := by rw [definitions, definitions, hentries]
  have hfiles := hc'.files
  have htypes := hc'.types
  have hids := hc'.typeAndIds
  have hdirs := hc'.directories
  have hgame := hc'.fromGame
  rw [hdefinitions] at hfiles htypes hids hdirs hgame
  constructor
  case definitions => exact hdefinitions
  case byFile => exact fun file => congrArg (List.map _) (hfile _)
  case byDiskFile => exact fun file => congrArg (List.map _) (hdisk _)
  case byDirectory => exact fun path => congrArg (List.map _) (hdir _)
  case byType => exact fun type => congrArg (List.map _) (htype _)
  case byTypeAndId => exact fun key => congrArg (List.map _) (hid _)
  case byKind => exact fun kind => congrArg (List.map _) (hkind _)
  case files => exact hc.files.known_eq hfiles
  case types => exact hc.types.known_eq htypes
  case typeAndIds => exact hc.typeAndIds.known_eq hids
  case directories => exact hc.directories.known_eq hdirs
  case hasFile => exact fun file => hc.files.contains_eq hfiles
  case hasGameDefinitions => exact congrArg (decide <| 0 < ·) (hgame.trans hc.fromGame.symm)
  case search => exact fun term => congrArg (List.map _) (htags term)

/-- What a new object leaves when it is added and removed. -/
theorem Tidy.undo (hc : Tidy c) (h : Handle) (hidden : Bool)
    (hnew : ∀ g ∈ c.handles, g.number ≠ h.number) (hd : h.definition ∉ c.definitions) :
    ∃ c', (c.insert h hidden).erase? h.definition = some c' ∧
      Store.SameAnswers ⟨some c⟩ ⟨some c'⟩ ∧
      c'.outline = if c.keepsOutline && !hidden then
        c.outline.alterTopic h.definition fun t => some (t.undone h.definition) else c.outline := by
  refine ⟨_, hc.erase?_insert hnew hd, ?_, ?_⟩
  · have hentries : ((c.insert h hidden).drop ⟨h, c.keepsOutline && !hidden⟩).entries = c.entries :=
      entries_undo hnew
    have htidy : Tidy ((c.insert h hidden).drop ⟨h, c.keepsOutline && !hidden⟩) := by
      have hl : (c.insert h hidden).entries =
          c.entries ++ ⟨h, c.keepsOutline && !hidden⟩ :: [] := rfl
      exact hc.insert.drop hl fun e he => hnew _ (List.mem_map_of_mem he)
    refine hc.sameAnswers htidy hentries ?_ ?_ ?_ ?_ ?_ ?_ ?_
    · exact hc.byFile.under_undo hnew
    · exact hc.byDiskFile.under_undo hnew
    · exact hc.byDirectory.under_undo hnew
    · exact hc.byType.under_undo hnew
    · exact hc.byTypeAndId.under_undo hnew
    · exact hc.byKind.under_undo hnew
    · intro term
      show ((c.tags.map (·.insert h)).map (·.erase h)).elim [] (·.search term) = _
      cases ht : c.tags with
      | none => rfl
      | some n =>
        obtain ⟨i, hn, hi⟩ := hc.tags n ht
        have hi' : TagIndex.Within (TagIndex.erase h (TagIndex.insert h i)) c.handles := by
          refine hi.insert.erase fun g hg hne => ?_
          rw [List.mem_append, List.mem_singleton] at hg
          exact hg.resolve_right hne
        show ((n.insert h).erase h).search term = n.search term
        rw [hn.insert.erase.search_eq, hn.search_eq]
        refine hi'.search_eq hi (fun t => ?_) term
        exact TagIndex.under_erase_insert fun t g hg => hnew g (hi.under t g hg).2
  · show (if c.keepsOutline && !hidden then
      ((if c.keepsOutline && !hidden then c.outline.insert h.definition else c.outline).erase?
        h.definition).getD
          (if c.keepsOutline && !hidden then c.outline.insert h.definition else c.outline)
      else if c.keepsOutline && !hidden then c.outline.insert h.definition else c.outline) = _
    cases c.keepsOutline && !hidden with
    | false => rfl
    | true =>
      simp only [if_true]
      rw [hc.groups.erase?_insert, Option.getD_some]

end Catalog

/-- **Adding and removing a definition undoes itself, but for the order of names.** After any run,
a definition that is not stored can be added and removed again, and every answer is as before. So
is the outline, except that files and mods in a node may stand in another order; and they do not
when the definition was kept out of the outline, or no definition in it contributes the same to
the same topic. -/
theorem add_remove (ops : List Operation) :
    ∃ s, Store.performAll {} ops = .ok s ∧
      ∀ d hidden, d ∉ s.definitions →
        ∃ s₁ s₂, s.add d hidden = .ok s₁ ∧ s₁.remove d = .ok (s₂, true) ∧ s.SameAnswers s₂ ∧
          List.Forall₂ Node.Alike s.outline s₂.outline ∧
          ((hidden = false → ∀ e ∈ s.catalog.outlined, ¬ d.IsTwin e) → s₂.outline = s.outline) := by
  obtain ⟨c, hrun, hc⟩ := Store.performAll_tidy Catalog.tidy_empty ops
  refine ⟨⟨some c⟩, hrun, fun d hidden hd => ?_⟩
  have hnew : ∀ g ∈ c.handles, g.number ≠ c.next := fun g hg => (hc.fresh g hg).ne
  obtain ⟨c', herase, hanswers, houtline⟩ :=
    hc.undo ⟨c.next, d⟩ hidden hnew hd
  refine ⟨⟨some (c.add d hidden)⟩, ⟨some c'⟩, rfl, ?_, hanswers, ?_, fun htwin => ?_⟩
  · rw [Store.remove, Store.changeIf]
    have hadded : (c.add d hidden).erase? d = some c' := herase
    simp only [hadded]
  · show List.Forall₂ Node.Alike c.outline.nodes c'.outline.nodes
    rw [houtline]
    split
    · exact hc.groups.nodes_alike fun t =>
        t.node_alike rfl rfl (t.perm_undone d).symm rfl
    · exact c.outline.nodes_alike_refl
  · show c'.outline.nodes = c.outline.nodes
    rw [houtline]
    split
    · next hout =>
      have hshown : hidden = false := by simpa using (Bool.and_eq_true_iff.1 hout).2
      rw [hc.groups.alterTopic_undone fun e he hfolder htopic hcontribution =>
        htwin hshown e he ⟨hfolder, htopic, hcontribution⟩]
    · rfl

def contestant (file modName : Text) : Definition :=
  ((({ modName := modName } : Definition).setType "common/txt").setId "x").setFile file

def contestedId : List Operation :=
  [.change (.add (contestant "common/a.txt" "m1") false),
    .change (.add (contestant "common/b.txt" "m2") false)]

/-- Adding it in a third file and removing that leaves the outline. -/
theorem add_remove_contested :
    ∃ s s₁ s₂, Store.performAll {} contestedId = .ok s ∧
      s.add (contestant "common/c.txt" "m3") false = .ok s₁ ∧
      s₁.remove (contestant "common/c.txt" "m3") = .ok (s₂, true) ∧
      s.SameAnswers s₂ ∧ s₂.outline = s.outline := by
  obtain ⟨s, hrun, hundo⟩ := add_remove contestedId
  obtain rfl := Except.ok.inj (show Except.ok _ = Except.ok s from hrun)
  obtain ⟨s₁, s₂, hadd, hremove, hanswers, -, hsame⟩ :=
    hundo (contestant "common/c.txt" "m3") false (by decide +kernel)
  exact ⟨_, s₁, s₂, hrun, hadd, hremove, hanswers, hsame fun _ => by decide +kernel⟩

/-- Contributes the same as the first definition of the id, and is not equal to it. -/
def contestedAgain : Definition := (contestant "common/a.txt" "m1").addTag "again"

/-- Adding and removing a definition changes the order of the files, when another one contributes
the same. -/
theorem add_remove_reorders :
    ∃ s s₁ s₂, Store.performAll {} contestedId = .ok s ∧ contestedAgain ∉ s.definitions ∧
      s.add contestedAgain false = .ok s₁ ∧ s₁.remove contestedAgain = .ok (s₂, true) ∧
      s.outline.flatMap (·.children.flatMap (·.files)) = ["common/a.txt", "common/b.txt"] ∧
      s₂.outline.flatMap (·.children.flatMap (·.files)) = ["common/b.txt", "common/a.txt"] := by
  refine ⟨_, _, _, rfl, ?_, rfl, rfl, ?_, ?_⟩
  · decide +kernel
  · decide +kernel
  · decide +kernel

end GameScript
