import GameScript.Proofs.Definition.Building
import Mathlib.Data.List.Induction

/-!
# Definitions from their history

A definition that begins empty is what the calls of its setters made of it, in whatever order they
came. A plain field has the value of the latest call that sets it (`plain_afterAll`); a file name is
in an alias set if it was added there while the file was another one and has not been the file
since (`mem_addedNames_iff`); the tags are those added, each at its first place (`tags_afterAll`).
What is kept beside these fields is in step with them, since calls of setters build the definition
(`isBuilt_afterAll`), and all the rest follows (`reflects_afterAll`).
-/

namespace GameScript.Definition

open Text

inductive Setter where
  | setId (id : Text)
  | setType (type : Text)
  | setFile (file : Text)
  | setDiskFile (file : Option Text)
  | setVirtualPath (path : Option Text)
  | addAlias (set : AliasSet) (name : Text)
  | setCode (code : Text)
  | setHash (hash : Option Text)
  | addTag (tag : Text)

namespace Setter

def apply (d : Definition) : Setter → Definition
  | setId id => d.setId id
  | setType type => d.setType type
  | setFile file => d.setFile file
  | setDiskFile file => d.setDiskFile file
  | setVirtualPath path => d.setVirtualPath path
  | addAlias set name => d.addAlias set name
  | setCode code => d.setCode code
  | setHash hash => { d with givenHash := hash }
  | addTag tag => d.addTag tag

/-- Whether a call only puts a name to a set or a tag to the tags. -/
def grows : Setter → Bool
  | addAlias .. | addTag _ => true
  | _ => false

/-! ## What one call sets -/

def id? : Setter → Option Text
  | setId id => some id
  | _ => none

def type? : Setter → Option Text
  | setType type => some type
  | _ => none

def file? : Setter → Option Text
  | setFile file => some (Path.normalize file)
  | _ => none

def diskFile? : Setter → Option (Option Text)
  | setDiskFile file => some (file.map Path.normalize)
  | _ => none

def virtualPath? : Setter → Option (Option Text)
  | setVirtualPath path => some (path.map Path.normalize)
  | _ => none

/-- The name that is given to an alias set. -/
def alias? (set : AliasSet) : Setter → Option Text
  | addAlias set' name => if set' = set then some (Path.normalize name) else none
  | _ => none

def code? : Setter → Option Text
  | setCode code => some (tidyCode code)
  | _ => none

def hash? : Setter → Option (Option Text)
  | setHash hash => some hash
  | _ => none

def tag? : Setter → Option Text
  | addTag tag => if lower (trim tag) = [] then none else some (lower (trim tag))
  | _ => none

end Setter

/-- What calls of setters make of an empty definition. -/
def afterAll (calls : List Setter) : Definition := calls.foldl Setter.apply {}

def latest {α : Type} (value? : Setter → Option α) (calls : List Setter) : Option α :=
  (calls.filterMap value?).getLast?

/-- Whether a name was added to a set while the file was another one, and was never made the file
by a later call. -/
def StaysAdded (set : AliasSet) (name : Text) (calls : List Setter) : Prop :=
  ∃ before call after, calls = before ++ call :: after ∧ call.alias? set = some name ∧
    (afterAll before).file ≠ name ∧ ∀ c ∈ after, c.file? ≠ some name

/-- The fields that one setter sets alone, and the hash that comes with the code. -/
structure Plain where
  id : Text
  type : Text
  file : Text
  diskFile : Option Text
  virtualPath : Option Text
  code : Text
  codeHash : Text
  givenHash : Option Text

def plain (d : Definition) : Plain where
  id := d.id
  type := d.type
  file := d.file
  diskFile := d.diskFile
  virtualPath := d.virtualPath
  code := d.code
  codeHash := d.codeHash
  givenHash := d.givenHash

/-- A definition as the calls of its setters determine it. -/
structure Reflects (calls : List Setter) (d : Definition) : Prop where
  id : d.id = (latest Setter.id? calls).getD []
  type : d.type = (latest Setter.type? calls).getD []
  /-- Once there is an id or a type, they are kept together. -/
  typeAndId : (∃ c ∈ calls, c.id? ≠ none ∨ c.type? ≠ none) → d.typeAndId = d.type ++ '-' :: d.id
  file : d.file = (latest Setter.file? calls).getD []
  fileKey : d.fileKey = lower d.file
  directory : d.directory = Path.directory d.file
  directoryKey : d.directoryKey = lower (Path.directory d.file)
  diskFile : d.diskFile = (latest Setter.diskFile? calls).getD none
  diskFileKey : d.diskFileKey = d.diskFile.map lower
  virtualPath : d.virtualPath = (latest Setter.virtualPath? calls).getD none
  virtualDirectory : d.virtualDirectory = d.virtualPath.map Path.directory
  aliases : ∀ set, ∀ name ≠ d.file, name ∈ d.aliases set ↔ StaysAdded set name calls
  /-- The file itself is in every set. -/
  own : d.file ≠ [] → ∀ set, d.file ∈ d.aliases set
  /-- Each tag has the place where it was first added. -/
  tags : d.tags = (calls.filterMap Setter.tag?).eraseDups
  tags_nodup : d.tags.Nodup
  tags_ne_nil : [] ∉ d.tags
  code : d.code = (latest Setter.code? calls).getD []
  singleLine : d.singleLine = Text.singleLine d.code
  givenHash : d.givenHash = (latest Setter.hash? calls).getD none
  /-- Once there is code, it is what is hashed, unless a hash is given or the content is binary. -/
  hash : (∃ c ∈ calls, c.code? ≠ none) → d.givenHash = none →
    ∀ kind ≠ .binary, { d with kind := kind }.hash = digest (condense d.singleLine)

variable {calls : List Setter} {c : Setter} {d : Definition} {set : AliasSet} {name : Text}

theorem afterAll_concat (calls : List Setter) (c : Setter) :
    afterAll (calls ++ [c]) = c.apply (afterAll calls) := by
  rw [afterAll, List.foldl_append]
  rfl

theorem IsBuilt.apply (h : d.IsBuilt) (c : Setter) : (c.apply d).IsBuilt := by
  cases c with
  | setId id => exact h.setId id
  | setType type => exact h.setType type
  | setFile file => exact h.setFile file
  | setDiskFile file => exact h.setDiskFile file
  | setVirtualPath path => exact h.setVirtualPath path
  | addAlias set name => exact h.addAlias set name
  | setCode code => exact h.setCode code
  | setHash hash => exact h.setHash hash
  | addTag tag => exact h.addTag tag

theorem isBuilt_afterAll (calls : List Setter) : (afterAll calls).IsBuilt := by
  induction calls using List.reverseRecOn with
  | nil => exact .empty
  | append_singleton calls c ih => exact afterAll_concat calls c ▸ ih.apply c

theorem inStep_afterAll (calls : List Setter) : (afterAll calls).InStep :=
  (isBuilt_afterAll calls).inStep

/-! ## Plain fields -/

theorem latest_concat {α : Type} (value? : Setter → Option α) (calls : List Setter) (c : Setter) :
    latest value? (calls ++ [c]) = (value? c).or (latest value? calls) := by
  rw [latest, List.filterMap_append, List.getLast?_append, latest]
  cases h : value? c <;> simp [h]

theorem latest_ne_none {α : Type} {value? : Setter → Option α}
    (h : ∃ c ∈ calls, value? c ≠ none) : ∃ a, latest value? calls = some a := by
  obtain ⟨c, hc, hvalue⟩ := h
  obtain ⟨a, ha⟩ := Option.ne_none_iff_exists'.1 hvalue
  exact ⟨_, List.getLast?_eq_some_getLast (List.ne_nil_of_mem (List.mem_filterMap.2 ⟨c, hc, ha⟩))⟩

/-- A call that adds a name or a tag touches nothing but names and tags. -/
theorem apply_of_grows (d : Definition) (h : c.grows = true) : ∃ a g o ts, c.apply d = { d with
    additionalNames := a, generatedNames := g, overwrittenNames := o, tags := ts } := by
  cases c with
  | addAlias set name =>
    rw [Setter.apply, addAlias.eq_def]
    dsimp only
    split
    · exact ⟨_, _, _, _, rfl⟩
    · cases set <;> exact ⟨_, _, _, _, rfl⟩
  | addTag tag =>
    rw [Setter.apply, addTag.eq_def]
    dsimp only
    split <;> exact ⟨_, _, _, _, rfl⟩
  | _ => cases h

theorem plain_apply (d : Definition) (c : Setter) : (c.apply d).plain =
    { id := c.id?.getD d.id
      type := c.type?.getD d.type
      file := c.file?.getD d.file
      diskFile := c.diskFile?.getD d.diskFile
      virtualPath := c.virtualPath?.getD d.virtualPath
      code := c.code?.getD d.code
      codeHash := (c.code?.map (digest ∘ fingerprint)).getD d.codeHash
      givenHash := c.hash?.getD d.givenHash } := by
  by_cases hgrows : c.grows = true
  · obtain ⟨a, g, o, ts, happly⟩ := apply_of_grows d hgrows
    rw [happly]
    cases c <;> first | rfl | cases hgrows
  · cases c with
    | addAlias set name => exact absurd rfl hgrows
    | addTag tag => exact absurd rfl hgrows
    | _ => rfl

/-- **Each plain field has its latest value.** -/
theorem plain_afterAll (calls : List Setter) : (afterAll calls).plain =
    { id := (latest Setter.id? calls).getD []
      type := (latest Setter.type? calls).getD []
      file := (latest Setter.file? calls).getD []
      diskFile := (latest Setter.diskFile? calls).getD none
      virtualPath := (latest Setter.virtualPath? calls).getD none
      code := (latest Setter.code? calls).getD []
      codeHash := ((latest Setter.code? calls).map (digest ∘ fingerprint)).getD []
      givenHash := (latest Setter.hash? calls).getD none } := by
  induction calls using List.reverseRecOn with
  | nil => rfl
  | append_singleton calls c ih =>
    rw [plain, Plain.mk.injEq] at ih
    obtain ⟨hid, htype, hfile, hdisk, hvirtual, hcode, hhash, hgiven⟩ := ih
    rw [afterAll_concat, plain_apply, hid, htype, hfile, hdisk, hvirtual, hcode, hhash, hgiven]
    simp only [latest_concat, Option.getD_or, Option.map_or]

/-- Only a call that sets the id or the type touches the two as they are kept together. -/
theorem typeAndId_apply (d : Definition) (c : Setter) :
    (c.apply d).typeAndId = (c.apply d).type ++ '-' :: (c.apply d).id ∨
      (c.id? = none ∧ c.type? = none) ∧ (c.apply d).typeAndId = d.typeAndId ∧
        (c.apply d).type = d.type ∧ (c.apply d).id = d.id := by
  by_cases hgrows : c.grows = true
  · obtain ⟨a, g, o, ts, happly⟩ := apply_of_grows d hgrows
    rw [happly]
    refine .inr ⟨?_, rfl, rfl, rfl⟩
    cases c <;> first | exact ⟨rfl, rfl⟩ | cases hgrows
  · cases c with
    | setId id => exact .inl rfl
    | setType type => exact .inl rfl
    | addAlias set name => exact absurd rfl hgrows
    | addTag tag => exact absurd rfl hgrows
    | _ => exact .inr ⟨⟨rfl, rfl⟩, rfl, rfl, rfl⟩

theorem typeAndId_afterAll (h : ∃ c ∈ calls, c.id? ≠ none ∨ c.type? ≠ none) :
    (afterAll calls).typeAndId = (afterAll calls).type ++ '-' :: (afterAll calls).id := by
  induction calls using List.reverseRecOn with
  | nil =>
    obtain ⟨c, hc, -⟩ := h
    exact absurd hc List.not_mem_nil
  | append_singleton calls c ih =>
    rw [afterAll_concat]
    rcases typeAndId_apply (afterAll calls) c with hset | ⟨hnone, hboth, htype, hid⟩
    · exact hset
    · rw [hboth, htype, hid]
      obtain ⟨c', hc', hsets⟩ := h
      rcases List.mem_append.1 hc' with hmem | hmem
      · exact ih ⟨c', hmem, hsets⟩
      · obtain rfl := List.mem_singleton.1 hmem
        exact absurd hsets (by simp [hnone])

/-! ## Alias sets -/

@[simp] theorem mem_addedNames_setFile {file : Text} : name ∈ (d.setFile file).addedNames set ↔
    name ∈ d.addedNames set ∧ name ≠ Path.normalize file := by
  have herase (names : SortedSet) : name ∈ SortedSet.erase (Path.normalize file) names ↔
      name ∈ names ∧ name ≠ Path.normalize file := by
    rw [SortedSet.erase, List.mem_filter, decide_eq_true_iff]
  cases set <;> exact herase _

@[simp] theorem mem_addedNames_addAlias {set' : AliasSet} {added : Text} :
    name ∈ (d.addAlias set' added).addedNames set ↔
      (set' = set ∧ Path.normalize added = name ∧ d.file ≠ name) ∨ name ∈ d.addedNames set := by
  rw [addAlias.eq_def]
  dsimp only
  split
  · next hself =>
    refine ⟨.inr, fun h => h.resolve_left ?_⟩
    rintro ⟨-, hname, hfile⟩
    exact hfile (hself.symm.trans hname)
  · next hother =>
    have hinsert (names : SortedSet) : name ∈ SortedSet.insert (Path.normalize added) names ↔
        (Path.normalize added = name ∧ d.file ≠ name) ∨ name ∈ names := by
      rw [SortedSet.mem_insert]
      refine or_congr_left ⟨?_, fun h => h.1.symm⟩
      rintro rfl
      exact ⟨rfl, Ne.symm hother⟩
    cases set' <;> cases set <;> simp [addedNames, hinsert]

/-- One call: a name is added unless it is that of the file, and leaves when it becomes that. -/
theorem mem_addedNames_apply : name ∈ (c.apply d).addedNames set ↔
    (c.alias? set = some name ∧ d.file ≠ name) ∨
      (name ∈ d.addedNames set ∧ c.file? ≠ some name) := by
  have hsame {e : Definition} {c : Setter} (he : e.addedNames set = d.addedNames set)
      (halias : c.alias? set = none) (hfile : c.file? = none) : name ∈ e.addedNames set ↔
        (c.alias? set = some name ∧ d.file ≠ name) ∨
          (name ∈ d.addedNames set ∧ c.file? ≠ some name) := by
    simp [he, halias, hfile]
  cases c with
  | setFile file =>
    simp [Setter.apply, Setter.alias?, Setter.file?, eq_comm (a := name)]
  | addAlias set' added =>
    simp [Setter.apply, Setter.alias?, Setter.file?, and_assoc]
  | addTag tag =>
    refine hsame ?_ rfl rfl
    rw [Setter.apply, addTag.eq_def]
    dsimp only
    split <;> cases set <;> rfl
  | _ => exact hsame (by cases set <;> rfl) rfl rfl

/-- One more call: either it adds the name, or the name was added and stays. -/
theorem staysAdded_concat : StaysAdded set name (calls ++ [c]) ↔
    (c.alias? set = some name ∧ (afterAll calls).file ≠ name) ∨
      (StaysAdded set name calls ∧ c.file? ≠ some name) := by
  constructor
  · rintro ⟨before, call, after, hcalls, hadds, hfile, hafter⟩
    rcases List.eq_nil_or_concat' after with rfl | ⟨after, last, rfl⟩
    · obtain ⟨rfl, hlast⟩ := List.append_inj' hcalls rfl
      obtain rfl := List.singleton_inj.1 hlast
      exact .inl ⟨hadds, hfile⟩
    · rw [← List.cons_append, ← List.append_assoc] at hcalls
      obtain ⟨rfl, hlast⟩ := List.append_inj' hcalls rfl
      obtain rfl := List.singleton_inj.1 hlast
      refine .inr ⟨⟨before, call, after, rfl, hadds, hfile, fun c hc => ?_⟩, ?_⟩
      · exact hafter c (List.mem_append_left _ hc)
      · exact hafter _ (List.mem_append_right _ List.mem_cons_self)
  · rintro (⟨hadds, hfile⟩ | ⟨⟨before, call, after, rfl, hadds, hfile, hafter⟩, hlast⟩)
    · exact ⟨calls, c, [], rfl, hadds, hfile, fun c hc => absurd hc List.not_mem_nil⟩
    · refine ⟨before, call, after ++ [c], by simp, hadds, hfile, fun c' hc' => ?_⟩
      rcases List.mem_append.1 hc' with hc' | hc'
      · exact hafter c' hc'
      · exact List.mem_singleton.1 hc' ▸ hlast

/-- **The law of alias sets**: what was added stays until it becomes the file. -/
theorem mem_addedNames_iff :
    name ∈ (afterAll calls).addedNames set ↔ StaysAdded set name calls := by
  induction calls using List.reverseRecOn with
  | nil =>
    refine iff_of_false (by cases set <;> exact List.not_mem_nil) ?_
    rintro ⟨before, call, after, hcalls, -⟩
    simp at hcalls
  | append_singleton calls c ih => rw [afterAll_concat, mem_addedNames_apply, staysAdded_concat, ih]

theorem mem_aliases : name ∈ d.aliases set ↔
    (d.file ≠ [] ∧ name = d.file) ∨ name ∈ d.addedNames set := by
  rw [aliases]
  split
  · next hfile => simp [hfile]
  · next hfile => rw [SortedSet.mem_insert, and_iff_right hfile]

/-! ## Tags -/

theorem eraseDups_concat (ts : List Text) (t : Text) :
    (ts ++ [t]).eraseDups = if t ∈ ts then ts.eraseDups else ts.eraseDups ++ [t] := by
  rw [List.eraseDups_append]
  by_cases h : t ∈ ts <;> simp [List.removeAll, h, List.eraseDups_cons]

theorem tags_apply (d : Definition) (c : Setter) :
    (c.apply d).tags = match c.tag? with
      | some tag => if tag ∈ d.tags then d.tags else d.tags ++ [tag]
      | none => d.tags := by
  cases c with
  | addAlias set name =>
    rw [Setter.apply, addAlias.eq_def]
    dsimp only
    split
    · rfl
    · cases set <;> rfl
  | addTag tag =>
    rw [Setter.apply, addTag.eq_def, Setter.tag?]
    by_cases hblank : lower (trim tag) = []
    · simp [hblank]
    · by_cases hknown : lower (trim tag) ∈ d.tags <;> simp [hblank, hknown]
  | _ => rfl

/-- The tags are those added, each at its first place. -/
theorem tags_afterAll (calls : List Setter) :
    (afterAll calls).tags = (calls.filterMap Setter.tag?).eraseDups := by
  induction calls using List.reverseRecOn with
  | nil => rfl
  | append_singleton calls c ih =>
    rw [afterAll_concat, tags_apply, List.filterMap_append, ih]
    cases htag : c.tag? with
    | none => simp [htag]
    | some tag =>
      simp only [List.filterMap_cons, htag, List.filterMap_nil, eraseDups_concat,
        List.mem_eraseDups]

theorem nodup_eraseDups (ts : List Text) : ts.eraseDups.Nodup := by
  induction ts using List.reverseRecOn with
  | nil => exact List.nodup_nil
  | append_singleton ts t ih =>
    rw [eraseDups_concat]
    split
    · exact ih
    · next hnew =>
      refine List.nodup_append.2 ⟨ih, List.nodup_singleton t, fun u hu v hv => ?_⟩
      obtain rfl := List.mem_singleton.1 hv
      rintro rfl
      exact hnew (List.mem_eraseDups.1 hu)

theorem ne_nil_of_tag? {tag : Text} (h : c.tag? = some tag) : tag ≠ [] := by
  cases c with
  | addTag added =>
    rw [Setter.tag?] at h
    split at h
    · cases h
    · next hne => exact Option.some.inj h ▸ hne
  | _ => cases h

/-! ## Content -/

theorem codeHash_afterAll (h : ∃ c ∈ calls, c.code? ≠ none) :
    (afterAll calls).codeHash = digest (fingerprint (afterAll calls).code) := by
  obtain ⟨code, hlast⟩ := latest_ne_none h
  have hcode : (afterAll calls).code = (latest Setter.code? calls).getD [] :=
    congrArg Plain.code (plain_afterAll calls)
  have hhash : (afterAll calls).codeHash =
      ((latest Setter.code? calls).map (digest ∘ fingerprint)).getD [] :=
    congrArg Plain.codeHash (plain_afterAll calls)
  rw [hhash, hcode, hlast]
  rfl

/-- **A definition follows from its history.** After any calls of its setters, in any order, each
field of a definition that began empty has the value that the calls give it; a name that is not
that of the file is in an alias set exactly if it was added while the file was another one and has
not been the file since; and what is derived from other fields agrees with them. -/
theorem reflects_afterAll (calls : List Setter) : Reflects calls (afterAll calls) where
  id := congrArg Plain.id (plain_afterAll calls)
  type := congrArg Plain.type (plain_afterAll calls)
  typeAndId := typeAndId_afterAll
  file := congrArg Plain.file (plain_afterAll calls)
  fileKey := (inStep_afterAll calls).fileKey
  directory := (inStep_afterAll calls).directory
  directoryKey := by rw [(inStep_afterAll calls).directoryKey, (inStep_afterAll calls).directory]
  diskFile := congrArg Plain.diskFile (plain_afterAll calls)
  diskFileKey := (inStep_afterAll calls).diskFileKey
  virtualPath := congrArg Plain.virtualPath (plain_afterAll calls)
  virtualDirectory := (inStep_afterAll calls).virtualDirectory
  aliases := fun set name hne => by
    rw [mem_aliases, mem_addedNames_iff, or_iff_right fun h => hne h.2]
  own := fun hfile set => mem_aliases.2 (.inl ⟨hfile, rfl⟩)
  tags := tags_afterAll calls
  tags_nodup := tags_afterAll calls ▸ nodup_eraseDups _
  tags_ne_nil := fun h => by
    rw [tags_afterAll, List.mem_eraseDups, List.mem_filterMap] at h
    obtain ⟨c, -, htag⟩ := h
    exact ne_nil_of_tag? htag rfl
  code := congrArg Plain.code (plain_afterAll calls)
  singleLine := (inStep_afterAll calls).singleLine
  givenHash := congrArg Plain.givenHash (plain_afterAll calls)
  hash := fun hset hnone kind hkind => by
    rw [Definition.hash, hnone, Option.getD_none, if_neg hkind,
      (inStep_afterAll calls).singleLine]
    exact codeHash_afterAll hset

/-- A name that was the file in between has to be added anew. -/
example : (afterAll [.setFile "a.txt", .addAlias .overwritten "b.txt", .setFile "b.txt",
    .setFile "c.txt"]).aliases .overwritten = ["c.txt".toList] := by decide

end GameScript.Definition
