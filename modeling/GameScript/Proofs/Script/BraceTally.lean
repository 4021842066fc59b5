import GameScript.Script.Balance
import Mathlib.Data.List.Induction

/-!
# Braces that match each other

`tally` goes over braces with a stack of those that are open, as both checks do. A brace has a
partner when all braces between the two match each other (`IsOpened`, `IsClosed`); `IsCulprit` is
the first closing brace without one, else the first opening brace without one. A tally that leaves
nothing open has found a partner for each brace, and every other one ends at the culprit
(`tally_cases`).
-/

namespace GameScript.Balance

inductive Brace where
  | opening
  | closing
  deriving DecidableEq

/-- Braces with their places, in the order of the text. -/
abbrev Braces := List (Brace × Place)

/-- Goes over braces with the places of those that are open, innermost first. What is left are
those, or the place of a closing brace without one. -/
def tally (opened : List Place) : Braces → Except Place (List Place)
  | [] => .ok opened
  | (.opening, p) :: bs => tally (p :: opened) bs
  | (.closing, p) :: bs =>
    match opened with
    | [] => .error p
    | _ :: outer => tally outer bs

/-! ## Partners -/

/-- Braces in which each has its partner. -/
inductive Matched : Braces → Prop
  | nil : Matched []
  | pair {a b : Braces} {p q : Place} :
    Matched a → Matched b → Matched ((.opening, p) :: (a ++ (.closing, q) :: b))

/-- Whether a closing brace behind these has its opening one among them. -/
def IsOpened (before : Braces) : Prop :=
  ∃ a b p, before = a ++ (.opening, p) :: b ∧ Matched b

/-- Whether an opening brace in front of these has its closing one among them. -/
def IsClosed (after : Braces) : Prop :=
  ∃ a b p, after = a ++ (.closing, p) :: b ∧ Matched a

/-- Whether each closing brace has its opening one. -/
def AllOpened (bs : Braces) : Prop :=
  ∀ before p after, bs = before ++ (.closing, p) :: after → IsOpened before

/-- Whether each opening brace has its closing one. -/
def AllClosed (bs : Braces) : Prop :=
  ∀ before p after, bs = before ++ (.opening, p) :: after → IsClosed after

/-- The brace without a partner that is to be reported: the first closing one, or else the first
opening one. -/
inductive IsCulprit (bs : Braces) (p : Place) : Prop
  | stray {before after : Braces} : bs = before ++ (.closing, p) :: after →
    ¬ IsOpened before → AllOpened before → IsCulprit bs p
  | unclosed {before after : Braces} : AllOpened bs → bs = before ++ (.opening, p) :: after →
    ¬ IsClosed after →
    (∀ a q b, before = a ++ (.opening, q) :: b → IsClosed (b ++ (.opening, p) :: after)) →
    IsCulprit bs p

/-- Braces that leave these open, innermost first: between and around them all are matched. -/
inductive Leaves : List Place → Braces → Prop
  | matched {b : Braces} : Matched b → Leaves [] b
  | opening {o : List Place} {a b : Braces} {p : Place} :
    Leaves o a → Matched b → Leaves (p :: o) (a ++ (.opening, p) :: b)

variable {a b bs after : Braces} {p q : Place} {opened o : List Place}

theorem Matched.append (ha : Matched a) (hb : Matched b) : Matched (a ++ b) := by
  induction ha with
  | nil => exact hb
  | pair ha _ _ ih =>
    rw [List.cons_append, List.append_assoc]
    exact .pair ha ih

theorem IsClosed.append (h : IsClosed a) (b : Braces) : IsClosed (a ++ b) := by
  obtain ⟨x, y, p, rfl, hx⟩ := h
  exact ⟨x, y ++ b, p, by rw [List.append_assoc]; rfl, hx⟩

/-! ## Tallies -/

@[simp] theorem tally_append : tally opened (a ++ b) = (tally opened a).bind (tally · b) := by
  induction a generalizing opened with
  | nil => rfl
  | cons x a ih =>
    obtain ⟨_ | _, p⟩ := x
    · exact ih
    · cases opened with
      | nil => rfl
      | cons q opened => exact ih

/-- What is open further out does not matter as long as nothing closes it. -/
theorem tally_deeper (h : tally opened bs = .ok o) (outer : List Place) :
    tally (opened ++ outer) bs = .ok (o ++ outer) := by
  induction bs generalizing opened with
  | nil =>
    cases h
    rfl
  | cons x bs ih =>
    obtain ⟨_ | _, p⟩ := x
    · exact ih h
    · cases opened with
      | nil => cases h
      | cons q opened => exact ih h

theorem Matched.tally (h : Matched bs) (opened : List Place) : tally opened bs = .ok opened := by
  induction h generalizing opened with
  | nil => rfl
  | @pair a b p q _ _ iha ihb =>
    show Balance.tally (p :: opened) (a ++ (.closing, q) :: b) = .ok opened
    rw [tally_append, iha]
    exact ihb opened

theorem Leaves.append (ha : Leaves o a) (hb : Matched b) : Leaves o (a ++ b) := by
  cases ha with
  | matched ha => exact .matched (ha.append hb)
  | opening ha hc =>
    rw [List.append_assoc]
    exact .opening ha (hc.append hb)

/-- **A tally leaves what the braces leave open.** -/
theorem tally_eq_ok_iff : tally [] bs = .ok o ↔ Leaves o bs := by
  constructor
  · intro h
    induction bs using List.reverseRecOn generalizing o with
    | nil =>
      cases h
      exact .matched .nil
    | append_singleton bs x ih =>
      rw [tally_append] at h
      cases hbs : tally [] bs with
      | error p =>
        rw [hbs] at h
        cases h
      | ok o' =>
        rw [hbs] at h
        have hleaves := ih hbs
        obtain ⟨_ | _, p⟩ := x
        · cases h
          exact .opening hleaves .nil
        · cases hleaves with
          | matched hm => cases h
          | @opening o a b q ha hb =>
            cases h
            have hpair : Matched ((.opening, q) :: (b ++ [(.closing, p)])) := .pair hb .nil
            rw [List.append_assoc]
            exact ha.append hpair
  · intro h
    induction h with
    | matched hb => exact hb.tally []
    | opening _ hb ih =>
      rw [tally_append, ih]
      exact hb.tally _

/-- A tally that fails does so at a closing brace behind matched ones. -/
theorem of_tally_error (h : tally [] bs = .error p) :
    ∃ a b, bs = a ++ (.closing, p) :: b ∧ Matched a := by
  induction bs using List.reverseRecOn with
  | nil => cases h
  | append_singleton bs x ih =>
    rw [tally_append] at h
    cases hbs : tally [] bs with
    | error q =>
      rw [hbs] at h
      cases h
      obtain ⟨a, b, rfl, ha⟩ := ih hbs
      exact ⟨a, b ++ [x], by rw [List.append_assoc]; rfl, ha⟩
    | ok o =>
      rw [hbs] at h
      obtain ⟨_ | _, q⟩ := x
      · cases h
      · cases tally_eq_ok_iff.1 hbs with
        | opening _ _ => cases h
        | matched hm =>
          cases h
          exact ⟨bs, [], rfl, hm⟩

/-! ## What a tally says of partners -/

theorem isOpened_iff (h : tally [] bs = .ok o) : IsOpened bs ↔ o ≠ [] := by
  constructor
  · rintro ⟨a, b, p, rfl, hb⟩
    rw [tally_append] at h
    cases ha : tally [] a with
    | error q =>
      rw [ha] at h
      cases h
    | ok o' =>
      rw [ha] at h
      cases (hb.tally (p :: o')).symm.trans h
      exact List.cons_ne_nil p o'
  · intro hne
    cases tally_eq_ok_iff.1 h with
    | matched _ => exact absurd rfl hne
    | opening _ hb => exact ⟨_, _, _, rfl, hb⟩

/-- A brace in front is closed unless the tally of these braces alone goes on to their end. -/
theorem isClosed_iff : IsClosed bs ↔ ∀ o, tally [] bs ≠ .ok o := by
  constructor
  · rintro ⟨a, b, p, rfl, ha⟩ o h
    rw [tally_append, ha.tally] at h
    cases h
  · intro hfails
    cases h : tally [] bs with
    | ok o => exact absurd h (hfails o)
    | error p =>
      obtain ⟨a, b, rfl, ha⟩ := of_tally_error h
      exact ⟨a, b, p, rfl, ha⟩

theorem allOpened_of_tally (h : tally [] bs = .ok o) : AllOpened bs := by
  rintro before p after rfl
  rw [tally_append] at h
  cases hbefore : tally [] before with
  | error q =>
    rw [hbefore] at h
    cases h
  | ok o' =>
    refine (isOpened_iff hbefore).2 ?_
    rintro rfl
    rw [hbefore] at h
    cases h

theorem Matched.allClosed (h : Matched bs) : AllClosed bs := by
  rintro before p after rfl
  refine isClosed_iff.2 fun o hafter => ?_
  have hall := h.tally []
  rw [tally_append] at hall
  cases hbefore : Balance.tally [] before with
  | error q =>
    rw [hbefore] at hall
    cases hall
  | ok o' =>
    -- what nothing closes is left
    rw [hbefore] at hall
    have hleft := Except.ok.inj ((tally_deeper hafter (p :: o')).symm.trans hall)
    exact absurd hleft (List.append_ne_nil_of_right_ne_nil _ (List.cons_ne_nil p o'))

/-- The outermost brace that is left open stands behind matched ones, and nothing closes it. -/
theorem Leaves.outermost (h : Leaves o bs) (hp : o.getLast? = some p) :
    ∃ a b o', bs = a ++ (.opening, p) :: b ∧ Matched a ∧ tally [] b = .ok o' := by
  induction h with
  | matched _ => cases hp
  | @opening o a b q ha hb ih =>
    cases ha with
    | matched ha =>
      cases hp
      exact ⟨a, b, [], rfl, ha, hb.tally []⟩
    | @opening o a c r ha hc =>
      rw [List.getLast?_cons_cons] at hp
      obtain ⟨x, y, o', heq, hx, hy⟩ := ih hp
      refine ⟨x, y ++ (.opening, q) :: b, q :: o', ?_, hx, ?_⟩
      · rw [heq, List.append_assoc]
        rfl
      · rw [tally_append, hy]
        exact hb.tally _

theorem isCulprit_of_error (h : tally [] bs = .error p) : IsCulprit bs p := by
  obtain ⟨a, b, rfl, ha⟩ := of_tally_error h
  exact .stray rfl (fun hopened => (isOpened_iff (ha.tally [])).1 hopened rfl)
    (allOpened_of_tally (ha.tally []))

theorem isCulprit_of_left (h : tally [] bs = .ok o) (hp : o.getLast? = some p) :
    IsCulprit bs p := by
  obtain ⟨a, b, o', rfl, ha, hb⟩ := (tally_eq_ok_iff.1 h).outermost hp
  refine .unclosed (allOpened_of_tally h) rfl (fun hclosed => isClosed_iff.1 hclosed o' hb) ?_
  exact fun x q y hx => (ha.allClosed x q y hx).append _

/-- **A tally finds the culprit, or there is none.** -/
theorem tally_cases (bs : Braces) :
    (tally [] bs = .ok [] ∧ AllOpened bs ∧ AllClosed bs) ∨
    ∃ p, IsCulprit bs p ∧
      (tally [] bs = .error p ∨ ∃ o, tally [] bs = .ok o ∧ o.getLast? = some p) := by
  cases h : tally [] bs with
  | error p => exact .inr ⟨p, isCulprit_of_error h, .inl rfl⟩
  | ok o =>
    cases hp : o.getLast? with
    | none =>
      obtain rfl := List.getLast?_eq_none_iff.1 hp
      cases tally_eq_ok_iff.1 h with
      | matched hm => exact .inl ⟨rfl, allOpened_of_tally h, hm.allClosed⟩
    | some p => exact .inr ⟨p, isCulprit_of_left h hp, .inr ⟨o, rfl, hp⟩⟩

end GameScript.Balance
