import GameScript.Proofs.Script.LineByLine
import GameScript.Script.Source

/-!
# Words that are evident to a pass over characters

The simple check and the cleaning of lines go over characters: every double quote opens or closes
quotes, escaped or not, and square brackets mean nothing. A word is evident to them if it closes
its quotes so and shows no comment outside of them. Such a pass goes over an evident word
(`CutsOff.passes`): no comment starts in the word and ends behind it. Every word without brackets
and without escapes in quotes is evident and shows no brace (`CutsOff.isTraceless`).
-/

namespace GameScript

open Text Lexer

/-- The markers of comments that files have by default. -/
def usualMarkers : List Text := ["#", "--", "//"]

/-- A marker that is one mark, once or more. -/
def IsRepeated (m : Text) : Prop :=
  ∃ c n, m = List.replicate (n + 1) c ∧ PlainMarker m ∧ isGap c = false ∧ isControl c = false ∧
    c ∉ ['"', '[', ']']

def outsideQuotes : Bool → Text → Text
  | _, [] => []
  | quoted, c :: cs =>
    if c = '"' then outsideQuotes (!quoted) cs
    else if quoted then outsideQuotes quoted cs
    else c :: outsideQuotes quoted cs

/-- A word that shows no comment outside of quotes and closes them, when every double quote opens or
closes quotes. -/
def IsEvident (m w : Text) : Prop := beforeComment m false w = w ∧ w.count '"' % 2 = 0

instance (m w : Text) : Decidable (IsEvident m w) := inferInstanceAs (Decidable (_ ∧ _))

/-- An evident word that shows no brace either. -/
def IsTraceless (m w : Text) : Prop :=
  IsEvident m w ∧ '{' ∉ outsideQuotes false w ∧ '}' ∉ outsideQuotes false w

instance (m w : Text) : Decidable (IsTraceless m w) := inferInstanceAs (Decidable (_ ∧ _))

/-- Whether a text has square brackets, or backslashes and quotes. -/
def IsIntricate (w : Text) : Prop := '[' ∈ w ∨ '"' ∈ w ∧ '\\' ∈ w

instance (w : Text) : Decidable (IsIntricate w) := inferInstanceAs (Decidable (_ ∨ _))

/-- Whether a pass over `w`, which `r` follows, meets no comment and ends outside of quotes. -/
def Passes (m r : Text) : Bool → Text → Prop
  | quoted, [] => quoted = false
  | quoted, c :: w =>
    if c = '"' then Passes m r (!quoted) w
    else (quoted = false → isCommentAt m (c :: (w ++ r)) = false) ∧ Passes m r quoted w

section

variable {m r t w : Text} {c d : Char} {quoted : Bool} {s : WordState}

/-! ## Markers -/

theorem isRepeated_of_usual (h : m ∈ usualMarkers) : IsRepeated m := by
  simp only [usualMarkers, List.mem_cons, List.not_mem_nil, or_false] at h
  rcases h with rfl | rfl | rfl
  · exact ⟨'#', 0, rfl, plainMarker_hash, by decide, by decide, by decide⟩
  · refine ⟨'-', 1, rfl, fun c hc => ?_, by decide, by decide, by decide⟩
    obtain rfl : c = '-' := by simpa using hc
    decide
  · refine ⟨'/', 1, rfl, fun c hc => ?_, by decide, by decide, by decide⟩
    obtain rfl : c = '/' := by simpa using hc
    decide

theorem IsRepeated.plain (h : IsRepeated m) : PlainMarker m := by
  obtain ⟨c, n, -, hplain, -⟩ := h
  exact hplain

theorem IsRepeated.ne_nil (h : IsRepeated m) : m ≠ [] := by
  obtain ⟨c, n, rfl, -⟩ := h
  exact List.cons_ne_nil _ _

/-- No marker has a part in quotes and brackets, nor in gaps and what is illegal. -/
theorem IsRepeated.foreign (h : IsRepeated m)
    (hd : isGap d = true ∨ isControl d = true ∨ d ∈ ['"', '[', ']']) : d ∉ m := by
  obtain ⟨c, n, rfl, -, hgap, hcontrol, hspecial⟩ := h
  intro hmem
  obtain rfl := List.eq_of_mem_replicate hmem
  rcases hd with hd | hd | hd
  · exact Bool.false_ne_true (hgap.symm.trans hd)
  · exact Bool.false_ne_true (hcontrol.symm.trans hd)
  · exact hspecial hd

theorem IsRepeated.ne_of_mem (h : IsRepeated m) (hd : d ∈ m) : d ≠ '"' ∧ d ≠ '[' ∧ d ≠ ']' := by
  have hspecial : d ∉ ['"', '[', ']'] := fun hmem => h.foreign (.inr (.inr hmem)) hd
  simpa using hspecial

theorem IsRepeated.feed_not_mem (h : IsRepeated m) : '\n' ∉ m := h.foreign (.inl rfl)

/-! ## Where words end -/

/-- What a marker is made of ends a word where a comment starts, and nowhere else. -/
theorem stopsWord_of_mem (hm : IsRepeated m) (hd : d ∈ m) {b : Bool} {cs : Text} :
    stopsWord m (.plain b) d cs = (!b && isCommentAt m (d :: cs)) := by
  obtain ⟨hblank, hop, hquestion, hopen, hclose⟩ := hm.plain d hd
  have hcontrol : isControl d = false := Bool.eq_false_iff.2 fun h => hm.foreign (.inr (.inl h)) hd
  have hfeed : d ≠ '\n' := by rintro rfl; cases hcontrol
  have hreturn : d ≠ '\r' := by rintro rfl; cases hcontrol
  obtain ⟨hquote, hleft, hright⟩ := hm.ne_of_mem hd
  simp [stopsWord, endsWord, isOperatorAt, hblank, hop, hcontrol, bne, beq_false_of_ne hquestion,
    beq_false_of_ne hopen, beq_false_of_ne hclose, beq_false_of_ne hfeed, beq_false_of_ne hreturn,
    beq_false_of_ne hquote, beq_false_of_ne hleft, beq_false_of_ne hright]

theorem stopsWord_of_spanWord {cs : Text} (h : spanWord m s (c :: cs) = ⟨[], c :: cs, none⟩) :
    stopsWord m s c cs = true := by
  rw [spanWord_cons] at h
  split at h
  · next hstops => exact hstops
  · cases (WordSpan.mk.inj h).1

/-- The last character of a word was read where the word ends, if it is none of quotes and
brackets. -/
theorem CutsOff.before_last (h : CutsOff m (.word (w ++ [d])) r) (hquote : d ≠ '"')
    (hopen : d ≠ '[') (hclose : d ≠ ']') :
    ∃ b, stopsWord m (.plain b) d r = false ∧ spanWord m (.plain b) r = ⟨[], r, none⟩ := by
  obtain ⟨_, _, _, _, _, hspan⟩ := cutsOff_word_iff.1 h
  rw [List.append_assoc] at hspan
  obtain ⟨hstop, hend⟩ := of_spanWord_cons (spanWord_after_append hspan)
  generalize (WordState.plain false).after w = s at hstop hend
  obtain ⟨b, hb⟩ := plain_of_spanWord hend
  cases s with
  | escaped b' n => cases hb
  | quoted b' n =>
    rw [WordState.next, if_neg hquote] at hb
    split at hb <;> cases hb
  | plain b' =>
    rw [WordState.next, if_neg hquote, if_neg hopen, if_neg hclose] at hend
    exact ⟨b', hstop, hend⟩

/-- **No comment starts in a word and ends behind it.** -/
theorem CutsOff.not_comment_across (hm : IsRepeated m) (h : CutsOff m (.word w) r) {u v : Text}
    (hw : w = u ++ v) (hv : v ≠ []) (hcomment : isCommentAt m v = false) :
    isCommentAt m (v ++ r) = false := by
  refine Bool.eq_false_iff.2 fun hat => ?_
  obtain ⟨hne, hprefix⟩ := isCommentAt_iff.1 hat
  have hmark := hm
  obtain ⟨d, n, rfl, -⟩ := hmark
  -- the marker begins with all of `v` and goes on with some of `r`
  obtain ⟨a, ha⟩ : ∃ a, v ++ a = List.replicate (n + 1) d := by
    rcases List.prefix_or_prefix_of_prefix hprefix (List.prefix_append v r) with hp | hp
    · exact absurd (isCommentAt_iff.2 ⟨hne, hp⟩) (Bool.eq_false_iff.1 hcomment)
    · exact hp
  obtain ⟨hlength, hall, hrest⟩ := List.append_eq_replicate_iff.1 ha
  obtain ⟨v', rfl⟩ : ∃ v', v = v' ++ [d] := by
    obtain ⟨k, hk⟩ := Nat.exists_eq_succ_of_ne_zero fun h0 => hv (List.length_eq_zero_iff.1 h0)
    exact ⟨List.replicate k d, by rw [hall, hk, List.replicate_succ']⟩
  obtain ⟨r', rfl⟩ : ∃ r', r = d :: r' := by
    rw [← ha] at hprefix
    obtain ⟨r', rfl⟩ := (List.prefix_append_right_inj _).1 hprefix
    cases a with
    | nil =>
      rw [List.append_nil] at ha
      exact absurd (isCommentAt_iff.2 ⟨hne, ha ▸ List.prefix_refl _⟩)
        (Bool.eq_false_iff.1 hcomment)
    | cons e a =>
      obtain rfl := (List.eq_replicate_iff.1 hrest).2 e List.mem_cons_self
      exact ⟨_, rfl⟩
  have hd : d ∈ List.replicate (n + 1) d := List.mem_replicate.2 ⟨Nat.succ_ne_zero n, rfl⟩
  obtain ⟨hquote, hopen, hclose⟩ := hm.ne_of_mem hd
  rw [hw, ← List.append_assoc] at h
  obtain ⟨b, hgoes, hend⟩ := h.before_last hquote hopen hclose
  have hstops := stopsWord_of_spanWord hend
  -- what is behind the word starts with the marker, so the last mark of the word does already
  rw [stopsWord_of_mem hm hd, Bool.and_eq_true] at hstops
  rw [stopsWord_of_mem hm hd, hstops.1, Bool.true_and] at hgoes
  refine Bool.eq_false_iff.1 hgoes (isCommentAt_iff.2 ⟨hne, ?_⟩)
  have hfewer : List.replicate n d <+: List.replicate (n + 1) d :=
    ⟨[d], List.replicate_succ'.symm⟩
  exact List.cons_prefix_cons.2 ⟨rfl, hfewer.trans (isCommentAt_iff.1 hstops.2).2⟩

theorem outsideQuotes_subset (quoted : Bool) (w : Text) : outsideQuotes quoted w ⊆ w := by
  induction w generalizing quoted with
  | nil => exact List.Subset.refl []
  | cons c w ih =>
    rw [outsideQuotes]
    split
    · exact List.Subset.trans (ih _) (List.subset_cons_self c w)
    · split
      · exact List.Subset.trans (ih _) (List.subset_cons_self c w)
      · exact List.cons_subset_cons c (ih _)

/-! ## Passing over a token -/

/-- A pass goes over a word that is evident to it. -/
theorem passes_of_evident (hcut : beforeComment m quoted w = w)
    (heven : (w.count '"' + quoted.toNat) % 2 = 0)
    (hacross : ∀ u v, w = u ++ v → v ≠ [] → isCommentAt m v = false →
      isCommentAt m (v ++ r) = false) : Passes m r quoted w := by
  induction w generalizing quoted with
  | nil =>
    cases quoted with
    | false => rfl
    | true => cases heven
  | cons c w ih =>
    have hacross' : ∀ u v, w = u ++ v → v ≠ [] → isCommentAt m v = false →
        isCommentAt m (v ++ r) = false := by
      rintro u v rfl
      exact hacross (c :: u) v rfl
    rw [beforeComment] at hcut
    rw [Passes]
    by_cases hq : c = '"'
    · rw [if_pos hq] at hcut ⊢
      refine ih (List.cons.inj hcut).2 ?_ hacross'
      subst hq
      rw [List.count_cons_self] at heven
      cases quoted <;> simp at heven ⊢ <;> omega
    · rw [if_neg hq] at hcut ⊢
      split at hcut
      · cases hcut
      · next hno =>
        rw [List.count_cons_of_ne hq] at heven
        refine ⟨fun hout => ?_, ih (List.cons.inj hcut).2 heven hacross'⟩
        rw [hout, Bool.not_false, Bool.true_and, Bool.not_eq_true] at hno
        exact hacross [] (c :: w) rfl (List.cons_ne_nil _ _) hno

theorem CutsOff.passes (hm : IsRepeated m) (h : CutsOff m (.word w) r) (hw : IsEvident m w) :
    Passes m r false w :=
  passes_of_evident hw.1 (by simpa using hw.2) fun _ _ => h.not_comment_across hm

/-- A pass goes over what has neither quotes nor a part in the marker. -/
theorem passes_of_foreign (h : ∀ c ∈ w, c ∉ m ∧ c ≠ '"') : Passes m r false w := by
  induction w with
  | nil => exact rfl
  | cons c w ih =>
    rw [List.forall_mem_cons] at h
    rw [Passes, if_neg h.1.2]
    exact ⟨fun _ => isCommentAt_foreign h.1.1 _, ih h.2⟩

/-- **A pass goes over every token** but comments and quotes that are never closed, if the words are
evident to it. -/
theorem passes_cut (hm : IsRepeated m) {p : Position} {cs : Text} (hgap : isGap c = false)
    (hcomment : (cut m p c cs).kind.isComment = false)
    (hclosed : (cut m p c cs).kind.isUnclosed = false)
    (hword : ∀ w, (cut m p c cs).kind = .word w → IsEvident m w) :
    Passes m (cut m p c cs).rest false (cut m p c cs).lexeme := by
  rcases cutsOff_or_control hgap hcomment hclosed with ⟨hlexeme, hcut⟩ | ⟨hcontrol, hall⟩
  · rw [hlexeme]
    cases hkind : (cut m p c cs).kind with
    | word w => exact (hkind ▸ hcut).passes hm (hword w hkind)
    | operator o =>
      rw [hkind] at hcut
      obtain ⟨_, _, _, _, _, hspan⟩ := cutsOff_operator_iff.1 hcut
      refine passes_of_foreign fun d hd => ⟨?_, (hcut.operator_marks.2 d hd).2⟩
      obtain ⟨ds, hds⟩ := isOperatorAt_of_mem hspan d hd
      exact hm.plain.operator hds
    | openBrace =>
      exact passes_of_foreign (List.forall_mem_singleton.2 ⟨hm.plain.openBrace, by decide⟩)
    | closeBrace =>
      exact passes_of_foreign (List.forall_mem_singleton.2 ⟨hm.plain.closeBrace, by decide⟩)
    | comment body | endOfInput | illegal cause => rfl
  · rw [hall]
    refine passes_of_foreign (List.forall_mem_singleton.2 ⟨hm.foreign (.inr (.inl hcontrol)), ?_⟩)
    rintro rfl
    cases hcontrol

theorem Passes.beforeComment_append (h : Passes m r quoted w) :
    beforeComment m quoted (w ++ r) = w ++ beforeComment m false r := by
  induction w generalizing quoted with
  | nil =>
    obtain rfl : quoted = false := h
    rfl
  | cons c w ih =>
    rw [Passes] at h
    rw [List.cons_append, beforeComment]
    split
    · next hq =>
      rw [if_pos hq] at h
      rw [ih h]
      rfl
    · next hq =>
      rw [if_neg hq] at h
      have hno : (!quoted && isCommentAt m (c :: (w ++ r))) = false := by
        cases quoted with
        | true => rfl
        | false => rw [h.1 rfl]; rfl
      rw [hno, if_neg Bool.false_ne_true, ih h.2]
      rfl

/-! ## Words without escapes and brackets -/

/-- Whether a word goes on over these characters, in front of `r`. -/
def Takes (m r : Text) : WordState → Text → Prop
  | _, [] => True
  | s, c :: w => stopsWord m s c (w ++ r) = false ∧ Takes m r (s.next c) w

/-- A word goes on over its own characters, whether its quotes are closed or not. -/
theorem takes_spanWord (s : WordState) (t : Text) :
    Takes m (spanWord m s t).rest s (spanWord m s t).word := by
  induction t generalizing s with
  | nil => cases s <;> exact trivial
  | cons c t ih =>
    rw [spanWord_cons]
    split
    · exact trivial
    · next hgoes =>
      refine ⟨?_, ih (s.next c)⟩
      show stopsWord m s c
        ((spanWord m (s.next c) t).word ++ (spanWord m (s.next c) t).rest) = false
      rw [spanWord_append]
      exact Bool.eq_false_iff.2 hgoes

/-- Where a pass over characters is while a word is read, outside of brackets and escapes. -/
inductive SeenAs : WordState → Bool → Prop
  | outside : SeenAs (.plain false) false
  | inside {n : Nat} : SeenAs (.quoted false n) true

theorem of_not_stopsWord (hm : IsRepeated m) {cs : Text} (hquote : c ≠ '"') (hopen : c ≠ '[')
    (h : stopsWord m (.plain false) c cs = false) :
    isCommentAt m (c :: cs) = false ∧ c ≠ '{' ∧ c ≠ '}' := by
  by_cases hclose : c = ']'
  · subst hclose
    exact ⟨isCommentAt_foreign (hm.foreign (.inr (.inr (by simp)))) cs, by decide, by decide⟩
  · simp only [stopsWord, endsWord, bne_iff_ne.2 hquote, bne_iff_ne.2 hopen, bne_iff_ne.2 hclose,
      Bool.true_and, Bool.not_false, Bool.or_eq_false_iff] at h
    obtain ⟨⟨⟨⟨hbrace, hbrace'⟩, -⟩, -⟩, ⟨-, hcomment⟩, -⟩ := h
    exact ⟨hcomment, ne_of_beq_false hbrace, ne_of_beq_false hbrace'⟩

/-- Without brackets, and with no escapes where there are quotes, a word is evident to a pass and
shows no brace to it. -/
theorem Takes.seen (hm : IsRepeated m) (h : Takes m r s w) (hs : SeenAs s quoted) (hopen : '[' ∉ w)
    (hescape : quoted = true ∨ '"' ∈ w → '\\' ∉ w) : ∃ after, SeenAs (s.after w) after ∧
      beforeComment m quoted w = w ∧ (w.count '"' + quoted.toNat) % 2 = after.toNat ∧
      '{' ∉ outsideQuotes quoted w ∧ '}' ∉ outsideQuotes quoted w := by
  induction w generalizing s quoted with
  | nil =>
    refine ⟨quoted, hs, rfl, ?_, List.not_mem_nil, List.not_mem_nil⟩
    cases quoted <;> rfl
  | cons c w ih =>
    obtain ⟨hgoes, h⟩ := h
    rw [List.mem_cons, not_or] at hopen
    have hescape' : quoted = true ∨ '"' ∈ w → '\\' ∉ w := fun hseen hmem =>
      hescape (hseen.imp_right (List.mem_cons_of_mem c)) (List.mem_cons_of_mem c hmem)
    by_cases hquote : c = '"'
    · -- a quote opens or closes quotes for both, and no escape follows it
      subst hquote
      have hno : '\\' ∉ w := fun hmem =>
        hescape (.inr List.mem_cons_self) (List.mem_cons_of_mem _ hmem)
      have hnext : SeenAs (s.next '"') (!quoted) := by
        cases hs with
        | outside => exact .inside
        | inside => exact .outside
      obtain ⟨after, hafter, hcut, hcount, hbraces⟩ := ih h hnext hopen.2 fun _ => hno
      refine ⟨after, hafter, ?_, ?_, hbraces⟩
      · rw [beforeComment, if_pos rfl, hcut]
      · rw [List.count_cons_self, ← hcount]
        cases quoted with
        | false => rfl
        | true => exact Nat.add_mod_right _ 2
    · have hcount : (c :: w).count '"' = w.count '"' := List.count_cons_of_ne hquote
      rw [hcount, beforeComment, if_neg hquote, outsideQuotes, if_neg hquote]
      cases hs with
      | outside =>
        -- the word would stop at a comment or a brace
        have hnext : (WordState.plain false).next c = .plain false := by
          rw [WordState.next, if_neg hquote, if_neg (Ne.symm hopen.1), ite_self]
        rw [hnext] at h
        obtain ⟨after, hafter, hcut, hcount, hbrace, hbrace'⟩ := ih h .outside hopen.2 hescape'
        obtain ⟨hcomment, hc, hc'⟩ := of_not_stopsWord hm hquote (Ne.symm hopen.1) hgoes
        have hcomment : isCommentAt m (c :: w) = false := Bool.eq_false_iff.2 fun hat => by
          obtain ⟨hne, hprefix⟩ := isCommentAt_iff.1 hat
          have hlonger := isCommentAt_iff.2 ⟨hne, hprefix.trans (List.prefix_append _ r)⟩
          exact Bool.false_ne_true (hcomment.symm.trans hlonger)
        refine ⟨after, ?_, ?_, hcount, ?_, ?_⟩
        · rwa [WordState.after, List.foldl_cons, hnext]
        · rw [hcomment, Bool.and_false, if_neg Bool.false_ne_true, hcut]
        · exact List.not_mem_cons_of_ne_of_not_mem (Ne.symm hc) hbrace
        · exact List.not_mem_cons_of_ne_of_not_mem (Ne.symm hc') hbrace'
      | @inside n =>
        have hc : c ≠ '\\' := by
          rintro rfl
          exact hescape (.inl rfl) List.mem_cons_self
        have hnext : (WordState.quoted false n).next c = .quoted false (n + 1) := by
          rw [WordState.next, if_neg hquote, if_neg hc]
        rw [hnext] at h
        obtain ⟨after, hafter, hcut, hbraces⟩ := ih h .inside hopen.2 hescape'
        refine ⟨after, ?_, ?_, hbraces⟩
        · rwa [WordState.after, List.foldl_cons, hnext]
        · rw [Bool.not_true, Bool.false_and, if_neg Bool.false_ne_true, hcut]

/-- What a word goes on over from its start is copied by a pass that cuts comments, if it is not
intricate. -/
theorem Takes.seen_start (hm : IsRepeated m) (h : Takes m r (.plain false) w)
    (hplain : ¬ IsIntricate w) : ∃ after, SeenAs ((WordState.plain false).after w) after ∧
      beforeComment m false w = w ∧ w.count '"' % 2 = after.toNat ∧
      '{' ∉ outsideQuotes false w ∧ '}' ∉ outsideQuotes false w := by
  rw [IsIntricate, not_or, not_and] at hplain
  exact h.seen hm .outside hplain.1 fun hseen => hplain.2 (hseen.resolve_left Bool.false_ne_true)

/-- **A word that is not intricate is evident to a pass**, and its braces are in quotes. -/
theorem CutsOff.isTraceless (hm : IsRepeated m) (h : CutsOff m (.word w) r)
    (hplain : ¬ IsIntricate w) : IsTraceless m w := by
  obtain ⟨_, _, _, _, _, hspan⟩ := cutsOff_word_iff.1 h
  have htakes := takes_spanWord (m := m) (.plain false) (w ++ r)
  rw [hspan] at htakes
  obtain ⟨after, hafter, hcut, hcount, hbraces⟩ := htakes.seen_start hm hplain
  -- the word ends outside of quotes
  obtain ⟨b, hb⟩ := plain_of_spanWord (spanWord_after hspan)
  rw [hb] at hafter
  cases hafter
  exact ⟨⟨hcut, hcount⟩, hbraces⟩

end

end GameScript
