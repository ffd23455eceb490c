import TextTemplate.Proofs.Token.Tiling

/-! Tokens stand in their source: where a token says that it stands is where some beginning of the
source ends. -/

namespace TextTemplate

namespace Position

def IsIn (source : List Char) (p : Position) : Prop :=
  ∃ before, before <+: source ∧ p = start.advance before

theorem line_step (p : Position) (c : Char) :
    (p.step c).line = p.line + if c = '\n' then 1 else 0 := by
  unfold step
  split <;> rfl

theorem line_advance (p : Position) (cs : List Char) :
    (p.advance cs).line = p.line + cs.count '\n' := by
  induction cs generalizing p with
  | nil => rfl
  | cons c cs ih =>
    rw [advance_cons, ih, line_step, List.count_cons]
    simp only [beq_iff_eq]
    omega

end Position

namespace Scanner

variable {source : List Char} {s : Scanner}

structure Within (source : List Char) (s : Scanner) : Prop where
  place : ∃ before, before ++ s.ahead = source ∧ s.position = .advance .start before
  opened : ∀ p, s.mode = .unclosed p → p.IsIn source

theorem Within.position (h : s.Within source) : s.position.IsIn source := by
  obtain ⟨before, hsource, hposition⟩ := h.place
  exact ⟨before, ⟨s.ahead, hsource⟩, hposition⟩

theorem Within.onward {s' : Scanner} (h : s.Within source) (passed : List Char)
    (hahead : s.ahead = passed ++ s'.ahead) (hposition : s'.position = s.position.advance passed)
    (hopened : ∀ p, s'.mode = .unclosed p → p.IsIn source) : s'.Within source := by
  obtain ⟨before, hsource, hbefore⟩ := h.place
  refine ⟨⟨before ++ passed, ?_, ?_⟩, hopened⟩
  · rw [List.append_assoc, ← hahead, hsource]
  · rw [hposition, hbefore, Position.advance_append]

theorem within_openRegion {before after : List Char} (h : s.Within source) (hmode : s.mode = .text)
    (hopening : Text.cutAt s.delimiters.opening s.rest = some (before, after)) :
    (s.openRegion (s.position.advance before) after).Within source := by
  have hahead : s.ahead = before ++ s.delimiters.opening ++ after := by
    simp only [ahead, hmode, Text.eq_append_of_cutAt hopening]
  obtain ⟨passed, hsource, hposition⟩ := h.place
  have hopened : (s.position.advance before).IsIn source := by
    refine ⟨passed ++ before, ⟨s.delimiters.opening ++ after, ?_⟩, ?_⟩
    · rw [← hsource, hahead]
      simp only [List.append_assoc]
    · rw [hposition, Position.advance_append]
  unfold openRegion
  split
  · rename_i region rest hclosing
    refine h.onward (before ++ s.delimiters.opening) ?_ ?_ (by simp)
    · rw [hahead, Text.eq_append_of_cutAt hclosing]
      simp only [ahead, List.append_assoc]
    · rw [Position.advance_append]
  · refine h.onward (before ++ s.delimiters.opening) hahead ?_ fun p hp => ?_
    · rw [Position.advance_append]
    · cases hp
      exact hopened

theorem within_nextText (h : s.Within source) (hmode : s.mode = .text) :
    s.nextText.1.position.IsIn source ∧ s.nextText.2.Within source := by
  unfold nextText
  split
  · exact ⟨h.position, h⟩
  split
  · rename_i before after hopening
    exact ⟨h.position, within_openRegion h hmode hopening⟩
  · refine ⟨h.position, h.onward s.rest ?_ rfl fun p hp => ?_⟩
    · simp only [ahead, hmode, List.append_nil]
    · rw [hmode] at hp
      cases hp

theorem within_next (h : s.Within source) :
    s.next.1.position.IsIn source ∧ s.next.2.Within source := by
  cases hmode : s.mode with
  | text =>
    rw [next_eq_nextText hmode]
    exact within_nextText h hmode
  | unclosed opened =>
    rw [next_eq_unclosed hmode]
    refine ⟨h.opened opened hmode, h.onward s.rest ?_ rfl (by simp)⟩
    simp only [ahead, hmode, List.append_nil]
  | script fresh region =>
    by_cases hblank : region.all Text.isBlank
    · rw [next_closed hmode hblank]
      refine within_nextText (h.onward (region ++ s.delimiters.closing) ?_ rfl fun _ hp => ?_) rfl
      · rw [ahead_closed]
        simp only [ahead, hmode, List.append_assoc]
      · cases hp
    · rw [Bool.not_eq_true] at hblank
      obtain ⟨spelled, rest, t, hregion, -, -, hposition, -, hnext⟩ := next_region hmode hblank
      generalize region.takeWhile Text.isBlank = gap at hregion hposition hnext
      rw [hnext]
      have hgap : Within source { s with
          mode := .script false (spelled ++ rest)
          position := s.position.advance gap } := by
        refine h.onward gap ?_ rfl (by simp)
        simp only [ahead, hmode, hregion, List.append_assoc]
      refine ⟨hposition ▸ hgap.position, h.onward (gap ++ spelled) ?_ rfl (by simp)⟩
      simp only [ahead, hmode, hregion, List.append_assoc]

theorem isIn_of_mem_tokens (h : s.Within source) :
    ∀ t ∈ s.tokens, t.position.IsIn source := by
  fun_induction tokens s with
  | case1 s t later hnext hend =>
    have hwithin := within_next h
    rw [hnext] at hwithin
    exact List.forall_mem_singleton.2 hwithin.1
  | case2 s t later hnext hend ih =>
    have hwithin := within_next h
    rw [hnext] at hwithin
    exact List.forall_mem_cons.2 ⟨hwithin.1, ih hwithin.2⟩

theorem within_ofString (delimiters : Delimiters) (source : String) :
    (ofString delimiters source).Within source.toList :=
  ⟨⟨[], rfl, rfl⟩, nofun⟩

end Scanner
end TextTemplate
