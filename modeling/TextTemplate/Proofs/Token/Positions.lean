import Mathlib.Data.List.DropRight
import TextTemplate.Proofs.Token.Order
import TextTemplate.Proofs.Token.Places
import TextTemplate.Proofs.Token.Replay

/-! The position of a token counts the lines and the characters of the source before the first
character of the token. -/

namespace TextTemplate

namespace Position

/-- The position behind a beginning of the source: the number of its lines, and one more than the
number of characters in the last of them. -/
def behind (before : List Char) : Position :=
  ⟨1 + before.count '\n', 1 + (before.rtakeWhile (· != '\n')).length⟩

theorem behind_snoc (before : List Char) (c : Char) :
    behind (before ++ [c]) = (behind before).step c := by
  by_cases hc : c = '\n' <;> simp [behind, step, hc, Nat.add_assoc]

theorem start_advance (before : List Char) : start.advance before = behind before := by
  induction before using List.reverseRecOn with
  | nil => rfl
  | append_singleton before c ih =>
    rw [advance_append, ih, behind_snoc]
    rfl

theorem behind_le {before before' : List Char} (h : before <+: before') :
    behind before ≤ behind before' := by
  obtain ⟨more, rfl⟩ := h
  rw [← start_advance, ← start_advance, advance_append]
  exact le_advance _ _

end Position

/-- What a token is, read off the source from its first character on: for a region that is not
closed that is the first one of its opening delimiter, and the end of input has none. -/
def Token.Heads (d : Delimiters) (t : Token) (text : List Char) : Prop :=
  match t.lexeme with
  | .text content => ∃ after, text = content.toList ++ after ∧ (after = [] ∨ d.opening <+: after)
  | .unclosed _ => d.opening <+: text
  | .endOfInput => text = []
  | lexeme => ∃ region n, region <+: text ∧ 0 < n ∧ Lexeme.Begins region lexeme n

theorem Token.heads_of_inRegion {d : Delimiters} {t : Token} {text region : List Char} {n : Nat}
    (h : t.lexeme.inRegion) (hregion : region <+: text) (hn : 0 < n)
    (hbegins : Lexeme.Begins region t.lexeme n) : t.Heads d text := by
  obtain ⟨lexeme, position⟩ := t
  cases lexeme with
  | text | unclosed | endOfInput => cases h
  | _ => exact ⟨region, n, hregion, hn, hbegins⟩

theorem Token.heads_text {d : Delimiters} {p : Position} {content after : List Char} :
    (⟨.text (String.ofList content), p⟩ : Token).Heads d (content ++ (d.opening ++ after)) :=
  ⟨_, by rw [String.toList_ofList], .inr (List.prefix_append ..)⟩

namespace Scanner

inductive TextStep (s : Scanner) : Token × Scanner → Prop
  | finish : s.rest = [] → TextStep s (Token.endOfInput s.position, s)
  | last : TextStep s (⟨.text (String.ofList s.rest), s.position⟩,
      { s with rest := [], position := s.position.advance s.rest })
  | enter {before region rest : List Char} :
    s.rest = before ++ (s.delimiters.opening ++ (region ++ (s.delimiters.closing ++ rest))) →
      TextStep s (⟨.text (String.ofList before), s.position⟩,
        { s with
          mode := .script true region
          rest
          position := (s.position.advance before).advance s.delimiters.opening })
  | unclosed {before after : List Char} :
    s.rest = before ++ (s.delimiters.opening ++ after) →
      TextStep s (⟨.text (String.ofList before), s.position⟩,
        { s with
          mode := .unclosed (s.position.advance before)
          rest := after
          position := (s.position.advance before).advance s.delimiters.opening })

inductive Step (s : Scanner) : Token × Scanner → Prop
  | text {r : Token × Scanner} : s.mode = .text → TextStep s r → Step s r
  | leave {fresh : Bool} {region : List Char} {r : Token × Scanner} :
    s.mode = .script fresh region → region.all Text.isBlank → TextStep (s.closed region) r →
      Step s r
  | region {fresh : Bool} {region gap spelled rest : List Char} {t : Token} :
    s.mode = .script fresh region → region.all Text.isBlank = false →
      region.takeWhile Text.isBlank = gap → region = gap ++ (spelled ++ rest) → spelled ≠ [] →
      t.lexeme.inRegion → t.position = s.position.advance gap →
      Lexeme.Begins (spelled ++ rest) t.lexeme spelled.length →
      Step s (t, { s with
        mode := .script false rest
        position := s.position.advance (gap ++ spelled) })
  | unclosed {opened : Position} : s.mode = .unclosed opened →
    Step s (⟨.unclosed (String.ofList s.delimiters.closing), opened⟩,
      { s with mode := .text, rest := [], position := s.position.advance s.rest })

variable {d : Delimiters} {source : List Char} {s : Scanner} {r : Token × Scanner}

theorem step_nextText (s : Scanner) : TextStep s s.nextText := by
  unfold nextText
  split
  · rename_i hrest
    exact .finish (List.isEmpty_iff.1 hrest)
  split
  · rename_i before after hopening
    have hrest := Text.eq_append_of_cutAt hopening
    rw [List.append_assoc] at hrest
    unfold openRegion
    split
    · rename_i region rest hclosing
      rw [Text.eq_append_of_cutAt hclosing, List.append_assoc] at hrest
      exact .enter hrest
    · exact .unclosed hrest
  · exact .last

theorem step_next (s : Scanner) : Step s s.next := by
  cases hmode : s.mode with
  | text =>
    rw [next_eq_nextText hmode]
    exact .text hmode (step_nextText s)
  | unclosed opened =>
    rw [next_eq_unclosed hmode]
    exact .unclosed hmode
  | script fresh region =>
    by_cases hblank : region.all Text.isBlank
    · rw [next_closed hmode hblank]
      exact .leave hmode hblank (step_nextText _)
    · rw [Bool.not_eq_true] at hblank
      obtain ⟨spelled, rest, t, hregion, hspelled, hlexeme, hposition, hbegins, hnext⟩ :=
        next_region hmode hblank
      rw [hnext]
      exact .region hmode hblank rfl hregion hspelled hlexeme hposition hbegins

theorem Step.delimiters (h : Step s r) : r.2.delimiters = s.delimiters := by
  cases h with
  | text _ h => cases h <;> rfl
  | leave _ _ h => cases h <;> rfl
  | region | unclosed => rfl

def facing (s : Scanner) : List Char :=
  match s.mode with
  | .unclosed _ => s.delimiters.opening ++ s.rest
  | .text | .script _ _ => s.ahead.drop s.skipped.length

theorem facing_text (hmode : s.mode = .text) : s.facing = s.rest := by
  simp only [facing, ahead, skipped, hmode]
  rfl

theorem facing_unclosed {opened : Position} (hmode : s.mode = .unclosed opened) :
    s.facing = s.delimiters.opening ++ s.rest := by
  simp only [facing, hmode]

theorem facing_suffix {fresh : Bool} {region : List Char} (hmode : s.mode = .script fresh region) :
    s.facing <:+ s.ahead := by
  simp only [facing, hmode]
  exact List.drop_suffix ..

theorem facing_closed {fresh : Bool} {region : List Char} (hmode : s.mode = .script fresh region)
    (hblank : region.all Text.isBlank) : s.facing = s.rest := by
  simp only [facing, ahead, skipped, hmode, hblank, if_true, ← List.append_assoc, List.drop_left]

theorem facing_region {fresh : Bool} {region gap text : List Char}
    (hmode : s.mode = .script fresh region) (hblank : region.all Text.isBlank = false)
    (hgap : region.takeWhile Text.isBlank = gap) (hregion : region = gap ++ text) :
    s.facing = text ++ (s.delimiters.closing ++ s.rest) := by
  have hskipped : s.skipped = gap := by
    simp only [skipped, hmode, hblank, hgap]
    rfl
  have hahead : s.ahead = gap ++ (text ++ (s.delimiters.closing ++ s.rest)) := by
    simp only [ahead, hmode, hregion, List.append_assoc]
  simp only [facing, hmode, hskipped, hahead, List.drop_left]

theorem TextStep.facing_suffix (h : TextStep s r) (hmode : s.mode = .text) :
    r.2.facing <:+ s.rest := by
  cases h with
  | finish => exact (facing_text hmode).symm ▸ List.suffix_rfl
  | last =>
    rw [facing_text (by exact hmode)]
    exact List.nil_suffix
  | enter hrest =>
    refine (Scanner.facing_suffix rfl).trans ?_
    rw [hrest, ← List.append_assoc]
    exact List.suffix_append ..
  | unclosed hrest =>
    rw [facing_unclosed rfl, hrest]
    exact List.suffix_append ..

theorem Step.facing_suffix (h : Step s r) : r.2.facing <:+ s.facing := by
  cases h with
  | text hmode h =>
    rw [facing_text hmode]
    exact h.facing_suffix hmode
  | leave hmode hblank h =>
    rw [facing_closed hmode hblank]
    exact h.facing_suffix rfl
  | region hmode hblank hgap hregion =>
    rw [facing_region hmode hblank hgap hregion, List.append_assoc]
    exact (Scanner.facing_suffix rfl).trans (List.suffix_append ..)
  | unclosed =>
    rw [facing_text rfl]
    exact List.nil_suffix

theorem Within.closed {fresh : Bool} {region : List Char} (h : s.Within source)
    (hmode : s.mode = .script fresh region) : (s.closed region).Within source := by
  refine h.onward (region ++ s.delimiters.closing) ?_ rfl fun _ hp => ?_
  · rw [ahead_closed]
    simp only [ahead, hmode, List.append_assoc]
  · cases hp

theorem Within.place_text (h : s.Within source) (hmode : s.mode = .text) :
    ∃ before, before ++ s.rest = source ∧ s.position = .advance .start before := by
  have hplace := h.place
  simp only [ahead, hmode] at hplace
  exact hplace

structure Standing (d : Delimiters) (source : List Char) (s : Scanner) : Prop
    extends s.Within source where
  delimiters : s.delimiters = d
  delimiter : ∀ opened, s.mode = .unclosed opened →
    ∃ before, before ++ s.facing = source ∧ opened = .advance .start before

theorem TextStep.delimiter (h : TextStep s r) (hmode : s.mode = .text) (hs : s.Within source)
    {opened : Position} (hopened : r.2.mode = .unclosed opened) :
    ∃ before, before ++ r.2.facing = source ∧ opened = .advance .start before := by
  cases h with
  | finish | last =>
    rw [show s.mode = .unclosed opened from hopened] at hmode
    cases hmode
  | enter => cases hopened
  | unclosed hrest =>
    rename_i before after
    cases hopened
    obtain ⟨passed, hsource, hposition⟩ := hs.place_text hmode
    refine ⟨passed ++ before, ?_, ?_⟩
    · rw [facing_unclosed rfl, List.append_assoc, ← hrest, hsource]
    · rw [hposition, Position.advance_append]

theorem Step.delimiter (h : Step s r) (hs : s.Within source) {opened : Position}
    (hopened : r.2.mode = .unclosed opened) :
    ∃ before, before ++ r.2.facing = source ∧ opened = .advance .start before := by
  cases h with
  | text hmode h => exact h.delimiter hmode hs hopened
  | leave hmode _ h => exact h.delimiter rfl (hs.closed hmode) hopened
  | region | unclosed => cases hopened

theorem Standing.next (h : s.Standing d source) : s.next.2.Standing d source where
  toWithin := (within_next h.toWithin).2
  delimiters := (step_next s).delimiters.trans h.delimiters
  delimiter _ := (step_next s).delimiter h.toWithin

theorem Standing.past (h : s.Standing d source) (k : Nat) : (s.past k).Standing d source := by
  induction k with
  | zero => exact h
  | succ k ih =>
    rw [past_succ]
    exact ih.next

theorem standing_ofString (d : Delimiters) (source : String) :
    (ofString d source).Standing d source.toList where
  toWithin := within_ofString d source
  delimiters := rfl
  delimiter := nofun

structure Stands (d : Delimiters) (source facing : List Char) (t : Token) : Prop where
  position : ∃ before, before ++ facing = source ∧ t.position = .behind before
  heads : t.Heads d facing

theorem TextStep.stands (h : TextStep s r) (hmode : s.mode = .text) (hs : s.Standing d source) :
    Stands d source s.rest r.1 := by
  obtain ⟨passed, hsource, hposition⟩ := hs.toWithin.place_text hmode
  rw [Position.start_advance] at hposition
  cases h with
  | finish hrest => exact ⟨⟨passed, hsource, hposition⟩, hrest⟩
  | last =>
    refine ⟨⟨passed, hsource, hposition⟩, [], ?_, .inl rfl⟩
    rw [String.toList_ofList, List.append_nil]
  | enter hrest | unclosed hrest =>
    refine ⟨⟨passed, hsource, hposition⟩, ?_⟩
    rw [hrest, hs.delimiters]
    exact Token.heads_text

theorem Step.stands (h : Step s r) (hs : s.Standing d source) : Stands d source s.facing r.1 := by
  cases h with
  | text hmode h =>
    rw [facing_text hmode]
    exact h.stands hmode hs
  | leave hmode hblank h =>
    rw [facing_closed hmode hblank]
    exact h.stands rfl ⟨hs.toWithin.closed hmode, hs.delimiters, nofun⟩
  | region hmode hblank hgap hregion hspelled hlexeme hposition hbegins =>
    rename_i region gap spelled rest t
    rw [facing_region hmode hblank hgap hregion]
    obtain ⟨passed, hsource, hpassed⟩ := hs.place
    rw [hpassed, ← Position.advance_append, Position.start_advance] at hposition
    refine ⟨⟨passed ++ gap, ?_, hposition⟩, ?_⟩
    · rw [← hsource]
      simp only [ahead, hmode, hregion, List.append_assoc]
    · exact Token.heads_of_inRegion hlexeme (List.prefix_append ..)
        (List.length_pos_iff.2 hspelled) hbegins
  | unclosed hmode =>
    obtain ⟨before, hsource, hopened⟩ := hs.delimiter _ hmode
    rw [Position.start_advance] at hopened
    refine ⟨⟨before, hsource, hopened⟩, ?_⟩
    rw [facing_unclosed hmode, hs.delimiters]
    exact List.prefix_append ..

theorem facing_past_suffix (s : Scanner) (k n : Nat) :
    (s.past (k + n)).facing <:+ (s.past k).facing := by
  induction n with
  | zero => exact List.suffix_rfl
  | succ n ih =>
    rw [← Nat.add_assoc, past_succ]
    exact (step_next _).facing_suffix.trans ih

theorem Stands.position_le {facing facing' : List Char} {t t' : Token}
    (h : Stands d source facing t) (h' : Stands d source facing' t') (hle : facing' <:+ facing) :
    t.position ≤ t'.position := by
  obtain ⟨before, hsource, hposition⟩ := h.position
  obtain ⟨before', hsource', hposition'⟩ := h'.position
  obtain ⟨more, rfl⟩ := hle
  rw [hposition, hposition']
  refine Position.behind_le ⟨more, ?_⟩
  rw [← List.append_assoc, ← hsource'] at hsource
  exact List.append_cancel_right hsource

end Scanner

namespace TokenCursor

/-- Every token says the position of its first character, and tokens come in the order of their
positions. A token that was looked ahead at or taken back is given again as it was. -/
theorem positions_exact (d : Delimiters) (source : String) :
    let c := ofString d source
    let facing (k : Nat) := (c.scanner.past k).facing
    (∀ k, Scanner.Stands d source.toList (facing k) (c.call k)) ∧
      (∀ k n, facing (k + n) <:+ facing k ∧
        (c.call k).position ≤ (c.call (k + n)).position) ∧
      ∀ os, answers perform c os = answers (Mark.perform c.call) .start os := by
  intro c facing
  have hcall (k : Nat) : (c.scanner.past k).next.1 = c.call k := (call_eq_next_past rfl k).symm
  have hstands (k : Nat) : Scanner.Stands d source.toList (facing k) (c.call k) := by
    rw [← hcall]
    exact (Scanner.step_next _).stands ((Scanner.standing_ofString d source).past k)
  refine ⟨hstands, fun k n => ?_, answers_of_past hcall⟩
  have hsuffix := c.scanner.facing_past_suffix k n
  exact ⟨hsuffix, (hstands k).position_le (hstands (k + n)) hsuffix⟩

end TokenCursor
end TextTemplate
