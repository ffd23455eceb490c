import Mathlib.Data.List.TakeWhile
import TextTemplate.Token.Cursor

/-! Where tokens stand in the source. The calls of a scanner, up to the end of input, follow the
split of the source at the first occurrences of the delimiters, and the tokens of a region tile it:
what they leave out are blanks. -/

namespace TextTemplate

namespace Text

structure FirstAt (pattern text before after : List Char) : Prop where
  eq : text = before ++ pattern ++ after
  first : ∀ before' after', text = before' ++ pattern ++ after' → before.length ≤ before'.length

variable {pattern text before after : List Char}

theorem firstAt_of_cutAt (h : cutAt pattern text = some (before, after)) :
    FirstAt pattern text before after := by
  refine ⟨eq_append_of_cutAt h, ?_⟩
  induction text generalizing before after with
  | nil =>
    unfold cutAt at h
    split at h <;> simp_all
  | cons c cs ih =>
    intro before' after' he
    unfold cutAt at h
    split at h
    · obtain ⟨rfl, -⟩ := Prod.mk.inj (Option.some.inj h)
      exact Nat.zero_le _
    · rename_i hp
      obtain ⟨⟨b, a⟩, hc, hba⟩ := Option.map_eq_some_iff.1 h
      obtain ⟨rfl, rfl⟩ := Prod.mk.inj hba
      cases before' with
      | nil => exact absurd (List.isPrefixOf_iff_prefix.2 ⟨after', he.symm⟩) hp
      | cons d b' =>
        simp only [List.cons_append, List.cons.injEq] at he
        exact Nat.succ_le_succ (ih hc b' after' (by simpa using he.2))

theorem not_infix_of_cutAt (h : cutAt pattern text = none) : ¬ pattern <:+: text := by
  induction text with
  | nil =>
    unfold cutAt at h
    split at h <;> simp_all
  | cons c cs ih =>
    unfold cutAt at h
    split at h
    · cases h
    · rename_i hp
      rw [List.infix_cons_iff, not_or]
      exact ⟨fun hpre => hp (List.isPrefixOf_iff_prefix.2 hpre), ih (Option.map_eq_none_iff.1 h)⟩

end Text

namespace Lexeme

def inRegion : Lexeme → Bool
  | .text _ | .unclosed _ | .endOfInput => false
  | _ => true

theorem inRegion_ofWord (w : String) : (ofWord w).inRegion := by
  unfold ofWord
  split <;> rfl

theorem inRegion_scan (c : Char) (cs : List Char) : (scan c cs).1.inRegion := by
  unfold scan
  split
  · dsimp only
    split <;> rfl
  split
  · rfl
  split
  · exact inRegion_ofWord _
  split <;> rfl

theorem size_quoted_le (q : Char) (cs : List Char) : (quoted q cs).size ≤ cs.length := by
  fun_induction quoted q cs with
  | case1 | case2 | case4 => simp
  | case3 c cs tail ih => exact Nat.succ_le_succ (Nat.succ_le_succ ih)
  | case5 c cs _ _ _ tail ih => exact Nat.succ_le_succ ih

theorem length_numeral_le (cs : List Char) : (numeral cs).length ≤ cs.length := by
  have hcs := congrArg List.length (List.takeWhile_append_dropWhile (p := Char.isDigit) (l := cs))
  rw [List.length_append] at hcs
  unfold numeral
  dsimp only
  split
  · rename_i d rest hd
    rw [hd] at hcs
    have hle := (List.takeWhile_prefix Char.isDigit (l := d :: rest)).length_le
    split
    · simp only [List.length_append, List.length_cons] at hcs hle ⊢
      omega
    · omega
  · omega

theorem scan_le (c : Char) (cs : List Char) : (scan c cs).2 ≤ (c :: cs).length := by
  unfold scan
  split
  · have := size_quoted_le c cs
    dsimp only
    split <;> simpa
  split
  · exact length_numeral_le _
  split
  · exact (List.takeWhile_prefix _).length_le
  split
  · rename_i spelling s h
    have hp := List.find?_some h
    exact (List.isPrefixOf_iff_prefix.1 hp).length_le
  · simp

def Begins (text : List Char) (lexeme : Lexeme) (n : Nat) : Prop :=
  ∃ c cs, text = c :: cs ∧ (scan c cs = (lexeme, n) ∨
    n = 1 ∧ (c = '=' ∧ lexeme = .escapeMark ∨ c = '-' ∧ lexeme = .rawMark))

end Lexeme

namespace Scanner

def ahead (s : Scanner) : List Char :=
  match s.mode with
  | .script _ region => region ++ (s.delimiters.closing ++ s.rest)
  | .text | .unclosed _ => s.rest

def skipped (s : Scanner) : List Char :=
  match s.mode with
  | .script _ region =>
    if region.all Text.isBlank then region ++ s.delimiters.closing
    else region.takeWhile Text.isBlank
  | .text | .unclosed _ => []

/-- A token with the numbers of characters of the source before it and before what was left after
it was read. -/
structure Reading where
  token : Token
  start : Nat
  stop : Nat
  deriving Repr, DecidableEq

def readings (size : Nat) (s : Scanner) : List Reading :=
  match _h : s.next with
  | (t, later) =>
    if _hl : t.lexeme = .endOfInput then []
    else
      ⟨t, size - s.ahead.length + s.skipped.length, size - later.ahead.length⟩ ::
        later.readings size
termination_by s.remaining
decreasing_by
  have := remaining_next (s := s) (by rw [_h]; exact _hl)
  rwa [_h] at this

variable {size i : Nat} {s : Scanner} {p : Position} {region : List Char} {rs : List Reading}

theorem readings_next (h : s.next.1.lexeme ≠ .endOfInput) :
    s.readings size =
      ⟨s.next.1, size - s.ahead.length + s.skipped.length, size - s.next.2.ahead.length⟩ ::
        s.next.2.readings size := by
  rw [readings]
  exact dif_neg h

theorem readings_end (h : s.next.1.lexeme = .endOfInput) : s.readings size = [] := by
  rw [readings]
  exact dif_pos h

/-- The tokens of a region that begins after `i` characters, at the position `p`: each stands where
it says and is what is spelled there, they do not overlap, and all characters outside of them are
blanks. -/
structure Tiles (i : Nat) (p : Position) (region : List Char) (rs : List Reading) : Prop where
  inRegion : ∀ r ∈ rs, r.token.lexeme.inRegion
  position : ∀ r ∈ rs, r.token.position = p.advance (region.take (r.start - i))
  spelled : ∀ r ∈ rs,
    Lexeme.Begins (region.drop (r.start - i)) r.token.lexeme (r.stop - r.start)
  nonempty : ∀ r ∈ rs, r.start < r.stop
  within : ∀ r ∈ rs, i ≤ r.start ∧ r.stop ≤ i + region.length
  ordered : rs.Pairwise fun r r' => r.stop ≤ r'.start
  covered : ∀ k (h : k < region.length),
    Text.isBlank region[k] ∨ ∃ r ∈ rs, r.start ≤ i + k ∧ i + k < r.stop

namespace Tiles

theorem blank (h : region.all Text.isBlank) : Tiles i p region [] where
  inRegion := by simp
  position := by simp
  spelled := by simp
  nonempty := by simp
  within := by simp
  ordered := .nil
  covered k hk := .inl (List.all_eq_true.1 h _ (List.getElem_mem hk))

theorem cons {gap spelled rest : List Char} {t : Token} (hgap : gap.all Text.isBlank)
    (hspelled : spelled ≠ []) (hlexeme : t.lexeme.inRegion) (hposition : t.position = p.advance gap)
    (hbegins : Lexeme.Begins (spelled ++ rest) t.lexeme spelled.length)
    (h : Tiles (i + gap.length + spelled.length) (p.advance (gap ++ spelled)) rest rs) :
    Tiles i p (gap ++ (spelled ++ rest))
      (⟨t, i + gap.length, i + gap.length + spelled.length⟩ :: rs) where
  inRegion := List.forall_mem_cons.2 ⟨hlexeme, h.inRegion⟩
  position := by
    refine List.forall_mem_cons.2 ⟨?_, fun r hr => ?_⟩
    · simpa using hposition
    · have hle := (h.within r hr).1
      rw [h.position r hr, ← Position.advance_append, List.append_assoc, List.take_append,
        List.take_of_length_le (show gap.length ≤ r.start - i by omega), List.take_append,
        List.take_of_length_le (show spelled.length ≤ r.start - i - gap.length by omega)]
      congr 4
      omega
  spelled := by
    refine List.forall_mem_cons.2 ⟨?_, fun r hr => ?_⟩
    · simpa using hbegins
    · have hle := (h.within r hr).1
      rw [show r.start - i = gap.length + (spelled.length +
        (r.start - (i + gap.length + spelled.length))) by omega, List.drop_length_add_append,
        List.drop_length_add_append]
      exact h.spelled r hr
  nonempty := by
    have := List.length_pos_iff.2 hspelled
    exact List.forall_mem_cons.2 ⟨by simpa, h.nonempty⟩
  within := by
    refine List.forall_mem_cons.2 ⟨?_, fun r hr => ?_⟩
    · simp only [List.length_append]
      omega
    · have := h.within r hr
      simp only [List.length_append]
      omega
  ordered := List.pairwise_cons.2 ⟨fun r hr => (h.within r hr).1, h.ordered⟩
  covered k hk := by
    -- the character stands in the gap, in the token itself or after it
    rcases Nat.lt_or_ge k gap.length with hlt | hge
    · rw [List.getElem_append_left hlt]
      exact .inl (List.all_eq_true.1 hgap _ (List.getElem_mem hlt))
    rcases Nat.lt_or_ge (k - gap.length) spelled.length with hlt | hge'
    · exact .inr ⟨_, List.mem_cons_self, by dsimp only; omega, by dsimp only; omega⟩
    · simp only [List.length_append] at hk
      rw [List.getElem_append_right hge, List.getElem_append_right hge']
      refine (h.covered (k - gap.length - spelled.length) (by omega)).imp_right ?_
      rintro ⟨r, hr, hstart, hstop⟩
      exact ⟨r, List.mem_cons_of_mem _ hr, by omega, by omega⟩

end Tiles

def closed (s : Scanner) (region : List Char) : Scanner :=
  { s with
    mode := .text
    position := s.position.advance (region ++ s.delimiters.closing) }

theorem ahead_closed (s : Scanner) (region : List Char) : (s.closed region).ahead = s.rest := rfl

theorem skipped_closed (s : Scanner) (region : List Char) : (s.closed region).skipped = [] := rfl

theorem next_eq_nextText (hmode : s.mode = .text) : s.next = s.nextText := by
  unfold next
  rw [hmode]

theorem next_eq_unclosed {opened : Position} (hmode : s.mode = .unclosed opened) :
    s.next = (⟨.unclosed (String.ofList s.delimiters.closing), opened⟩,
      { s with mode := .text, rest := [], position := s.position.advance s.rest }) := by
  unfold next
  rw [hmode]

theorem next_script {fresh : Bool} (hmode : s.mode = .script fresh region) :
    s.next = s.nextScript region ∨
      ∃ c cs lexeme, region = c :: cs ∧ Text.isBlank c = false ∧ lexeme.inRegion ∧
        Lexeme.Begins region lexeme 1 ∧ s.next = (⟨lexeme, s.position⟩, s.take region 1) := by
  unfold next
  rw [hmode]
  split
  · contradiction
  · rename_i region' h
    obtain ⟨-, rfl⟩ := ScanMode.script.inj h
    exact .inr ⟨'=', region', .escapeMark, rfl, rfl, rfl,
      ⟨_, _, rfl, .inr ⟨rfl, .inl ⟨rfl, rfl⟩⟩⟩, rfl⟩
  · rename_i region' h
    obtain ⟨-, rfl⟩ := ScanMode.script.inj h
    exact .inr ⟨'-', region', .rawMark, rfl, rfl, rfl,
      ⟨_, _, rfl, .inr ⟨rfl, .inr ⟨rfl, rfl⟩⟩⟩, rfl⟩
  · rename_i h
    obtain ⟨-, rfl⟩ := ScanMode.script.inj h
    exact .inl rfl
  · contradiction

theorem next_closed {fresh : Bool} (hmode : s.mode = .script fresh region)
    (hblank : region.all Text.isBlank) : s.next = (s.closed region).next := by
  rw [List.all_eq_true] at hblank
  have hdrop : region.dropWhile Text.isBlank = [] := List.dropWhile_eq_nil_iff.2 hblank
  have htake : region.takeWhile Text.isBlank = region := List.takeWhile_eq_self_iff.2 hblank
  rcases next_script hmode with h | ⟨c, cs, _, rfl, hc, -⟩
  · rw [h, nextScript, hdrop, htake]
    simp only [next, closed, Position.advance_append]
  · rw [hblank c List.mem_cons_self] at hc
    cases hc

theorem readings_blank {fresh : Bool} (hmode : s.mode = .script fresh region)
    (hblank : region.all Text.isBlank) (hsize : size = i + s.ahead.length) :
    s.readings size = (s.closed region).readings size := by
  have hnext := next_closed hmode hblank
  by_cases hend : s.next.1.lexeme = .endOfInput
  · rw [readings_end hend, readings_end (hnext ▸ hend)]
  · have hahead : s.ahead = region ++ (s.delimiters.closing ++ s.rest) := by
      simp only [ahead, hmode]
    have hskipped : s.skipped = region ++ s.delimiters.closing := by
      simp only [skipped, hmode, hblank, if_true]
    rw [readings_next hend, readings_next (s := s.closed region) (hnext ▸ hend), ← hnext]
    congr 2
    rw [ahead_closed, skipped_closed, hsize, hahead, hskipped]
    simp only [List.length_append, List.length_nil]
    omega

theorem next_region {fresh : Bool} (hmode : s.mode = .script fresh region)
    (hblank : region.all Text.isBlank = false) :
    ∃ spelled rest t, region = region.takeWhile Text.isBlank ++ (spelled ++ rest) ∧ spelled ≠ [] ∧
      t.lexeme.inRegion ∧ t.position = s.position.advance (region.takeWhile Text.isBlank) ∧
      Lexeme.Begins (spelled ++ rest) t.lexeme spelled.length ∧
      s.next = (t, { s with
        mode := .script false rest
        position := s.position.advance (region.takeWhile Text.isBlank ++ spelled) }) := by
  rcases next_script hmode with h | ⟨c, cs, lexeme, rfl, hc, hlexeme, hbegins, h⟩
  · have hregion := List.takeWhile_append_dropWhile (p := Text.isBlank) (l := region)
    obtain ⟨c, cs, hd⟩ := List.exists_cons_of_ne_nil (l := region.dropWhile Text.isBlank) <| by
      rw [Ne, List.dropWhile_eq_nil_iff, ← List.all_eq_true, hblank]
      decide
    have hpos := Lexeme.scan_pos c cs
    refine ⟨(c :: cs).take (Lexeme.scan c cs).2, (c :: cs).drop (Lexeme.scan c cs).2,
      ⟨(Lexeme.scan c cs).1, _⟩, ?_, ?_, Lexeme.inRegion_scan c cs, rfl, ?_, ?_⟩
    · rw [List.take_append_drop, ← hd, hregion]
    · rw [Ne, List.take_eq_nil_iff]
      simp [Nat.ne_of_gt hpos]
    · rw [List.take_append_drop, List.length_take_of_le (Lexeme.scan_le c cs)]
      exact ⟨c, cs, rfl, .inl rfl⟩
    · rw [h, nextScript, hd, Position.advance_append]
      rfl
  · refine ⟨[c], cs, ⟨lexeme, s.position⟩, ?_, by simp, hlexeme, ?_, hbegins, ?_⟩
    · simp [hc]
    · simp [hc]
    · rw [h]
      simp [take, hc]

theorem readings_region {fresh : Bool} (hmode : s.mode = .script fresh region)
    (hsize : size = i + s.ahead.length) :
    ∃ script, s.readings size = script ++ (s.closed region).readings size ∧
      Tiles i s.position region script := by
  -- by what is left of the region after each token
  induction hn : region.length using Nat.strongRecOn generalizing s fresh region i with
  | ind n ih =>
    by_cases hblank : region.all Text.isBlank
    · exact ⟨[], readings_blank hmode hblank hsize, .blank hblank⟩
    rw [Bool.not_eq_true] at hblank
    obtain ⟨spelled, rest, t, hregion, hspelled, hlexeme, hposition, hbegins, hnext⟩ :=
      next_region hmode hblank
    generalize hgap : region.takeWhile Text.isBlank = gap at hregion hposition hnext
    have hgapBlank : gap.all Text.isBlank := by
      rw [← hgap, List.all_eq_true]
      exact fun c hc => List.mem_takeWhile_imp hc
    have hpos := List.length_pos_iff.2 hspelled
    have hskipped : s.skipped = gap := by
      simp only [skipped, hmode, hblank, hgap]
      rfl
    have hahead : s.ahead = gap ++ (spelled ++ s.next.2.ahead) := by
      rw [hnext]
      simp [ahead, hmode, hregion]
    have hend : s.next.1.lexeme ≠ .endOfInput := by
      intro he
      rw [hnext] at he
      rw [he] at hlexeme
      cases hlexeme
    have hclosed : s.next.2.closed rest = s.closed region := by
      rw [hnext, hregion]
      simp only [closed, Position.advance_append]
    have hmode' : s.next.2.mode = .script false rest := by rw [hnext]
    have hsize' : size = i + gap.length + spelled.length + s.next.2.ahead.length := by
      simp only [hahead, List.length_append] at hsize
      omega
    obtain ⟨script, hscript, htiles⟩ :=
      ih rest.length (by simp [← hn, hregion]; omega) hmode' hsize' rfl
    refine ⟨⟨t, i + gap.length, i + gap.length + spelled.length⟩ :: script, ?_, ?_⟩
    · rw [readings_next hend, hscript, hclosed, hnext, List.cons_append]
      congr 2
      · rw [hskipped, hsize]
        omega
      · rw [hnext] at hahead
        rw [hsize, hahead]
        simp only [List.length_append]
        omega
    · rw [hregion]
      rw [hnext] at htiles
      exact .cons hgapBlank hspelled hlexeme hposition hbegins htiles

/-- How tokens lie in a text that begins after `i` characters of the source, at the position `p`:
one for each text up to the first opening delimiter, then those of the region up to the first
closing delimiter. -/
inductive Reads (d : Delimiters) : Nat → Position → List Char → List Reading → Prop
  | nil (i : Nat) (p : Position) : Reads d i p [] []
  | text {i : Nat} {p : Position} {cs : List Char} {r : Reading} (hne : cs ≠ [])
      (hopening : ¬ d.opening <:+: cs) (hr : r.token = ⟨.text (String.ofList cs), p⟩) :
      Reads d i p cs [r]
  | unclosed {i : Nat} {p : Position} {cs before after : List Char} {r r' : Reading}
      (hopening : Text.FirstAt d.opening cs before after) (hclosing : ¬ d.closing <:+: after)
      (hr : r.token = ⟨.text (String.ofList before), p⟩)
      (hr' : r'.token = ⟨.unclosed (String.ofList d.closing), p.advance before⟩) :
      Reads d i p cs [r, r']
  | region {i : Nat} {p : Position} {cs before after region rest : List Char} {r : Reading}
      {script rs : List Reading}
      (hopening : Text.FirstAt d.opening cs before after)
      (hclosing : Text.FirstAt d.closing after region rest)
      (hr : r.token = ⟨.text (String.ofList before), p⟩)
      (hscript : Tiles (i + (before ++ d.opening).length) (p.advance (before ++ d.opening)) region
        script)
      (hrest : Reads d (i + (before ++ d.opening ++ region ++ d.closing).length)
        (p.advance (before ++ d.opening ++ region ++ d.closing)) rest rs) :
      Reads d i p cs (r :: (script ++ rs))

theorem readings_nil (size : Nat) (hmode : s.mode = .text) (hrest : s.rest = []) :
    s.readings size = [] := by
  refine readings_end ?_
  rw [next_eq_nextText hmode, nextText, hrest]
  rfl

theorem readings_unclosed (size : Nat) {opened : Position} (hmode : s.mode = .unclosed opened) :
    ∃ r, s.readings size = [r] ∧
      r.token = ⟨.unclosed (String.ofList s.delimiters.closing), opened⟩ := by
  have hnext := next_eq_unclosed hmode
  rw [readings_next (by simp [hnext]), hnext, readings_nil size rfl rfl]
  exact ⟨_, rfl, rfl⟩

theorem reads_text (hmode : s.mode = .text) (hsize : size = i + s.rest.length) :
    Reads s.delimiters i s.position s.rest (s.readings size) := by
  -- by what is left of the source after each region
  induction hn : s.rest.length using Nat.strongRecOn generalizing s i with
  | ind n ih =>
    have hnext := next_eq_nextText hmode
    unfold nextText at hnext
    by_cases hrest : s.rest = []
    · rw [readings_nil size hmode hrest, hrest]
      exact .nil i s.position
    rw [if_neg (by simpa using hrest)] at hnext
    cases hopening : Text.cutAt s.delimiters.opening s.rest with
    | none =>
      simp only [hopening] at hnext
      have hnil := readings_nil size
        (s := { s with rest := [], position := s.position.advance s.rest }) hmode rfl
      rw [readings_next (by simp [hnext]), hnext, hnil]
      exact .text hrest (Text.not_infix_of_cutAt hopening) rfl
    | some parts =>
      obtain ⟨before, after⟩ := parts
      have hfirst := Text.firstAt_of_cutAt hopening
      rw [hopening] at hnext
      simp only [openRegion] at hnext
      cases hclosing : Text.cutAt s.delimiters.closing after with
      | none =>
        rw [hclosing] at hnext
        rw [readings_next (by simp [hnext]), hnext]
        obtain ⟨r, hr, htoken⟩ := readings_unclosed size (s := { s with
          mode := .unclosed (s.position.advance before)
          rest := after
          position := (s.position.advance before).advance s.delimiters.opening }) rfl
        rw [hr]
        exact .unclosed hfirst (Text.not_infix_of_cutAt hclosing) rfl htoken
      | some parts =>
        obtain ⟨region, rest⟩ := parts
        have hfirst' := Text.firstAt_of_cutAt hclosing
        rw [hclosing] at hnext
        rw [readings_next (by simp [hnext]), hnext]
        have hlength := congrArg List.length hfirst.eq
        have hlength' := congrArg List.length hfirst'.eq
        have hpos := List.length_pos_iff.2 s.delimiters.opening_ne_nil
        simp only [List.length_append] at hlength hlength'
        let opened : Scanner := { s with
          mode := .script true region
          rest
          position := (s.position.advance before).advance s.delimiters.opening }
        have hsize' : size = i + (before ++ s.delimiters.opening).length + opened.ahead.length := by
          simp only [opened, ahead, List.length_append]
          omega
        obtain ⟨script, hscript, htiles⟩ := readings_region (s := opened) rfl hsize'
        have hlater := ih rest.length (by omega)
          (i := i + (before ++ s.delimiters.opening ++ region ++ s.delimiters.closing).length)
          (s := opened.closed region) rfl
          (by simp only [opened, closed, List.length_append]; omega) rfl
        rw [hscript]
        refine .region hfirst hfirst' rfl (by simpa only [Position.advance_append] using htiles) ?_
        simpa only [opened, closed, Position.advance_append] using hlater

theorem advance_ahead_next (s : Scanner) :
    s.next.2.position.advance s.next.2.ahead = s.position.advance s.ahead := by
  have htext (s : Scanner) (hmode : s.mode = .text) :
      s.next.2.position.advance s.next.2.ahead = s.position.advance s.ahead := by
    have hahead : s.ahead = s.rest := by simp only [ahead, hmode]
    rw [next_eq_nextText hmode, nextText, hahead]
    split
    · rw [hahead]
    split
    · rename_i before after hopening
      rw [Text.eq_append_of_cutAt hopening]
      simp only [openRegion]
      split
      · rename_i region rest hclosing
        simp only [ahead, Text.eq_append_of_cutAt hclosing, Position.advance_append]
      · simp only [ahead, Position.advance_append]
    · simp [ahead, hmode]
  cases hmode : s.mode with
  | text => exact htext s hmode
  | unclosed opened =>
    rw [next_eq_unclosed hmode]
    simp [ahead, hmode]
  | script fresh region =>
    by_cases hblank : region.all Text.isBlank
    · rw [next_closed hmode hblank, htext _ rfl, ahead_closed]
      simp only [closed, ahead, hmode, Position.advance_append]
    · rw [Bool.not_eq_true] at hblank
      obtain ⟨spelled, rest, t, hregion, -, -, -, -, hnext⟩ := next_region hmode hblank
      generalize region.takeWhile Text.isBlank = gap at hregion hnext
      rw [hnext]
      simp only [ahead, hmode, hregion, Position.advance_append]

theorem next_end (h : s.next.1.lexeme = .endOfInput) :
    s.next.2.mode = .text ∧ s.next.2.rest = [] ∧ s.next.1 = Token.endOfInput s.next.2.position := by
  have htext (s : Scanner) (hmode : s.mode = .text) (h : s.next.1.lexeme = .endOfInput) :
      s.next.2.mode = .text ∧ s.next.2.rest = [] ∧
        s.next.1 = Token.endOfInput s.next.2.position := by
    rw [next_eq_nextText hmode, nextText] at h ⊢
    by_cases hrest : s.rest.isEmpty
    · rw [if_pos hrest]
      exact ⟨hmode, List.isEmpty_iff.1 hrest, rfl⟩
    · rw [if_neg hrest] at h
      split at h <;> cases h
  cases hmode : s.mode with
  | text => exact htext s hmode h
  | unclosed opened =>
    rw [next_eq_unclosed hmode] at h
    cases h
  | script fresh region =>
    by_cases hblank : region.all Text.isBlank
    · rw [next_closed hmode hblank] at h ⊢
      exact htext _ rfl h
    · rw [Bool.not_eq_true] at hblank
      obtain ⟨_, _, t, _, _, hlexeme, _, _, hnext⟩ := next_region hmode hblank
      rw [hnext] at h
      rw [show t.lexeme = .endOfInput from h] at hlexeme
      cases hlexeme

end Scanner

namespace TokenCursor

def call (c : TokenCursor) : Nat → Token
  | 0 => c.next.1
  | k + 1 => c.next.2.call k

theorem call_end {c : TokenCursor} (hc : c.pushed = none) (hmode : c.scanner.mode = .text)
    (hrest : c.scanner.rest = []) (k : Nat) :
    c.call k = Token.endOfInput c.scanner.position := by
  have hnext : c.scanner.next = (Token.endOfInput c.scanner.position, c.scanner) := by
    rw [Scanner.next_eq_nextText hmode, Scanner.nextText, hrest]
    rfl
  induction k generalizing c with
  | zero => simp only [call, next, hc, hnext]
  | succ k ih =>
    have hlater : c.next.2 = ⟨c.scanner, some (Token.endOfInput c.scanner.position), none⟩ := by
      simp only [next, hc, hnext]
    rw [call, hlater]
    exact ih rfl hmode hrest hnext

theorem call_eq (size : Nat) {c : TokenCursor} (hc : c.pushed = none) (k : Nat) :
    c.call k = ((c.scanner.readings size)[k]?.map Scanner.Reading.token).getD
      (Token.endOfInput (c.scanner.position.advance c.scanner.ahead)) := by
  have hnext : c.next = (c.scanner.next.1, ⟨c.scanner.next.2, some c.scanner.next.1, none⟩) := by
    simp only [next, hc]
  have hahead := c.scanner.advance_ahead_next
  by_cases hend : c.scanner.next.1.lexeme = .endOfInput
  · obtain ⟨hmode, hrest, htoken⟩ := Scanner.next_end hend
    have hposition : c.scanner.position.advance c.scanner.ahead = c.scanner.next.2.position := by
      rw [← hahead]
      simp [Scanner.ahead, hmode, hrest]
    rw [Scanner.readings_end hend, hposition, List.getElem?_nil]
    cases k with
    | zero => rw [call, hnext, htoken]; rfl
    | succ k => rw [call, hnext, call_end rfl hmode hrest]; rfl
  · rw [Scanner.readings_next hend]
    cases k with
    | zero => rw [call, hnext]; rfl
    | succ k =>
      rw [call, hnext, call_eq size rfl k, hahead]
      rfl

/-- The tokens of a source follow its split at the delimiters and tile its script regions, and
after them every call gives the end of input. -/
theorem calls_tile_source (d : Delimiters) (source : String) :
    let readings := (Scanner.ofString d source).readings source.toList.length
    (∀ k, (ofString d source).call k = (readings[k]?.map Scanner.Reading.token).getD
      (Token.endOfInput (Position.start.advance source.toList))) ∧
    Scanner.Reads d 0 .start source.toList readings := by
  refine ⟨fun k => call_eq _ rfl k, ?_⟩
  exact Scanner.reads_text (s := Scanner.ofString d source) rfl (Nat.zero_add _).symm

end TokenCursor
end TextTemplate
