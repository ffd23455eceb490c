import TextTemplate.Token.Scanner

/-! Tokens stand in the order of their positions. The token of a region that is not closed has the
position at which the region was opened, which is the end of the text before it. -/

namespace TextTemplate

namespace Position

instance : LE Position where
  le p q := p.line < q.line ∨ p.line = q.line ∧ p.column ≤ q.column

theorem le_iff {p q : Position} :
    p ≤ q ↔ p.line < q.line ∨ p.line = q.line ∧ p.column ≤ q.column := .rfl

instance (p q : Position) : Decidable (p ≤ q) := decidable_of_iff' _ le_iff

theorem le_refl (p : Position) : p ≤ p := .inr ⟨rfl, Nat.le_refl _⟩

theorem le_of_eq {p q : Position} (h : p = q) : p ≤ q := h ▸ p.le_refl

theorem le_trans {p q r : Position} (h : p ≤ q) (h' : q ≤ r) : p ≤ r := by
  rw [le_iff] at h h' ⊢
  omega

theorem le_step (p : Position) (c : Char) : p ≤ p.step c := by
  unfold step
  split
  · exact .inl (Nat.lt_succ_self _)
  · exact .inr ⟨rfl, Nat.le_succ _⟩

theorem le_advance (p : Position) (cs : List Char) : p ≤ p.advance cs := by
  induction cs generalizing p with
  | nil => exact p.le_refl
  | cons c cs ih => exact le_trans (p.le_step c) (ih _)

end Position

namespace Scanner

def earliest (s : Scanner) : Position :=
  match s.mode with
  | .unclosed opened => opened
  | .text | .script _ _ => s.position

theorem earliest_text {s : Scanner} (hmode : s.mode = .text) : s.earliest = s.position := by
  unfold earliest
  rw [hmode]

structure InOrder (s : Scanner) (r : Token × Scanner) : Prop where
  token : s.earliest ≤ r.1.position
  later : r.1.position ≤ r.2.earliest
  position : r.2.earliest ≤ r.2.position

theorem InOrder.weaken {s s' : Scanner} {r : Token × Scanner} (h : s'.InOrder r)
    (hs : s.earliest ≤ s'.earliest) : s.InOrder r :=
  ⟨Position.le_trans hs h.token, h.later, h.position⟩

theorem inOrder_nextText {s : Scanner} (hmode : s.mode = .text) : s.InOrder s.nextText := by
  have htoken : s.earliest ≤ s.position := Position.le_of_eq (earliest_text hmode)
  have hposition : s.position ≤ s.earliest := Position.le_of_eq (earliest_text hmode).symm
  unfold nextText
  split
  · exact ⟨htoken, hposition, htoken⟩
  split
  · rename_i before after hopening
    have hbefore := s.position.le_advance before
    have hopened := (s.position.advance before).le_advance s.delimiters.opening
    unfold openRegion
    dsimp only
    split
    · exact ⟨htoken, Position.le_trans hbefore hopened, Position.le_refl _⟩
    · exact ⟨htoken, hbefore, hopened⟩
  · have hafter := earliest_text
      (s := { s with rest := [], position := s.position.advance s.rest }) hmode
    have hrest := s.position.le_advance s.rest
    have hlater := Position.le_trans hrest (Position.le_of_eq hafter.symm)
    exact ⟨htoken, hlater, Position.le_of_eq hafter⟩

theorem inOrder_nextScript {s : Scanner} {fresh : Bool} {region : List Char}
    (hmode : s.mode = .script fresh region) : s.InOrder (s.nextScript region) := by
  have hearliest : s.earliest = s.position := by
    unfold earliest
    rw [hmode]
  have hblanks := s.position.le_advance (region.takeWhile Text.isBlank)
  unfold nextScript
  dsimp only
  split
  · refine (inOrder_nextText (s := { s with mode := .text, position := _ }) rfl).weaken ?_
    rw [hearliest]
    exact Position.le_trans hblanks (Position.le_advance _ _)
  · exact ⟨hearliest ▸ hblanks, Position.le_advance _ _, Position.le_refl _⟩

theorem inOrder_next {s : Scanner} (hs : s.earliest ≤ s.position) : s.InOrder s.next := by
  unfold next
  split
  · rename_i hmode
    exact inOrder_nextText hmode
  · rename_i region hmode
    refine ⟨?_, Position.le_advance _ _, Position.le_refl _⟩
    exact hs
  · rename_i region hmode
    refine ⟨?_, Position.le_advance _ _, Position.le_refl _⟩
    exact hs
  · rename_i hmode
    exact inOrder_nextScript hmode
  · rename_i opened hmode
    have hearliest : s.earliest = opened := by
      unfold earliest
      rw [hmode]
    refine ⟨hearliest ▸ opened.le_refl, ?_, Position.le_refl _⟩
    exact Position.le_trans (hearliest ▸ hs) (s.position.le_advance s.rest)

theorem sorted_tokens {s : Scanner} (hs : s.earliest ≤ s.position) :
    (∀ t ∈ s.tokens, s.earliest ≤ t.position) ∧
      s.tokens.Pairwise fun t t' => t.position ≤ t'.position := by
  fun_induction tokens s with
  | case1 s t later hnext hend =>
    have h := inOrder_next hs
    rw [hnext] at h
    exact ⟨List.forall_mem_singleton.2 h.token, List.pairwise_singleton ..⟩
  | case2 s t later hnext hend ih =>
    have h := inOrder_next hs
    rw [hnext] at h
    obtain ⟨hfirst, hsorted⟩ := ih h.position
    have hlater : ∀ t' ∈ later.tokens, t.position ≤ t'.position :=
      fun t' ht' => Position.le_trans h.later (hfirst t' ht')
    refine ⟨List.forall_mem_cons.2 ⟨h.token, fun t' ht' => ?_⟩, .cons hlater hsorted⟩
    exact Position.le_trans h.token (hlater t' ht')

end Scanner
end TextTemplate
