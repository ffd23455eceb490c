import TextTemplate.Grammar.Statement
import TextTemplate.Proofs.Grammar.Reading

/-! The nesting limit is what ends the descent of the readers: with levels of nesting to spare they
read the same as with just as many as the limit leaves. -/

namespace TextTemplate.Grammar

variable {α β : Type} {d : Nat}

def SameAt (d : Nat) (r r' : Reader α) : Prop :=
  ∀ s, s.depth = d → r.run s = r'.run s

namespace SameAt

theorem refl (r : Reader α) : SameAt d r r := fun _ _ => rfl

theorem bind {r r' : Reader α} {k k' : α → Reader β} (h : SameAt d r r')
    (hk : ∀ a, SameAt d (k a) (k' a)) : SameAt d (r >>= k) (r' >>= k') := by
  intro s hs
  have hleads := r.leads s
  rcases hr : r.run s with ⟨_ | a, s'⟩ <;> rw [hr] at hleads
  · rw [run_bind_none hr, run_bind_none ((h s hs).symm.trans hr)]
  · rw [run_bind_some hr, run_bind_some ((h s hs).symm.trans hr)]
    exact hk a s' (hleads.depth.trans hs)

theorem after {r : Reader α} {k k' : α → Reader β} (hk : ∀ a, SameAt d (k a) (k' a)) :
    SameAt d (r >>= k) (r >>= k') :=
  .bind (.refl r) hk

theorem symm {r r' : Reader α} (h : SameAt d r r') : SameAt d r' r :=
  fun s hs => (h s hs).symm

theorem ite {c : Prop} [Decidable c] {r r' q q' : Reader α} (h : SameAt d r r')
    (h' : SameAt d q q') : SameAt d (if c then r else q) (if c then r' else q') := by
  split
  · exact h
  · exact h'

theorem optional {r r' : Reader α} (h : SameAt d r r') :
    SameAt d (optional r) (optional r') := by
  intro s hs
  simp only [Grammar.optional, h s hs]

theorem inBraces {r r' : Reader α} (h : SameAt d r r') :
    SameAt d (inBraces r) (inBraces r') := by
  intro s hs
  have hrun := h { s with braces := s.braces + 1 } hs
  simp only [Grammar.inBraces, hrun]

theorem nested {r r' : Reader α} (h : d < maxNesting → SameAt (d + 1) r r') :
    SameAt d (nested r) (nested r') := by
  intro s hs
  by_cases hd : maxNesting ≤ s.depth
  · simp only [Grammar.nested, if_pos hd]
  · have hrun := h (by omega) { s with depth := s.depth + 1 } (congrArg (· + 1) hs)
    simp only [Grammar.nested, if_neg hd, hrun]

theorem giveUp (r : Reader α) (hd : maxNesting ≤ d) :
    SameAt d Grammar.giveUp (Grammar.nested r) := by
  rintro s rfl
  simp only [Grammar.nested, if_pos hd]
  rfl

theorem repeatUntil {pass pass' : α → Reader (α ⊕ β)} (h : ∀ a, SameAt d (pass a) (pass' a))
    (a : α) : SameAt d (repeatUntil pass a) (repeatUntil pass' a) := by
  intro s hs
  change passes pass a s = passes pass' a s
  fun_induction passes pass a s with
  | case1 a s a' s' hrun hlt ih =>
    have hrun' := (h a s hs).symm.trans hrun
    have hleads := (pass a).leads s
    rw [hrun] at hleads
    rw [ih (hleads.depth.trans hs), passes.eq_1 pass' a s, hrun']
    exact (if_pos hlt).symm
  | case2 a s a' s' hrun hlt =>
    rw [passes, (h a s hs).symm.trans hrun]
    exact (if_neg hlt).symm
  | case3 a s b s' hrun => rw [passes, (h a s hs).symm.trans hrun]
  | case4 a s s' hrun => rw [passes, (h a s hs).symm.trans hrun]

theorem leftAssociative {operand operand' : Reader α} {operator? : Lexeme → Option (α → α → α)}
    (h : SameAt d operand operand') :
    SameAt d (leftAssociative operand operator?) (leftAssociative operand' operator?) := by
  refine .bind h fun a => .repeatUntil (fun lhs => .after fun t => ?_) a
  split
  · exact .after fun _ => .bind h fun _ => .refl _
  · exact .refl _

theorem separated {item item' : Reader α} {closing : Symbol} {what : Expected}
    (h : SameAt d item item') :
    SameAt d (separated item closing what) (separated item' closing what) :=
  .after fun _ => .ite (.refl _) (.repeatUntil (fun _ => .bind h fun _ => .refl _) [])

end SameAt

structure Deeper.SameAt (d : Nat) (deeper deeper' : Deeper) : Prop where
  statements : Grammar.SameAt d deeper.statements deeper'.statements
  assignment : Grammar.SameAt d deeper.assignment deeper'.assignment
  unary : Grammar.SameAt d deeper.unary deeper'.unary

namespace SameAt

variable {deeper deeper' : Deeper} (h : deeper.SameAt d deeper')

include h

theorem mapEntry : SameAt d (mapEntry deeper) (mapEntry deeper') := by
  refine .after fun t => ?_
  split
  · exact .refl _
  · refine .after fun _ => .ite ?_ (.refl _)
    exact .after fun _ => .after fun _ => .bind h.assignment fun _ => .refl _

theorem lambdaBody : SameAt d (lambdaBody deeper) (lambdaBody deeper') := by
  refine .after fun _ => .ite ?_ ?_
  · exact .after fun _ => .bind (.inBraces h.statements) fun _ => .refl _
  · exact .bind h.statements fun _ => .refl _

theorem parenthesized : SameAt d (parenthesized deeper) (parenthesized deeper') := by
  refine .after fun _ => .bind (.separated h.assignment) fun items => .after fun _ => .ite ?_ ?_
  · split
    · exact .after fun _ => .bind (.lambdaBody h) fun _ => .refl _
    · exact .refl _
  · exact .refl _

theorem primary : SameAt d (primary deeper) (primary deeper') := by
  refine .after fun t => ?_
  split
  case h_8 => exact .parenthesized h
  case h_9 => exact .after fun _ => .bind (.separated h.assignment) fun _ => .refl _
  case h_10 => exact .after fun _ => .bind (.separated (.mapEntry h)) fun _ => .refl _
  all_goals exact .refl _

theorem callMember : SameAt d (callMember deeper) (callMember deeper') := by
  refine .bind (.primary h) fun e => .repeatUntil (fun e => .after fun t => ?_) e
  split
  case h_1 => exact .after fun _ => .bind (.separated h.assignment) fun _ => .refl _
  all_goals exact .refl _

theorem unary : SameAt d (unary deeper) (unary deeper') := by
  refine .after fun t => ?_
  dsimp only
  split
  · exact .after fun _ => .bind h.unary fun _ => .refl _
  · exact .after fun _ => .bind h.unary fun _ => .refl _
  · exact .bind (.callMember h) fun _ => .refl _

theorem logical : SameAt d (logical deeper) (logical deeper') := by
  have hadditive : SameAt d (additive deeper) (additive deeper') :=
    .leftAssociative (.leftAssociative (.unary h))
  exact .leftAssociative (.leftAssociative (.leftAssociative hadditive))

theorem conditional : SameAt d (conditional deeper) (conditional deeper') := by
  refine .bind (.logical h) fun test => .after fun _ => .ite ?_ (.refl _)
  refine .after fun _ => .bind h.assignment fun yes => .after fun _ => .ite ?_ (.refl _)
  exact .after fun _ => .bind h.assignment fun _ => .refl _

theorem assignment : SameAt d (assignment deeper) (assignment deeper') := by
  refine .after fun t => .bind (.conditional h) fun lhs => .after fun t' => ?_
  split
  · exact .refl _
  · split
    · exact .after fun _ => .bind h.assignment fun _ => .refl _
    · exact .refl _

theorem elseBranch : SameAt d (elseBranch deeper) (elseBranch deeper') :=
  .after fun _ => .ite (.after fun _ => .after fun _ => h.statements) (.refl _)

theorem loopHead : SameAt d (loopHead deeper) (loopHead deeper') := by
  refine .after fun t => ?_
  split
  · refine .after fun _ => .after fun _ => .ite ?_ (.refl _)
    exact .after fun _ => .bind h.assignment fun _ => .refl _
  · exact .refl _

theorem armPass {read : Arms} : SameAt d (armPass deeper read) (armPass deeper' read) := by
  refine .after fun t => ?_
  split
  case h_2 =>
    refine .bind (.after fun _ => .bind (.optional h.assignment) fun value? => ?_) fun _ => .refl _
    exact .after fun _ => .bind h.statements fun _ => .refl _
  case h_3 =>
    refine .bind ?_ fun _ => .refl _
    unfold Grammar.elseArm
    split
    · exact .after fun _ => .after fun _ => .after fun _ => .bind h.statements fun _ => .refl _
    · exact .after fun _ => .after fun _ => .bind h.statements fun _ => .refl _
  all_goals exact .refl _

theorem statement : SameAt d (statement deeper) (statement deeper') := by
  refine .after fun t => ?_
  split
  case h_1 => exact .refl _
  case h_2 =>
    exact .after fun _ => .after fun _ => .after fun _ => .bind h.statements fun _ => .refl _
  case h_3 => exact .refl _
  case h_4 =>
    refine .after fun _ => .after fun name => .after fun _ => .ite ?_ (.refl _)
    exact .after fun _ => .bind h.assignment fun _ => .refl _
  case h_5 => exact .after fun _ => .bind h.assignment fun _ => .refl _
  case h_6 => exact .after fun _ => .bind h.assignment fun _ => .refl _
  case h_7 =>
    refine .after fun _ => .bind (.optional (.loopHead h)) fun head? => .after fun _ => ?_
    exact .bind h.statements fun _ => .refl _
  case h_8 =>
    refine .after fun _ => .bind (.optional h.assignment) fun subject? => .after fun _ => ?_
    exact .bind (.repeatUntil (fun _ => .armPass h) _) fun _ => .refl _
  case h_9 =>
    refine .after fun _ => .bind (.optional h.assignment) fun test? => .after fun _ => ?_
    exact .bind h.statements fun yes => .bind (.elseBranch h) fun _ => .refl _
  case h_10 => exact .bind h.assignment fun _ => .refl _

theorem statementList : SameAt d (statementList deeper) (statementList deeper') := by
  refine .repeatUntil (fun read => .after fun t => .after fun b => .ite (.refl _) ?_) []
  split
  · exact .refl _
  · exact .bind (.optional (.statement h)) fun _ => .refl _

end SameAt

theorem Deeper.SameAt.symm {deeper deeper' : Deeper} (h : deeper.SameAt d deeper') :
    deeper'.SameAt d deeper :=
  ⟨h.statements.symm, h.assignment.symm, h.unary.symm⟩

theorem sameAt_levels_zero (hd : maxNesting ≤ d) : ∀ n, (levels 0).SameAt d (levels n)
  | 0 => ⟨.refl _, .refl _, .refl _⟩
  | n + 1 =>
    have hstatements : SameAt d (nested giveUp) (nested (statementList (levels n))) :=
      .nested fun hlt => absurd hlt (by omega)
    ⟨.bind (.optional hstatements) fun _ => .refl _, .giveUp (assignment (levels n)) hd,
      .giveUp (unary (levels n)) hd⟩

/-- The limit stops the readers before their levels run out: with as many levels as it leaves, they
do the same as with more. -/
theorem sameAt_levels : ∀ {n m d : Nat}, maxNesting ≤ d + n → maxNesting ≤ d + m →
    (levels n).SameAt d (levels m)
  | 0, m, _, hn, _ => sameAt_levels_zero hn m
  | n + 1, 0, _, _, hm => (sameAt_levels_zero hm (n + 1)).symm
  | n + 1, m + 1, d, hn, hm => by
    have hdeeper : (levels n).SameAt (d + 1) (levels m) := sameAt_levels (by omega) (by omega)
    exact ⟨.bind (.optional (.nested fun _ => .statementList hdeeper)) fun _ => .refl _,
      .nested fun _ => .assignment hdeeper, .nested fun _ => .unary hdeeper⟩

end TextTemplate.Grammar
