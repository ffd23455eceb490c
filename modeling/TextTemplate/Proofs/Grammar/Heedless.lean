import TextTemplate.Proofs.Grammar.Limit

/-! Problems on record already make no difference to what is read after them. -/

namespace TextTemplate.Grammar

variable {α β : Type} {s s' : State}

namespace State

def after (ps : List Problem) (s : State) : State :=
  { s with
    problems := ps ++ s.problems
    problems_ne_nil := fun h => List.append_ne_nil_of_right_ne_nil ps (s.problems_ne_nil h) }

theorem eq_of_tokens (htokens : s.tokens = s'.tokens) (hproblems : s.problems = s'.problems)
    (hdepth : s.depth = s'.depth) (hbraces : s.braces = s'.braces)
    (hexceeded : s.exceeded = s'.exceeded) : s = s' := by
  obtain ⟨current, upcoming, left, hleft, problems, depth, braces, exceeded, _⟩ := s
  obtain ⟨current', upcoming', left', hleft', problems', depth', braces', exceeded', _⟩ := s'
  simp only [tokens, List.cons.injEq] at htokens
  simp_all

variable (ps : List Problem)

theorem advance_after (s : State) : (s.after ps).advance = s.advance.after ps := by
  obtain ⟨current, upcoming, left, hleft, problems, depth, braces, exceeded, _⟩ := s
  cases upcoming <;> rfl

theorem record_after (s : State) (position : Position) (fault : Fault) :
    (s.after ps).record position fault = (s.record position fault).after ps := by
  unfold record
  by_cases h : s.exceeded = true
  · have h' : (s.after ps).exceeded = true := h
    rw [if_pos h, if_pos h']
  · have h' : ¬ (s.after ps).exceeded = true := h
    rw [if_neg h, if_neg h']
    exact eq_of_tokens rfl (List.append_assoc ..) rfl rfl rfl

theorem recover_after (s : State) : (s.after ps).recover = s.recover.after ps := by
  have hlexeme : (s.after ps).current.lexeme = s.current.lexeme := rfl
  unfold recover
  rw [hlexeme, advance_after]
  split
  · rfl
  · split
    · rfl
    · rfl

theorem giveUp_after (s : State) : (s.after ps).giveUp = s.giveUp.after ps := by
  have hrecord := s.record_after ps s.current.position .tooDeep
  have htokens := congrArg (fun s => (skipTo (· == .endOfInput) s).tokens) hrecord
  have hproblems := congrArg problems hrecord
  have hdepth := congrArg depth hrecord
  have hbraces := congrArg braces hrecord
  exact eq_of_tokens htokens hproblems hdepth hbraces rfl

end State

/-- Problems on record already make no difference to the reader. -/
def Heedless ⦃α : Type⦄ (r : Reader α) (s : State) : Prop :=
  ∀ ps, r.run (s.after ps) = ((r.run s).1, (r.run s).2.after ps)

namespace Heedless

theorem bind {r : Reader α} {k : α → Reader β} (h : Heedless r s)
    (hk : ∀ a s', r.run s = (some a, s') → Heedless (k a) s') : Heedless (r >>= k) s := by
  intro ps
  have hr := h ps
  rcases hrun : r.run s with ⟨_ | a, s'⟩ <;> rw [hrun] at hr
  · rw [run_bind_none hrun, run_bind_none hr]
  · rw [run_bind_some hrun, run_bind_some hr]
    exact hk a s' hrun ps

theorem nested {r : Reader α} (h : ∀ s, Heedless r s) : Heedless (nested r) s := by
  intro ps
  by_cases hd : maxNesting ≤ s.depth
  · have hd' : maxNesting ≤ (s.after ps).depth := hd
    rw [run_nested_limit hd, run_nested_limit hd', State.giveUp_after]
  · have hd' : ¬ maxNesting ≤ (s.after ps).depth := hd
    have hbody := h { s with depth := s.depth + 1 } ps
    rw [run_nested_below hd, run_nested_below hd']
    exact congrArg (fun x : Option α × State => (x.1, { x.2 with depth := x.2.depth - 1 })) hbody

theorem inBraces {r : Reader α} (h : ∀ s, Heedless r s) : Heedless (inBraces r) s := by
  intro ps
  have hbody := h { s with braces := s.braces + 1 } ps
  exact congrArg (fun x : Option α × State => (x.1, { x.2 with braces := x.2.braces - 1 })) hbody

theorem repeatUntil {pass : α → Reader (α ⊕ β)} {a : α} (h : ∀ a s, Heedless (pass a) s) :
    Heedless (repeatUntil pass a) s := by
  intro ps
  change passes pass a (s.after ps) = ((passes pass a s).1, (passes pass a s).2.after ps)
  fun_induction passes pass a s with
  | case1 a s a' s' hrun hlt ih =>
    have hrun' := h a s ps
    rw [hrun] at hrun'
    rw [passes, hrun']
    exact (if_pos hlt).trans ih
  | case2 a s a' s' hrun hlt =>
    have hrun' := h a s ps
    rw [hrun] at hrun'
    rw [passes, hrun']
    exact if_neg hlt
  | case3 a s b s' hrun | case4 a s s' hrun =>
    have hrun' := h a s ps
    rw [hrun] at hrun'
    rw [passes, hrun']

theorem failAt (position : Position) (fault : Fault) :
    Heedless (failAt position fault : Reader α) s := by
  intro ps
  have hrecover := (s.record position fault).recover_after ps
  rw [← State.record_after] at hrecover
  exact congrArg (none, ·) hrecover

theorem skipOver {fault : Fault} : Heedless (skipOver fault) s :=
  fun ps => congrArg (fun x : Option Unit × State => (some (), x.2))
    (failAt (α := Unit) s.current.position fault ps)

theorem advance (s : State) : Heedless advance s :=
  fun ps => congrArg (some (), ·) (s.advance_after ps)

theorem respected : Respected Heedless where
  pure _ _ _ := rfl
  bind := bind
  view _ _ _ := rfl
  nextIsColon _ _ := rfl
  advance _ := advance _
  failHere _ _ := failAt _ _
  giveUp s ps := congrArg (none, ·) (s.giveUp_after ps)
  nested _ := nested
  repeatUntil _ _ := repeatUntil
  braced _ _ := rfl
  note s _ ps := congrArg (some (), ·) (s.record_after ps ..)
  skipOver _ _ := skipOver
  found _ _ _ := rfl
  optional h ps := congrArg (fun x : Option _ × State => (some x.1, x.2)) (h ps)
  inBraces _ := inBraces

theorem closed : Closed Heedless :=
  respected.closed advance fun s =>
    respected.assignment s fun _ _ _ => failAt s.current.position .assignmentTarget

end Heedless

end TextTemplate.Grammar
