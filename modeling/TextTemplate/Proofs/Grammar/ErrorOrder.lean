import TextTemplate.Proofs.Grammar.Limit
import TextTemplate.Proofs.Token.Order

/-! The order of the problems of a template. Most are recorded at the token under view, and so in
the order of the tokens. An assignment to what is no variable is recorded where its target begins,
and the target may be a lambda in whose body other problems are on record already. -/

namespace TextTemplate.Grammar

variable {α β : Type} {T : List Token} {s s' s'' : State}

namespace State

theorem problems_record (s : State) (position : Position) (fault : Fault) :
    (s.record position fault).problems = s.problems ∨
      (s.record position fault).problems = s.problems ++ [⟨position, fault⟩] := by
  unfold record
  split
  · exact .inl rfl
  · exact .inr rfl

end State

def Amid (T : List Token) (s : State) : Prop := s.tokens <:+ T

theorem Amid.leads (h : Amid T s) (hs : s.Leads s') : Amid T s' := hs.tokens.trans h

theorem Amid.current_le (h : Amid T s) (hT : T.Pairwise fun t t' => t.position ≤ t'.position)
    (hs : s.Leads s') : s.current.position ≤ s'.current.position := by
  have hmem : s'.current ∈ s.tokens := hs.tokens.subset List.mem_cons_self
  rcases List.mem_cons.1 hmem with he | hmem
  · rw [he]
    exact Position.le_refl _
  · exact List.rel_of_pairwise_cons (hT.sublist h.sublist) hmem

/-- The problems that are added on the way lie between the ends of the way, any two of them one
after the other as `InTurn` says. -/
structure Grows (InTurn : Problem → Problem → Prop) (s s' : State) : Prop where
  onward : s.current.position ≤ s'.current.position
  added : ∃ ps, s'.problems = s.problems ++ ps ∧
    (∀ p ∈ ps, s.current.position ≤ p.position ∧ p.position ≤ s'.current.position) ∧
    ps.Pairwise InTurn

namespace Grows

variable {InTurn : Problem → Problem → Prop}

theorem quiet (onward : s.current.position ≤ s'.current.position)
    (h : s'.problems = s.problems) : Grows InTurn s s' :=
  ⟨onward, [], by simp [h], nofun, .nil⟩

theorem one {p : Problem} (hp : s.current.position ≤ p.position ∧ p.position ≤ s'.current.position)
    (h : s'.problems = s.problems ∨ s'.problems = s.problems ++ [p]) : Grows InTurn s s' := by
  have honward := Position.le_trans hp.1 hp.2
  rcases h with h | h
  · exact quiet honward h
  · exact ⟨honward, [p], h, List.forall_mem_singleton.2 hp, List.pairwise_singleton ..⟩

theorem trans (hInTurn : ∀ p q : Problem, p.position ≤ q.position → InTurn p q)
    (h : Grows InTurn s s') (h' : Grows InTurn s' s'') : Grows InTurn s s'' := by
  obtain ⟨honward, ps, hps, hbetween, hpairwise⟩ := h
  obtain ⟨honward', qs, hqs, hbetween', hpairwise'⟩ := h'
  refine ⟨Position.le_trans honward honward', ps ++ qs, ?_, ?_, ?_⟩
  · rw [hqs, hps, List.append_assoc]
  · refine List.forall_mem_append.2 ⟨fun p hp => ?_, fun q hq => ?_⟩
    · exact ⟨(hbetween p hp).1, Position.le_trans (hbetween p hp).2 honward'⟩
    · exact ⟨Position.le_trans honward (hbetween' q hq).1, (hbetween' q hq).2⟩
  · refine List.pairwise_append.2 ⟨hpairwise, hpairwise', fun p hp q hq => hInTurn p q ?_⟩
    exact Position.le_trans (hbetween p hp).2 (hbetween' q hq).1

theorem moves (hInTurn : ∀ p q : Problem, p.position ≤ q.position → InTurn p q)
    (hT : T.Pairwise fun t t' => t.position ≤ t'.position) : Moves (Amid T) (Grows InTurn) where
  leads := Amid.leads
  within _ _ h := h
  refl _ := quiet (Position.le_refl _) rfl
  trans := trans hInTurn
  shift _ _ _ := quiet (Position.le_refl _) rfl
  advance h := quiet (h.current_le hT (.advance _)) (State.problems_advance _)
  record {s fault} h _ := by
    have hrecord := h.current_le hT (.record s s.current.position fault)
    exact one ⟨Position.le_refl _, hrecord⟩ (s.problems_record ..)
  recover h := quiet (h.current_le hT (.recover _)) (State.problems_recover _)
  giveUp {s} h := by
    have hgiveUp := h.current_le hT (.giveUp s)
    exact one ⟨Position.le_refl _, hgiveUp⟩ (s.problems_record ..)

theorem target (h : Grows InTurn s s') (htarget : ∀ ps, s'.problems = s.problems ++ ps →
      ∀ p ∈ ps, InTurn p ⟨s.current.position, .assignmentTarget⟩) :
    Grows InTurn s (s'.record s.current.position .assignmentTarget) := by
  obtain ⟨honward, ps, hps, hbetween, hpairwise⟩ := h
  have hcurrent := s'.current_record s.current.position .assignmentTarget
  rcases s'.problems_record s.current.position .assignmentTarget with hrecord | hrecord
  · exact ⟨hcurrent ▸ honward, ps, hrecord.trans hps, hcurrent ▸ hbetween, hpairwise⟩
  · refine ⟨hcurrent ▸ honward, ps ++ [⟨s.current.position, .assignmentTarget⟩], ?_, ?_, ?_⟩
    · rw [hrecord, hps, List.append_assoc]
    · rw [hcurrent]
      exact List.forall_mem_append.2 ⟨hbetween,
        List.forall_mem_singleton.2 ⟨Position.le_refl _, honward⟩⟩
    · refine List.pairwise_append.2 ⟨hpairwise, List.pairwise_singleton .., fun p hp q hq => ?_⟩
      rw [List.mem_singleton.1 hq]
      exact htarget ps hps p hp

theorem assignment (hInTurn : ∀ p q : Problem, p.position ≤ q.position → InTurn p q)
    (hT : T.Pairwise fun t t' => t.position ≤ t'.position) {deeper : Deeper} {s : State}
    (htarget : Amid T s → ∀ lhs s', (conditional deeper).run s = (some lhs, s') →
      ∀ ps, s'.problems = s.problems ++ ps →
        ∀ p ∈ ps, InTurn p ⟨s.current.position, .assignmentTarget⟩)
    (hconditional : Along (Amid T) (Grows InTurn) (conditional deeper) s)
    (hassignment : ∀ s, Along (Amid T) (Grows InTurn) deeper.assignment s) :
    Along (Amid T) (Grows InTurn) (Grammar.assignment deeper) s := by
  have h := (moves hInTurn hT).respected
  refine h.current fun hs => ?_
  have hlhs := hconditional hs
  have hleads := (conditional deeper).leads s
  rcases hrun : (conditional deeper).run s with ⟨_ | lhs, s'⟩ <;> rw [hrun] at hlhs hleads
  · rw [run_bind_none hrun]
    exact hlhs
  rw [run_bind_some hrun]
  have hs' : Amid T s' := hs.leads hleads
  have hrest (r : Reader SourceExpr) (hr : Along (Amid T) (Grows InTurn) r s') :
      Grows InTurn s (r.run s').2 := trans hInTurn hlhs (hr hs')
  rw [run_current]
  split
  · exact hlhs
  · rename_i op hop
    split
    · refine hrest _ (h.step (symbol_of_assignmentOp? hop) nofun ?_)
      exact h.bind (hassignment _) fun value s'' _ => h.pure _ s''
    · have hrecord := hs'.leads (.record s' s.current.position .assignmentTarget)
      refine trans hInTurn (hlhs.target (htarget hs lhs s' hrun)) ?_
      exact quiet (hrecord.current_le hT (.recover _)) (State.problems_recover _)

theorem closed_bounds (hT : T.Pairwise fun t t' => t.position ≤ t'.position) :
    Closed (Along (Amid T) (Grows fun _ _ => True)) := by
  have m : Moves (Amid T) (Grows fun _ _ => True) := moves (fun _ _ _ => trivial) hT
  refine m.respected.closed (fun _ hs => m.advance hs) fun s hconditional hassignment => ?_
  exact assignment (fun _ _ _ => trivial) hT (fun _ _ _ _ _ _ _ _ => trivial) (hconditional s)
    hassignment

end Grows

def Behind (T : List Token) (s s' : State) : Prop :=
  ∃ ps, s'.problems = s.problems ++ ps ∧ ∀ p ∈ ps, ∃ t ∈ T,
    t.lexeme = .symbol .arrow ∧ s.current.position ≤ t.position ∧ t.position ≤ p.position

theorem Behind.trans (h : Behind T s s') (h' : Behind T s' s'')
    (honward : s.current.position ≤ s'.current.position) : Behind T s s'' := by
  obtain ⟨ps, hps, hbehind⟩ := h
  obtain ⟨qs, hqs, hbehind'⟩ := h'
  refine ⟨ps ++ qs, by rw [hqs, hps, List.append_assoc], ?_⟩
  refine List.forall_mem_append.2 ⟨hbehind, fun q hq => ?_⟩
  obtain ⟨t, ht, hl, hle, hle'⟩ := hbehind' q hq
  exact ⟨t, ht, hl, Position.le_trans honward hle, hle'⟩

def Excused (T : List Token) ⦃α : Type⦄ (r : Reader α) (s : State) : Prop :=
  Amid T s → ∀ a s', r.run s = (some a, s') → Behind T s s'

namespace Excused

theorem same {r : Reader α} (h : ∀ a s', r.run s = (some a, s') → s'.problems = s.problems) :
    Excused T r s :=
  fun _ a s' hr => ⟨[], by simp [h a s' hr], nofun⟩

theorem none {r : Reader α} (h : (r.run s).1 = none) : Excused T r s :=
  fun _ a s' hr => by simp [hr] at h

theorem bind (hT : T.Pairwise fun t t' => t.position ≤ t'.position) {r : Reader α}
    {k : α → Reader β} (h : Excused T r s)
    (hk : ∀ a s', r.run s = (some a, s') → Excused T (k a) s') : Excused T (r >>= k) s := by
  intro hs b s'' hrun
  have hleads := r.leads s
  rcases hr : r.run s with ⟨_ | a, s'⟩ <;> rw [hr] at hleads
  · rw [run_bind_none hr] at hrun
    cases hrun
  · rw [run_bind_some hr] at hrun
    have hrest := hk a s' hr (hs.leads hleads) b s'' hrun
    exact (h hs a s' hr).trans hrest (hs.current_le hT hleads)

theorem nested {r : Reader α} (h : ∀ s, Excused T r s) : Excused T (nested r) s := by
  by_cases hd : maxNesting ≤ s.depth
  · exact none (congrArg Prod.fst (run_nested_limit hd))
  intro hs a s' hr
  rw [run_nested_below hd] at hr
  rcases hbody : r.run { s with depth := s.depth + 1 } with ⟨a?, s₁⟩
  rw [hbody] at hr
  cases hr
  exact h { s with depth := s.depth + 1 } hs a s₁ hbody

theorem repeatUntil (hT : T.Pairwise fun t t' => t.position ≤ t'.position)
    {pass : α → Reader (α ⊕ β)} {a : α} (hpass : ∀ a s, Excused T (pass a) s) :
    Excused T (repeatUntil pass a) s := by
  intro hs b s'' hrun
  change passes pass a s = (some b, s'') at hrun
  fun_induction passes pass a s with
  | case1 a s a' s' hfirst hlt ih =>
    have hleads := (pass a).leads s
    rw [hfirst] at hleads
    have hrest := ih (hs.leads hleads) hrun
    exact (hpass a s hs (.inl a') s' hfirst).trans hrest (hs.current_le hT hleads)
  | case2 | case4 => cases hrun
  | case3 a s b' s' hfirst =>
    cases hrun
    exact hpass a s hs (.inr b) s'' hfirst

theorem carried (hT : T.Pairwise fun t t' => t.position ≤ t'.position) : Carried (Excused T) where
  pure _ _ := same fun _ _ hr => by cases hr; rfl
  bind := bind hT
  view _ _ := same fun _ _ hr => by cases hr; rfl
  nextIsColon _ := same fun _ _ hr => by cases hr; rfl
  advance _ := same fun _ _ hr => by cases hr; exact State.problems_advance _
  failHere _ _ := none rfl
  giveUp _ := none rfl
  nested _ := nested
  repeatUntil _ _ := repeatUntil hT

theorem lambdaTail (hT : T.Pairwise fun t t' => t.position ≤ t'.position) {n : Nat}
    (params : List String) (hl : s.current.lexeme = .symbol .arrow) :
    Excused T (lambdaTail (levels n) params) s := by
  have h := Grows.closed_bounds hT
  intro hs e s' hrun
  have hgrows := (h.carries (h.levels n)).lambdaTail params hl hs
  rw [hrun] at hgrows
  obtain ⟨-, ps, hps, hbetween, -⟩ := hgrows
  refine ⟨ps, hps, fun p hp => ⟨s.current, ?_, hl, Position.le_refl _, (hbetween p hp).1⟩⟩
  exact hs.subset List.mem_cons_self

theorem levels (hT : T.Pairwise fun t t' => t.position ≤ t'.position) :
    ∀ n, (levels n).Carries (Excused T)
  | 0 => ⟨fun _ => none rfl, fun _ => none rfl, lambdaTail hT⟩
  | n + 1 =>
    have h := carried hT
    have hd := levels hT n
    { assignment := fun s => h.nested s fun s =>
        h.assignment s (fun _ _ _ => none rfl) (h.conditional hd) hd.assignment
      unary := fun s => h.nested (r := unary (Grammar.levels n)) s (h.unary hd)
      lambdaTail := lambdaTail hT }

end Excused

/-- Two problems one after the other: the second stands behind the first, or it is the fault of an
assignment's target in which the first stands, behind an arrow. -/
def InTurn (T : List Token) (p q : Problem) : Prop :=
  p.position ≤ q.position ∨ q.fault = .assignmentTarget ∧
    ∃ t ∈ T, t.lexeme = .symbol .arrow ∧ q.position ≤ t.position ∧ t.position ≤ p.position

theorem closed_inTurn (hT : T.Pairwise fun t t' => t.position ≤ t'.position) :
    Closed (Along (Amid T) (Grows (InTurn T))) := by
  have m : Moves (Amid T) (Grows (InTurn T)) := Grows.moves (fun _ _ => .inl) hT
  refine m.respected.closed (fun _ hs => m.advance hs) fun s hconditional hassignment => ?_
  refine Grows.assignment (fun _ _ => .inl) hT ?_ (hconditional s) hassignment
  intro hs lhs s' hrun ps hps p hp
  have hexcused := (Excused.carried hT).conditional (Excused.levels hT _) s hs lhs s' hrun
  obtain ⟨qs, hqs, hbehind⟩ := hexcused
  obtain rfl := List.append_cancel_left (hps.symm.trans hqs)
  exact .inr ⟨rfl, hbehind p hp⟩

theorem amid_ofTokens {tokens : List Token} (h : tokens ≠ []) : Amid tokens (.ofTokens tokens) := by
  cases tokens with
  | nil => exact absurd rfl h
  | cons t ts => exact List.suffix_rfl

theorem problems_of_read {tokens : List Token} {ps : List Problem} (h : read tokens = .error ps) :
    problemsOf tokens = ps := by
  unfold read at h
  unfold problemsOf
  split at h
  · rename_i tree s hrun
    split at h
    · cases h
    · rw [hrun]
      exact Except.error.inj h
  · rename_i s hrun
    rw [hrun]
    exact Except.error.inj h

theorem inTurn_of_read {delimiters : Delimiters} {source : String} {ps : List Problem}
    (h : readTemplate delimiters source = .error ps) :
    ps.Pairwise (InTurn (Scanner.ofString delimiters source).tokens) := by
  obtain ⟨htokens, -⟩ := (Scanner.ofString delimiters source).lexemes_tokens
  have hT := (Scanner.sorted_tokens (s := Scanner.ofString delimiters source)
    (Position.le_refl _)).2
  have hne : (Scanner.ofString delimiters source).tokens ≠ [] := by
    intro hnil
    simp [hnil] at htokens
  obtain ⟨-, qs, hqs, -, hpairwise⟩ := (closed_inTurn hT).template _ (amid_ofTokens hne)
  rw [problems_ofTokens, List.nil_append] at hqs
  rw [← problems_of_read h, problemsOf, hqs]
  exact hpairwise

end TextTemplate.Grammar

namespace TextTemplate

open Grammar

/-- The reports of a template that does not compile stand in the order of the source, except that an
assignment to a target that holds a lambda is reported after what is reported in the lambda. -/
theorem reports_in_order_of_compile {delimiters : Delimiters} {name source : String} {e : Error}
    (h : compile delimiters name source = .error e) :
    ∃ reports, e = .compileFailed name reports ∧ reports.Pairwise fun r r' =>
      r.position ≤ r'.position ∨
        r'.message = "invalid assignment target; only variables can be assigned" ∧
        ∃ t ∈ (Scanner.ofString delimiters source).tokens, t.lexeme = .symbol .arrow ∧
          r'.position ≤ t.position ∧ t.position ≤ r.position := by
  unfold compile at h
  split at h
  · cases h
  · rename_i ps hread
    refine ⟨ps.map (Problem.report name source), (Except.error.inj h).symm, ?_⟩
    refine List.pairwise_map.2 ((inTurn_of_read hread).imp fun {p q} hpq => ?_)
    refine hpq.imp_right fun ⟨hfault, harrow⟩ => ⟨?_, harrow⟩
    rw [Problem.report, hfault]
    rfl

theorem reports_in_order_of_compile_target :
    ∃ reports,
      compile .default "page" "<% ) %><% 1 = 2 %>" = .error (.compileFailed "page" reports) ∧
      reports.Pairwise fun r r' => r.position ≤ r'.position ∨
        r'.message = "invalid assignment target; only variables can be assigned" ∧
        ∃ t ∈ (Scanner.ofString .default "<% ) %><% 1 = 2 %>").tokens, t.lexeme = .symbol .arrow ∧
          r'.position ≤ t.position ∧ t.position ≤ r.position := by
  have hfails : (compile .default "page" "<% ) %><% 1 = 2 %>").isOk = false := by decide +kernel
  cases h : compile .default "page" "<% ) %><% 1 = 2 %>" with
  | ok => rw [h] at hfails; cases hfails
  | error e =>
    obtain ⟨reports, rfl, hreports⟩ := reports_in_order_of_compile h
    exact ⟨reports, rfl, hreports⟩

/-- What is wrong in the body of a lambda is reported before the assignment to the lambda, which
begins before it. -/
theorem lambda_target_reported_after_body :
    ∃ r r',
      compile .default "page" "<% () -> ) end = 3 %>" = .error (.compileFailed "page" [r, r']) ∧
      r.position = ⟨1, 10⟩ ∧ r'.position = ⟨1, 4⟩ ∧ ¬ r.position ≤ r'.position := by
  have hproblems : problemsOf (Scanner.ofString .default "<% () -> ) end = 3 %>").tokens =
      [⟨⟨1, 10⟩, .expected .expression (.symbol .rparen)⟩, ⟨⟨1, 4⟩, .assignmentTarget⟩] := by
    decide +kernel
  have hread := readTemplate_of_problems hproblems nofun
  exact ⟨_, _, by rw [compile, hread]; rfl, rfl, rfl, by decide⟩

end TextTemplate
