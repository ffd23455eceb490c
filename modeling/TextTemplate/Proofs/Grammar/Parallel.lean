import TextTemplate.Proofs.Grammar.Progress
import TextTemplate.Proofs.Grammar.Recovery

/-! Two runs of a reader, on tokens that say the same up to where they part. There the first ones
end, but perhaps for a text, and the others go on with a text. As long as the runs are before that
point they cannot be told apart, and a reader that comes to it in the middle of a construct fails in
the first run. Where tokens stand makes no difference but in what is reported. -/

namespace TextTemplate.Grammar

variable {α β : Type} {E U : List Lexeme} {s s' : State}

inductive Parting : List Lexeme → List Lexeme → Prop
  | nowhere : Parting [] []
  | ends (c : String) (ls : List Lexeme) : Parting [.endOfInput] (.text c :: ls)
  | text (c c' : String) (ls : List Lexeme) : Parting [.text c, .endOfInput] (.text c' :: ls)

/-- States that differ in where the tokens stand and in what comes after they part. -/
structure Beside (E U : List Lexeme) (s s' : State) : Prop where
  parting : Parting E U
  lexemes : ∃ ls, s.lexemes = ls ++ E ∧ s'.lexemes = ls ++ U ∧ (E ≠ [] → .endOfInput ∉ ls)
  ends : s.Ends
  closed : ∀ c, .unclosed c ∉ s.lexemes
  depth : s'.depth = s.depth
  braces : s'.braces = s.braces
  exceeded : s'.exceeded = s.exceeded
  faults : s'.problems.map Problem.fault = s.problems.map Problem.fault

namespace State

theorem lexemes_leads (h : s.Leads s') : s'.lexemes <:+ s.lexemes := by
  obtain ⟨ts, hts⟩ := h.tokens
  exact ⟨ts.map Token.lexeme, by rw [lexemes, lexemes, ← hts, List.map_append]⟩

theorem advance_last (h : s.upcoming = []) : s.advance = s := by
  unfold advance
  split
  · rfl
  · simp_all

theorem lexemes_advance_upcoming (h : s.upcoming ≠ []) :
    s.advance.lexemes = s.upcoming.map Token.lexeme := by
  obtain ⟨t, ts, hts⟩ := List.exists_cons_of_ne_nil h
  rw [lexemes, (advance_eq hts).1, hts]

theorem lexemes_skipTo (stop : Lexeme → Bool) (h : s.lexemes = s'.lexemes) :
    (s.skipTo stop).lexemes = (s'.skipTo stop).lexemes := by
  have hfirst (t t' : Token) (ts ts' : List Token)
      (h : (t :: ts).map Token.lexeme = (t' :: ts').map Token.lexeme) :
      ((firstIn stop t ts).1 :: (firstIn stop t ts).2).map Token.lexeme =
        ((firstIn stop t' ts').1 :: (firstIn stop t' ts').2).map Token.lexeme := by
    induction ts generalizing t t' ts' with
    | nil =>
      obtain ⟨-, hts⟩ := List.cons.inj h
      obtain rfl := List.map_eq_nil_iff.1 hts.symm
      exact h
    | cons u ts ih =>
      cases ts' with
      | nil => simp at h
      | cons u' ts' =>
        obtain ⟨ht, hts⟩ := List.cons.inj h
        unfold firstIn
        rw [ht]
        split
        · exact h
        · exact ih u u' ts' hts
  exact hfirst s.current s'.current s.upcoming s'.upcoming h

end State

namespace Beside

theorem same_tokens (h : Beside [] [] s s') : s'.lexemes = s.lexemes := by
  obtain ⟨ls, hl, hl', -⟩ := h.lexemes
  rw [hl, hl']

theorem onward {s₁ s₁' : State} (h : Beside E U s s') (hs : s.Leads s₁) (hs' : s'.Leads s₁')
    (hlexemes : ∃ ls, s₁.lexemes = ls ++ E ∧ s₁'.lexemes = ls ++ U ∧ (E ≠ [] → .endOfInput ∉ ls))
    (hexceeded : s₁'.exceeded = s₁.exceeded)
    (hfaults : s₁'.problems.map Problem.fault = s₁.problems.map Problem.fault) :
    Beside E U s₁ s₁' where
  parting := h.parting
  lexemes := hlexemes
  ends := h.ends.leads hs
  closed c hc := h.closed c ((State.lexemes_leads hs).subset hc)
  depth := by rw [hs.depth, hs'.depth, h.depth]
  braces := by rw [hs.braces, hs'.braces, h.braces]
  exceeded := hexceeded
  faults := hfaults

theorem view (h : Beside E U s s') :
    s'.current.lexeme = s.current.lexeme ∧ (E ≠ [] → s.current.lexeme ≠ .endOfInput) ∧
        Beside E U s.advance s'.advance ∨
      (∃ c, E = [.endOfInput] ∧ s.lexemes = E ∧ s'.lexemes = U ∧ s.current.lexeme = .endOfInput ∧
        s'.current.lexeme = .text c) ∨
      ∃ c c', E = [.text c, .endOfInput] ∧ s.lexemes = E ∧ s'.lexemes = U ∧
        s.current.lexeme = .text c ∧ s'.current.lexeme = .text c' := by
  obtain ⟨ls, hl, hl', hends⟩ := h.lexemes
  cases ls with
  | nil =>
    obtain ⟨hparting, -⟩ := h
    have hE := (s.lexemes_eq.symm.trans hl).symm
    have hU := (s'.lexemes_eq.symm.trans hl').symm
    cases hparting with
    | nowhere => cases hE
    | ends c ls =>
      exact .inr (.inl ⟨c, rfl, hl, hl', (List.cons.inj hE).1.symm, (List.cons.inj hU).1.symm⟩)
    | text c c' ls =>
      exact .inr (.inr ⟨c, c', rfl, hl, hl', (List.cons.inj hE).1.symm,
        (List.cons.inj hU).1.symm⟩)
  | cons l ls =>
    obtain ⟨hcurrent, hupcoming⟩ := List.cons.inj (s.lexemes_eq.symm.trans hl)
    obtain ⟨hcurrent', hupcoming'⟩ := List.cons.inj (s'.lexemes_eq.symm.trans hl')
    refine .inl ⟨hcurrent'.trans hcurrent.symm, fun hne he => ?_, ?_⟩
    · exact hends hne (he ▸ hcurrent ▸ List.mem_cons_self)
    refine h.onward (.advance s) (.advance s') ?_
      (by rw [s.exceeded_advance, s'.exceeded_advance, h.exceeded])
      (by rw [s.problems_advance, s'.problems_advance, h.faults])
    by_cases hnil : ls = [] ∧ E = []
    · obtain ⟨rfl, rfl⟩ := hnil
      obtain rfl : U = [] := by
        cases h.parting
        rfl
      rw [s.advance_last (List.map_eq_nil_iff.1 hupcoming),
        s'.advance_last (List.map_eq_nil_iff.1 hupcoming')]
      exact ⟨_, hl, hl', hends⟩
    · have hne : s.upcoming ≠ [] := by
        intro hu
        rw [hu, List.map_nil] at hupcoming
        exact hnil (List.append_eq_nil_iff.1 hupcoming.symm)
      have hne' : s'.upcoming ≠ [] := by
        intro hu
        rw [hu, List.map_nil] at hupcoming'
        obtain ⟨hls, hU⟩ := List.append_eq_nil_iff.1 hupcoming'.symm
        refine hnil ⟨hls, ?_⟩
        obtain ⟨hparting, -⟩ := h
        rw [hU] at hparting
        cases hparting
        rfl
      rw [State.lexemes_advance_upcoming hne, State.lexemes_advance_upcoming hne', hupcoming,
        hupcoming']
      exact ⟨ls, rfl, rfl, fun hE he => hends hE (List.mem_cons_of_mem l he)⟩

theorem read {l : Lexeme} (h : Beside E U s s') (hl : s.current.lexeme = l)
    (htext : ∀ c, l ≠ .text c) (hend : l ≠ .endOfInput) :
    s'.current.lexeme = l ∧ Beside E U s.advance s'.advance := by
  subst hl
  rcases h.view with ⟨hl, -, hnext⟩ | ⟨c, -, -, -, hl, -⟩ | ⟨c, c', -, -, -, hl, -⟩
  · exact ⟨hl, hnext⟩
  · exact absurd hl hend
  · exact absurd hl (htext c)

theorem deeper (h : Beside E U s s') :
    Beside E U { s with depth := s.depth + 1 } { s' with depth := s'.depth + 1 } :=
  ⟨h.parting, h.lexemes, h.ends, h.closed, congrArg (· + 1) h.depth, h.braces, h.exceeded, h.faults⟩

theorem inBrace (h : Beside E U s s') :
    Beside E U { s with braces := s.braces + 1 } { s' with braces := s'.braces + 1 } :=
  ⟨h.parting, h.lexemes, h.ends, h.closed, h.depth, congrArg (· + 1) h.braces, h.exceeded, h.faults⟩

theorem left (h : Beside E U s s') : s'.left + E.length = s.left + U.length := by
  obtain ⟨ls, hl, hl', -⟩ := h.lexemes
  have hlength := s.length_lexemes
  have hlength' := s'.length_lexemes
  rw [hl, List.length_append] at hlength
  rw [hl', List.length_append] at hlength'
  omega

theorem left_lt {s₁ s₁' : State} (h : Beside E U s s') (h₁ : Beside E U s₁ s₁') :
    s₁'.left < s'.left ↔ s₁.left < s.left := by
  have := h.left
  have := h₁.left
  omega

section Reports

variable (h : Beside [] [] s s')
include h

theorem record (p p' : Position) (fault : Fault) :
    Beside [] [] (s.record p fault) (s'.record p' fault) := by
  have hexceeded := h.exceeded
  have hfaults := h.faults
  unfold State.record
  by_cases hs : s.exceeded = true
  · rw [if_pos hs, if_pos (hexceeded.trans hs)]
    exact h
  · rw [if_neg hs, if_neg (fun hs' => hs (hexceeded.symm.trans hs'))]
    exact ⟨h.parting, h.lexemes, h.ends, h.closed, h.depth, h.braces, hexceeded, by simp [hfaults]⟩

theorem skipTo (stop : Lexeme → Bool) : Beside [] [] (s.skipTo stop) (s'.skipTo stop) := by
  have hlexemes := State.lexemes_skipTo stop h.same_tokens
  refine h.onward (.skipTo stop s) (.skipTo stop s') ⟨_, (List.append_nil _).symm, ?_, nofun⟩
    h.exceeded h.faults
  rw [hlexemes, List.append_nil]

theorem recover : Beside [] [] s.recover s'.recover := by
  rcases h.view with ⟨hl, -, hnext⟩ | ⟨c, hE, -⟩ | ⟨c, c', hE, -⟩
  · unfold State.recover
    rw [hl]
    split
    · exact h
    · split
      · exact hnext.skipTo _
      · exact h.skipTo _
  · cases hE
  · cases hE

theorem giveUp : Beside [] [] s.giveUp s'.giveUp := by
  have hrecord := h.record s.current.position s'.current.position .tooDeep
  have hlexemes := State.lexemes_skipTo (· == .endOfInput) hrecord.same_tokens
  refine h.onward (.giveUp s) (.giveUp s') ⟨s.giveUp.lexemes, (List.append_nil _).symm, ?_, nofun⟩
    rfl hrecord.faults
  rw [List.append_nil]
  exact hlexemes

theorem misplaced (what : Expected) :
    Fault.misplaced what s'.current = Fault.misplaced what s.current := by
  rcases h.view with ⟨hl, -⟩ | ⟨c, hE, -⟩ | ⟨c, c', hE, -⟩
  · have hclosed (c : String) : s.current.lexeme ≠ .unclosed c := by
      intro hc
      refine h.closed c ?_
      rw [s.lexemes_eq, hc]
      exact List.mem_cons_self
    unfold Fault.misplaced
    rw [hl]
    split
    · rename_i c hc
      exact absurd hc (hclosed c)
    · rfl
    · rfl
  · cases hE
  · cases hE

end Reports
end Beside

/-- Two runs find the same and leave the states beside each other, unless the tokens part and
something is wrong in the first run. -/
def Likewise (E U : List Lexeme) (r r' : Reader α) (s s' : State) : Prop :=
  E ≠ [] ∧ (r.run s).2.problems ≠ [] ∨
    (r'.run s').1 = (r.run s).1 ∧ Beside E U (r.run s).2 (r'.run s').2

def Parallel (E U : List Lexeme) (r : Reader α) : Prop :=
  ∀ s s', Beside E U s s' → Likewise E U r r s s'

namespace Likewise

variable {r r' : Reader α} {k k' : α → Reader β}

theorem bind (h : Likewise E U r r' s s')
    (hk : ∀ a s₁ s₁', r.run s = (some a, s₁) → Beside E U s₁ s₁' →
      Likewise E U (k a) (k' a) s₁ s₁') :
    Likewise E U (r >>= k) (r' >>= k') s s' := by
  rcases hr : r.run s with ⟨a?, s₁⟩
  rcases hr' : r'.run s' with ⟨a?', s₁'⟩
  unfold Likewise at h ⊢
  rw [hr, hr'] at h
  rcases h with ⟨hne, hp⟩ | ⟨ha, hs₁⟩
  · refine .inl ⟨hne, ?_⟩
    cases a? with
    | none => rwa [run_bind_none hr]
    | some a =>
      rw [run_bind_some hr]
      exact fun hp' => hp (State.problems_eq_nil ((k a).leads s₁) hp')
  · obtain rfl : a?' = a? := ha
    cases a?' with
    | none =>
      rw [run_bind_none hr, run_bind_none hr']
      exact .inr ⟨rfl, hs₁⟩
    | some a =>
      rw [run_bind_some hr, run_bind_some hr']
      exact hk a s₁ s₁' hr hs₁

theorem pure (a : α) (hs : Beside E U s s') :
    Likewise E U (Pure.pure a : Reader α) (Pure.pure a) s s' :=
  .inr ⟨rfl, hs⟩

theorem pure_bind {a : α} (h : Likewise E U (k a) (k' a) s s') :
    Likewise E U (Pure.pure a >>= k) (Pure.pure a >>= k') s s' := h

theorem current {k k' : Token → Reader β} (h : Likewise E U (k s.current) (k' s'.current) s s') :
    Likewise E U (current >>= k) (current >>= k') s s' := h

theorem step {k k' : Unit → Reader β} (h : Likewise E U (k ()) (k' ()) s.advance s'.advance) :
    Likewise E U (advance >>= k) (advance >>= k') s s' := h

theorem atSymbol {x : Symbol} {yes no yes' no' : Reader β} (hs : Beside E U s s')
    (hyes : s.current.lexeme = .symbol x → Beside E U s.advance s'.advance →
      Likewise E U yes yes' s s') (hno : Likewise E U no no' s s') :
    Likewise E U (atSymbol x >>= fun here => if here then yes else no)
      (Grammar.atSymbol x >>= fun here => if here then yes' else no') s s' := by
  change Likewise E U (if s.current.lexeme == .symbol x then yes else no)
    (if s'.current.lexeme == .symbol x then yes' else no') s s'
  rcases hs.view with ⟨hl, -, hnext⟩ | ⟨c, -, -, -, hl, hl'⟩ | ⟨c, c', -, -, -, hl, hl'⟩
  · rw [hl]
    split
    · rename_i h
      exact hyes (beq_iff_eq.1 h) hnext
    · exact hno
  · rw [hl, hl']
    exact hno
  · rw [hl, hl']
    exact hno

theorem atKeyword {x : Keyword} {yes no yes' no' : Reader β} (hs : Beside E U s s')
    (hyes : s.current.lexeme = .keyword x → Beside E U s.advance s'.advance →
      Likewise E U yes yes' s s') (hno : Likewise E U no no' s s') :
    Likewise E U (atKeyword x >>= fun here => if here then yes else no)
      (Grammar.atKeyword x >>= fun here => if here then yes' else no') s s' := by
  change Likewise E U (if s.current.lexeme == .keyword x then yes else no)
    (if s'.current.lexeme == .keyword x then yes' else no') s s'
  rcases hs.view with ⟨hl, -, hnext⟩ | ⟨c, -, -, -, hl, hl'⟩ | ⟨c, c', -, -, -, hl, hl'⟩
  · rw [hl]
    split
    · rename_i h
      exact hyes (beq_iff_eq.1 h) hnext
    · exact hno
  · rw [hl, hl']
    exact hno
  · rw [hl, hl']
    exact hno

theorem report (hs : Beside E U s s') (hr : (r.run s).2.problems ≠ [])
    (h : Beside [] [] s s' → Likewise [] [] r r' s s') : Likewise E U r r' s s' := by
  by_cases hE : E = []
  · obtain ⟨hparting, -⟩ := id hs
    subst hE
    cases hparting
    exact h hs
  · exact .inl ⟨hE, hr⟩

theorem failAt (hs : Beside E U s s') (p p' : Position) (fault : Fault) :
    Likewise E U (failAt p fault : Reader α) (Grammar.failAt p' fault) s s' :=
  report hs problems_failAt fun hs => .inr ⟨rfl, (hs.record p p' fault).recover⟩

theorem fail (hs : Beside E U s s') (fault : Fault) :
    Likewise E U (fail fault : Reader α) (Grammar.fail fault) s s' :=
  current (failAt hs _ _ fault)

theorem unexpected (hs : Beside E U s s') (what : Expected) :
    Likewise E U (unexpected what : Reader α) (Grammar.unexpected what) s s' := by
  refine report hs problems_failAt fun hs => current ?_
  rw [hs.misplaced what]
  exact fail hs _

theorem giveUp (hs : Beside E U s s') :
    Likewise E U (giveUp : Reader α) Grammar.giveUp s s' :=
  report hs (s.problems_record_ne_nil _ _) fun hs => .inr ⟨rfl, hs.giveUp⟩

theorem skipOver (hs : Beside E U s s') (fault : Fault) :
    Likewise E U (skipOver fault) (Grammar.skipOver fault) s s' :=
  report hs (problems_failAt (α := Unit)) fun hs =>
    .inr ⟨rfl, (hs.record _ _ fault).recover⟩

theorem note (hs : Beside E U s s') (fault : Fault) :
    Likewise E U (note fault) (Grammar.note fault) s s' :=
  report hs (s.problems_record_ne_nil _ _) fun hs => .inr ⟨rfl, hs.record _ _ fault⟩

theorem found (hs : Beside E U s s') (a? : Option α) :
    Likewise E U (found a?) (Grammar.found a?) s s' :=
  .inr ⟨rfl, hs⟩

theorem optional (h : Likewise E U r r' s s') :
    Likewise E U (optional r) (Grammar.optional r') s s' :=
  h.imp_right fun ⟨ha, hs⟩ => ⟨congrArg some ha, hs⟩

theorem nested (hs : Beside E U s s')
    (h : Likewise E U r r' { s with depth := s.depth + 1 } { s' with depth := s'.depth + 1 }) :
    Likewise E U (nested r) (Grammar.nested r') s s' := by
  by_cases hd : maxNesting ≤ s.depth
  · have hd' : maxNesting ≤ s'.depth := Nat.le_trans hd (Nat.le_of_eq hs.depth.symm)
    have hgiveUp := giveUp (α := α) hs
    unfold Likewise
    rw [run_nested_limit hd, run_nested_limit hd']
    exact hgiveUp
  · have hd' : ¬ maxNesting ≤ s'.depth := hs.depth ▸ hd
    unfold Likewise
    rw [run_nested_below hd, run_nested_below hd']
    refine h.imp_right fun ⟨ha, hs₁⟩ => ⟨ha, ?_⟩
    exact ⟨hs₁.parting, hs₁.lexemes, hs₁.ends, hs₁.closed, congrArg (· - 1) hs₁.depth, hs₁.braces,
      hs₁.exceeded, hs₁.faults⟩

theorem inBraces
    (h : Likewise E U r r' { s with braces := s.braces + 1 } { s' with braces := s'.braces + 1 }) :
    Likewise E U (inBraces r) (Grammar.inBraces r') s s' := by
  refine h.imp_right fun ⟨ha, hs₁⟩ => ⟨ha, ?_⟩
  exact ⟨hs₁.parting, hs₁.lexemes, hs₁.ends, hs₁.closed, hs₁.depth, congrArg (· - 1) hs₁.braces,
    hs₁.exceeded, hs₁.faults⟩

end Likewise

namespace Parallel

variable {r : Reader α}

theorem nested (h : Parallel E U r) : Parallel E U (nested r) :=
  fun _ _ hs => .nested hs (h _ _ hs.deeper)

theorem repeatUntil_or {pass : α → Reader (α ⊕ β)} {C : α → State → State → Prop}
    (h : ∀ a s s', Beside E U s s' → Likewise E U (pass a) (pass a) s s' ∨ C a s s')
    (hC : ∀ {a a' : α} {s s' s₁ s₁' : State}, passes pass a s = passes pass a' s₁ →
      passes pass a s' = passes pass a' s₁' → C a' s₁ s₁' → C a s s')
    (a : α) (hs : Beside E U s s') :
    Likewise E U (repeatUntil pass a) (repeatUntil pass a) s s' ∨ C a s s' := by
  induction hn : s.left using Nat.strongRecOn generalizing a s s' with
  | ind n ih =>
    rcases hr : (pass a).run s with ⟨next?, s₁⟩
    rcases hr' : (pass a).run s' with ⟨next?', s₁'⟩
    have hpasses : (repeatUntil pass a).run s = _ := passes_of_run hr
    have hpasses' : (repeatUntil pass a).run s' = _ := passes_of_run hr'
    have hleads := leads_passes_of_pass pass a s
    rw [hr] at hleads
    rcases h a s s' hs with hpass | hcome
    · unfold Likewise at hpass
      rw [hr, hr'] at hpass
      rcases hpass with ⟨hne, hp⟩ | ⟨hnext, hs₁⟩
      · exact .inl (.inl ⟨hne, fun hp' => hp (State.problems_eq_nil hleads hp')⟩)
      obtain rfl : next?' = next? := hnext
      have hsame {b? : Option β} (hb : (repeatUntil pass a).run s = (b?, s₁))
          (hb' : (repeatUntil pass a).run s' = (b?, s₁')) :
          Likewise E U (repeatUntil pass a) (repeatUntil pass a) s s' := by
        unfold Likewise
        rw [hb, hb']
        exact .inr ⟨rfl, hs₁⟩
      match next?' with
      | none => exact .inl (hsame hpasses hpasses')
      | some (.inr b) => exact .inl (hsame hpasses hpasses')
      | some (.inl a') =>
        have hlt := hs.left_lt hs₁
        by_cases hless : s₁.left < s.left
        · have hgo : (repeatUntil pass a).run s = passes pass a' s₁ := hpasses.trans (if_pos hless)
          have hgo' : (repeatUntil pass a).run s' = passes pass a' s₁' :=
            hpasses'.trans (if_pos (hlt.2 hless))
          refine (ih s₁.left (hn ▸ hless) a' hs₁ rfl).imp (fun hrest => ?_) (hC hgo hgo')
          unfold Likewise
          rw [hgo, hgo']
          exact hrest
        · have hstay' := fun h => hless (hlt.1 h)
          exact .inl (hsame (hpasses.trans (if_neg hless)) (hpasses'.trans (if_neg hstay')))
    · exact .inr hcome

theorem repeatUntil {pass : α → Reader (α ⊕ β)} (h : ∀ a, Parallel E U (pass a)) (a : α) :
    Parallel E U (repeatUntil pass a) := fun _ _ hs =>
  (repeatUntil_or (C := fun _ _ _ => False) (fun a s s' hs => .inl (h a s s' hs))
    (fun _ _ => id) a hs).resolve_right id

theorem skipColon : Parallel E U skipColon := fun _ _ hs =>
  .atSymbol hs (fun _ hnext => .inr ⟨rfl, hnext⟩) (.pure () hs)

theorem expectEnd : Parallel E U expectEnd := fun _ _ hs =>
  .atKeyword hs (fun _ hnext => .inr ⟨rfl, hnext⟩) (.unexpected hs _)

theorem memberName : Parallel E U memberName := by
  intro s s' hs
  refine .current ?_
  rcases hs.view with ⟨hl, -, hnext⟩ | ⟨c, -, -, -, hl, hl'⟩ | ⟨c, c', -, -, -, hl, hl'⟩
  · rw [hl]
    split
    · exact .step (.pure _ hnext)
    · exact .unexpected hs _
  all_goals
    rw [hl, hl']
    exact .unexpected hs _

theorem templateName : Parallel E U templateName := by
  intro s s' hs
  refine .current ?_
  rcases hs.view with ⟨hl, -, hnext⟩ | ⟨c, -, -, -, hl, hl'⟩ | ⟨c, c', -, -, -, hl, hl'⟩
  · rw [hl]
    split
    · exact .step (.pure _ hnext)
    · exact .unexpected hs _
  all_goals
    rw [hl, hl']
    exact .unexpected hs _

theorem blockName : Parallel E U blockName := by
  intro s s' hs
  refine .current ?_
  rcases hs.view with ⟨hl, -, hnext⟩ | ⟨c, -, -, -, hl, hl'⟩ | ⟨c, c', -, -, -, hl, hl'⟩
  · rw [hl]
    split
    · exact .step (.pure _ hnext)
    · exact .pure _ hs
  all_goals
    rw [hl, hl']
    exact .pure _ hs

theorem leftAssociative {operand : Reader α} {operator? : Lexeme → Option (α → α → α)}
    (htext : ∀ c, operator? (.text c) = none) (hend : operator? .endOfInput = none)
    (h : Parallel E U operand) : Parallel E U (leftAssociative operand operator?) := by
  intro s s' hs
  refine .bind (h s s' hs) fun lhs s₁ s₁' _ hs₁ => repeatUntil (fun lhs s s' hs => ?_) lhs _ _ hs₁
  refine .current ?_
  rcases hs.view with ⟨hl, -, hnext⟩ | ⟨c, -, -, -, hl, hl'⟩ | ⟨c, c', -, -, -, hl, hl'⟩
  · rw [hl]
    split
    · exact .step (.bind (h _ _ hnext) fun rhs _ _ _ hs => .pure _ hs)
    · exact .pure _ hs
  · rw [hl, hl', htext, hend]
    exact .pure _ hs
  · rw [hl, hl', htext, htext]
    exact .pure _ hs

theorem separated {item : Reader α} (closing : Symbol) (what : Expected)
    (h : Parallel E U item) : Parallel E U (separated item closing what) := by
  intro s s' hs
  refine .atSymbol hs (fun _ hnext => .step (.pure _ hnext)) ?_
  refine repeatUntil (fun read s s' hs => ?_) [] _ _ hs
  refine .bind (h s s' hs) fun a s s' _ hs => ?_
  refine .atSymbol hs (fun _ hnext => .step (.pure _ hnext)) ?_
  exact .atSymbol hs (fun _ hnext => .step (.pure _ hnext)) (.unexpected hs _)

theorem updateOf (op : UpdateOp) (before : Bool) (e : SourceExpr) :
    Parallel E U (updateOf op before e) := by
  intro s s' hs
  unfold Grammar.updateOf
  split
  · exact .pure _ hs
  · exact .fail hs _

end Parallel

def Loosely (E U : List Lexeme) (r : Reader α) (s s' : State) : Prop :=
  Likewise E U r r s s' ∨
    E ≠ [] ∧ ∃ a s₁, r.run s = (some a, s₁) ∧ s₁.current.lexeme = .endOfInput

structure Deeper.Parallel (E U : List Lexeme) (deeper : Deeper) : Prop where
  statements (s s' : State) : Beside E U s s' → Loosely E U deeper.statements s s'
  assignment : Grammar.Parallel E U deeper.assignment
  unary : Grammar.Parallel E U deeper.unary

theorem problems_bind {r : Reader α} {k : α → Reader β} (h : (r.run s).2.problems ≠ []) :
    ((r >>= k).run s).2.problems ≠ [] := by
  rcases hr : r.run s with ⟨_ | a, s₁⟩ <;> rw [hr] at h
  · rwa [run_bind_none hr]
  · rw [run_bind_some hr]
    exact fun hp => h (State.problems_eq_nil ((k a).leads s₁) hp)

namespace Loosely

variable {r : Reader α} {k : α → Reader β}

theorem fails (h : Loosely E U r s s')
    (hk : ∀ a s₁ s₁', Beside E U s₁ s₁' → Likewise E U (k a) (k a) s₁ s₁')
    (hend : ∀ a s₁, s₁.current.lexeme = .endOfInput → ((k a).run s₁).2.problems ≠ []) :
    Likewise E U (r >>= k) (r >>= k) s s' := by
  rcases h with h | ⟨hne, a, s₁, hr, hl⟩
  · exact h.bind fun a s₁ s₁' _ => hk a s₁ s₁'
  · refine .inl ⟨hne, ?_⟩
    rw [run_bind_some hr]
    exact hend a s₁ hl

theorem after (h : Likewise E U r r s s')
    (hk : ∀ a s₁ s₁', r.run s = (some a, s₁) → Beside E U s₁ s₁' → Loosely E U (k a) s₁ s₁') :
    Loosely E U (r >>= k) s s' := by
  rcases hr : r.run s with ⟨a?, s₁⟩
  rcases hr' : r.run s' with ⟨a?', s₁'⟩
  have hrun := h
  unfold Likewise at hrun
  rw [hr, hr'] at hrun
  rcases hrun with ⟨hne, hp⟩ | ⟨ha, hs₁⟩
  · exact .inl (.inl ⟨hne, problems_bind (by rwa [hr])⟩)
  obtain rfl : a?' = a? := ha
  cases a?' with
  | none => exact .inl (h.bind fun a s₁ s₁' hr₁ => by rw [hr] at hr₁; cases hr₁)
  | some a =>
    unfold Loosely Likewise
    rw [run_bind_some hr, run_bind_some hr']
    exact hk a s₁ s₁' hr hs₁

theorem stays (h : Loosely E U r s s')
    (hk : ∀ a s₁ s₁', Beside E U s₁ s₁' → Loosely E U (k a) s₁ s₁')
    (hend : ∀ a s₁, s₁.current.lexeme = .endOfInput → ∃ b, (k a).run s₁ = (some b, s₁)) :
    Loosely E U (r >>= k) s s' := by
  rcases h with h | ⟨hne, a, s₁, hr, hl⟩
  · exact after h fun a s₁ s₁' _ => hk a s₁ s₁'
  · obtain ⟨b, hb⟩ := hend a s₁ hl
    exact .inr ⟨hne, b, s₁, by rw [run_bind_some hr, hb], hl⟩

theorem step {k : Unit → Reader β} (h : Loosely E U (k ()) s.advance s'.advance) :
    Loosely E U (advance >>= k) s s' := h

theorem atKeyword {x : Keyword} {yes no : Reader α} (hs : Beside E U s s')
    (hyes : Beside E U s.advance s'.advance → Loosely E U yes s s')
    (hno : Likewise E U no no s s') :
    Loosely E U (atKeyword x >>= fun here => if here then yes else no) s s' := by
  by_cases hl : s.current.lexeme = .keyword x
  · obtain ⟨hl', hnext⟩ := hs.read hl nofun nofun
    have hrun {t : State} (ht : t.current.lexeme = .keyword x) :
        (Grammar.atKeyword x >>= fun here => if here then yes else no).run t = yes.run t := by
      change (if t.current.lexeme == .keyword x then yes else no).run t = _
      rw [if_pos (beq_iff_eq.2 ht)]
    unfold Loosely Likewise
    rw [hrun hl, hrun hl']
    exact hyes hnext
  · exact .inl (.atKeyword hs (fun h _ => absurd h hl) hno)

theorem optional (h : Loosely E U r s s') : Loosely E U (optional r) s s' := by
  refine h.imp .optional fun ⟨hne, a, s₁, hr, hl⟩ => ⟨hne, some a, s₁, ?_, hl⟩
  change (some (r.run s).1, (r.run s).2) = _
  rw [hr]

theorem nested (h : ∀ s s', Beside E U s s' → Loosely E U r s s') (hs : Beside E U s s') :
    Loosely E U (nested r) s s' := by
  rcases h _ _ hs.deeper with h | ⟨hne, a, s₁, hr, hl⟩
  · exact .inl (.nested hs h)
  · by_cases hd : maxNesting ≤ s.depth
    · refine .inl (.inl ⟨hne, ?_⟩)
      rw [run_nested_limit hd]
      exact s.problems_record_ne_nil _ _
    · exact .inr ⟨hne, a, { s₁ with depth := s₁.depth - 1 }, by rw [run_nested_below hd, hr], hl⟩

theorem inBraces (h : ∀ s s', Beside E U s s' → Loosely E U r s s') (hs : Beside E U s s') :
    Loosely E U (inBraces r) s s' := by
  refine (h _ _ hs.inBrace).imp .inBraces fun ⟨hne, a, s₁, hr, hl⟩ =>
    ⟨hne, a, { s₁ with braces := s₁.braces - 1 }, ?_, hl⟩
  rw [run_inBraces, hr]

end Loosely

theorem problems_expectEnd (h : s.current.lexeme = .endOfInput) :
    (expectEnd.run s).2.problems ≠ [] := by
  change ((if s.current.lexeme == .keyword .end_ then advance
    else unexpected .endOfConstruct : Reader Unit).run s).2.problems ≠ []
  rw [h]
  exact problems_failAt

namespace Parallel

variable {deeper : Deeper} (hd : deeper.Parallel E U)
include hd

theorem lambdaBody : Parallel E U (lambdaBody deeper) := by
  intro s s' hs
  refine .atSymbol hs (fun _ hnext => .step ?_) ?_
  · refine (Loosely.inBraces hd.statements hnext).fails (fun body s s' hs => ?_) fun body s hl => ?_
    · exact .atSymbol hs (fun _ hnext => .step (.pure _ hnext)) (.unexpected hs _)
    · change ((if s.current.lexeme == .symbol .rbrace then _ else _ :
        Reader (List SourceStmt)).run s).2.problems ≠ []
      rw [hl]
      exact problems_failAt
  · refine (hd.statements s s' hs).fails (fun body s s' hs => ?_) fun body s hl => ?_
    · exact .bind (expectEnd s s' hs) fun _ _ _ _ hs => .pure _ hs
    · exact problems_bind (problems_expectEnd hl)

omit hd in
theorem run_nextIsColon (hl : s.current.lexeme ≠ .symbol .colon) :
    mapEntry.nextIsColon.run s = (some (s.advance.current.lexeme == .symbol .colon), s) := by
  change (some (s.upcoming.head?.any fun t => t.lexeme == .symbol .colon), s) = _
  cases hu : s.upcoming with
  | nil =>
    rw [s.advance_last hu, beq_false_of_ne hl]
    rfl
  | cons t ts =>
    have hcurrent := (List.cons.inj (State.advance_eq hu).1).1
    rw [hcurrent]
    rfl

omit hd in
theorem nextIsColon (hs : Beside E U s s') (hl : s'.current.lexeme = s.current.lexeme)
    (hne : s.current.lexeme ≠ .symbol .colon) (hnext : Beside E U s.advance s'.advance) :
    Likewise E U mapEntry.nextIsColon mapEntry.nextIsColon s s' := by
  unfold Likewise
  rw [run_nextIsColon hne, run_nextIsColon (hl ▸ hne)]
  refine .inr ⟨?_, hs⟩
  rcases hnext.view with ⟨hl, -⟩ | ⟨c, -, -, -, hl, hl'⟩ | ⟨c, c', -, -, -, hl, hl'⟩
  · rw [hl]
  all_goals
    rw [hl, hl']
    rfl

theorem mapEntry : Parallel E U (mapEntry deeper) := by
  intro s s' hs
  refine .current ?_
  rcases hs.view with ⟨hl, -, hnext⟩ | ⟨c, -, -, -, hl, hl'⟩ | ⟨c, c', -, -, -, hl, hl'⟩
  · rw [hl]
    split
    · exact .unexpected hs _
    · rename_i key hkey
      have hkeyed {l : Lexeme} (hl : key? l = none) : s.current.lexeme ≠ l := by
        rintro rfl
        rw [hl] at hkey
        cases hkey
      have hcolon := nextIsColon hs hl (hkeyed rfl) hnext
      refine .bind hcolon fun colon t t' hr ht => ?_
      rw [run_nextIsColon (hkeyed rfl)] at hr
      obtain ⟨hc, rfl⟩ := Prod.mk.inj hr
      split
      · rename_i h
        have hcolon := beq_iff_eq.1 ((Option.some.inj hc).trans h)
        obtain ⟨-, hnext⟩ := ht.read rfl (fun _ => hkeyed rfl) (hkeyed rfl)
        obtain ⟨-, hnext⟩ := hnext.read hcolon nofun nofun
        exact .step (.step (.bind (hd.assignment _ _ hnext) fun e _ _ _ hs => .pure _ hs))
      · exact .fail ht _
  all_goals
    rw [hl, hl']
    exact .unexpected hs _

theorem parenthesized (hs : Beside E U s s') (hl : s.current.lexeme = .symbol .lparen) :
    Likewise E U (parenthesized deeper) (Grammar.parenthesized deeper) s s' := by
  obtain ⟨-, hnext⟩ := hs.read hl nofun nofun
  refine .step (.bind (separated _ _ hd.assignment _ _ hnext) fun items s s' _ hs => ?_)
  refine .atSymbol hs (fun _ hnext => ?_) ?_
  · split
    · exact .step (.bind (lambdaBody hd _ _ hnext) fun body _ _ _ hs => .pure _ hs)
    · exact .fail hs _
  · split
    · exact .fail hs _
    · exact .pure _ hs
    · exact .pure _ hs

theorem primary : Parallel E U (primary deeper) := by
  intro s s' hs
  refine .current ?_
  rcases hs.view with ⟨hl, -, hnext⟩ | ⟨c, -, -, -, hl, hl'⟩ | ⟨c, c', -, -, -, hl, hl'⟩
  · rw [hl]
    split
    case h_1 | h_2 | h_3 | h_4 | h_5 | h_6 => exact .step (.pure _ hnext)
    case h_7 => exact .step (.bind (memberName _ _ hnext) fun name _ _ _ hs => .pure _ hs)
    case h_8 hl => exact parenthesized hd hs hl
    case h_9 =>
      refine .step (.bind (separated _ _ hd.assignment _ _ hnext) fun items _ _ _ hs => ?_)
      exact .pure _ hs
    case h_10 =>
      refine .step (.bind (separated _ _ (mapEntry hd) _ _ hnext) fun entries _ _ _ hs => ?_)
      exact .pure _ hs
    case h_11 => exact .unexpected hs _
  all_goals
    rw [hl, hl']
    exact .unexpected hs _

theorem callMember : Parallel E U (callMember deeper) := by
  intro s s' hs
  refine .bind (primary hd s s' hs) fun e s s' _ hs => repeatUntil (fun e s s' hs => ?_) e _ _ hs
  refine .current ?_
  rcases hs.view with ⟨hl, -, hnext⟩ | ⟨c, -, -, -, hl, hl'⟩ | ⟨c, c', -, -, -, hl, hl'⟩
  · rw [hl]
    split
    case h_1 =>
      refine .step (.bind (separated _ _ hd.assignment _ _ hnext) fun args _ _ _ hs => ?_)
      exact .pure _ hs
    case h_2 | h_3 =>
      exact .step (.bind (memberName _ _ hnext) fun name _ _ _ hs => .pure _ hs)
    case h_4 => exact .pure _ hs
  all_goals
    rw [hl, hl']
    exact .pure _ hs

theorem postfixed : Parallel E U (postfixed deeper) := by
  intro s s' hs
  refine .bind (callMember hd s s' hs) fun operand s s' _ hs => .current ?_
  rcases hs.view with ⟨hl, -, hnext⟩ | ⟨c, -, -, -, hl, hl'⟩ | ⟨c, c', -, -, -, hl, hl'⟩
  · rw [hl]
    split
    · rename_i op hop
      unfold Grammar.updateOf
      split
      · exact .pure_bind (.step (.pure _ hnext))
      · exact .bind (.fail hs _) fun e s s' hr _ => nomatch (Prod.mk.inj hr).1
    · exact .pure _ hs
  all_goals
    rw [hl, hl']
    exact .pure _ hs

theorem unary : Parallel E U (unary deeper) := by
  intro s s' hs
  refine .current ?_
  dsimp only
  rcases hs.view with ⟨hl, -, hnext⟩ | ⟨c, -, -, -, hl, hl'⟩ | ⟨c, c', -, -, -, hl, hl'⟩
  · rw [hl]
    split
    · exact .step (.bind (hd.unary _ _ hnext) fun e _ _ _ hs => .pure _ hs)
    · rename_i op _ _
      exact .step (.bind (hd.unary _ _ hnext) fun e _ _ _ hs => updateOf op true e _ _ hs)
    · exact postfixed hd s s' hs
  all_goals
    rw [hl, hl']
    exact postfixed hd s s' hs

theorem multiplicative : Parallel E U (multiplicative deeper) :=
  leftAssociative (fun _ => rfl) rfl (unary hd)

theorem additive : Parallel E U (additive deeper) :=
  leftAssociative (fun _ => rfl) rfl (multiplicative hd)

theorem comparison : Parallel E U (comparison deeper) :=
  leftAssociative (fun _ => rfl) rfl (additive hd)

theorem equality : Parallel E U (equality deeper) :=
  leftAssociative (fun _ => rfl) rfl (comparison hd)

theorem logical : Parallel E U (logical deeper) :=
  leftAssociative (fun _ => rfl) rfl (equality hd)

theorem conditional : Parallel E U (conditional deeper) := by
  intro s s' hs
  refine .bind (logical hd s s' hs) fun test s s' _ hs => ?_
  refine .atSymbol hs (fun _ hnext => .step ?_) (.pure _ hs)
  refine .bind (hd.assignment _ _ hnext) fun yes s s' _ hs => ?_
  refine .atSymbol hs (fun _ hnext => .step ?_) (.unexpected hs _)
  exact .bind (hd.assignment _ _ hnext) fun no _ _ _ hs => .pure _ hs

theorem assignment : Parallel E U (assignment deeper) := by
  intro s s' hs
  refine .current (.bind (conditional hd s s' hs) fun lhs t t' _ ht => .current ?_)
  rcases ht.view with ⟨hl, -, hnext⟩ | ⟨c, -, -, -, hl, hl'⟩ | ⟨c, c', -, -, -, hl, hl'⟩
  · rw [hl]
    split
    · exact .pure _ ht
    · split
      · exact .step (.bind (hd.assignment _ _ hnext) fun value _ _ _ hs => .pure _ hs)
      · exact .failAt ht _ _ _
  all_goals
    rw [hl, hl']
    exact .pure _ ht

end Parallel

end TextTemplate.Grammar
