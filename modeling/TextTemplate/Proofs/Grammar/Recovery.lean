import TextTemplate.Proofs.Grammar.Heedless

/-! How reading goes on after an output that lacks its expression. -/

namespace TextTemplate.Grammar

variable {α β : Type} {s s' : State}

namespace State

def onto (s : State) (ts : List Token) : State :=
  { s with
    upcoming := s.upcoming ++ ts
    left := s.left + ts.length
    left_eq := by simp [s.left_eq] }

def Cut (s : State) : Prop :=
  ∃ c, s.lexemes.getLast? = some (.text c)

variable {ts : List Token}

theorem Cut.upcoming_ne_nil (h : s.Cut) (hl : ∀ c, s.current.lexeme ≠ .text c) :
    s.upcoming ≠ [] := by
  obtain ⟨c, hc⟩ := h
  intro hu
  rw [lexemes_eq, hu] at hc
  exact hl c (Option.some.inj hc)

theorem advance_eq {t : Token} {us : List Token} (h : s.upcoming = t :: us) :
    s.advance.tokens = t :: us ∧ s.advance.left + 1 = s.left := by
  obtain ⟨current, upcoming, left, hleft, problems, depth, braces, exceeded, _⟩ := s
  subst h
  exact ⟨rfl, by simp_all [advance]⟩

theorem Cut.advance (h : s.Cut) (hu : s.upcoming ≠ []) : s.advance.Cut := by
  obtain ⟨c, hc⟩ := h
  obtain ⟨t, us, hus⟩ := List.exists_cons_of_ne_nil hu
  refine ⟨c, ?_⟩
  rw [lexemes_eq, hus, List.map_cons, List.getLast?_cons_cons] at hc
  rw [lexemes, (advance_eq hus).1]
  exact hc

theorem advance_onto (h : s.upcoming ≠ []) : (s.onto ts).advance = s.advance.onto ts := by
  obtain ⟨current, upcoming, left, hleft, problems, depth, braces, exceeded, _⟩ := s
  obtain ⟨t, us, rfl⟩ := List.exists_cons_of_ne_nil h
  exact eq_of_tokens rfl rfl rfl rfl rfl

def reading (s : State) (t : Token) (ts : List Token) : State :=
  { State.ofTokens (t :: ts) with
    problems := s.problems
    depth := s.depth
    braces := s.braces
    exceeded := s.exceeded
    problems_ne_nil := s.problems_ne_nil }

theorem advance_onto_cons (h : s.upcoming = []) (t : Token) :
    (s.onto (t :: ts)).advance = s.reading t ts := by
  obtain ⟨current, upcoming, left, hleft, problems, depth, braces, exceeded, _⟩ := s
  subst h
  exact eq_of_tokens rfl rfl rfl rfl rfl

theorem advance_reading (s : State) (t t' : Token) (ts : List Token) :
    (s.reading t (t' :: ts)).advance = s.reading t' ts := rfl

theorem tokens_recover (h : s.tokens = s'.tokens) : s.recover.tokens = s'.recover.tokens := by
  obtain ⟨current, upcoming, left, hleft, _, _, _, _, _⟩ := s
  obtain ⟨current', upcoming', left', hleft', _, _, _, _, _⟩ := s'
  obtain ⟨rfl, rfl⟩ := List.cons.inj h
  unfold recover
  dsimp only
  split
  · rfl
  · split
    · cases upcoming <;> rfl
    · rfl

theorem recover_end (h : s.current.lexeme = .endOfInput) : s.recover = s := by
  unfold recover
  rw [h]

theorem recover_text {c : String} (h : s.current.lexeme = .text c) :
    s.recover = s.advance.skipTo resumes := by
  unfold recover
  rw [h]
  rfl

theorem left_onto (s : State) (ts : List Token) : (s.onto ts).left = s.left + ts.length := rfl

end State

/-- Tokens from an output mark on, and others where no expression follows the mark. -/
structure Break where
  whole : List Token
  mark : Token
  next : Token
  later : List Token
  whole_mark : ∃ t ts escape, whole = t :: ts ∧ t.lexeme = outputMark escape
  mark_eq : ∃ escape, mark.lexeme = outputMark escape
  next_eq : next.lexeme = .endOfInput ∨ ∃ c, next.lexeme = .text c

namespace Break

def broken (B : Break) : List Token := B.mark :: B.next :: B.later

def resumed (B : Break) : List Token := (State.ofTokens (B.next :: B.later)).recover.tokens

def problem (B : Break) : Problem := ⟨B.next.position, .expected .expression B.next.lexeme⟩

theorem resumed_suffix (B : Break) : B.resumed <:+ B.next :: B.later :=
  (State.Leads.recover (.ofTokens (B.next :: B.later))).tokens

end Break

theorem problems_failAt {position : Position} {fault : Fault} :
    ((failAt position fault : Reader α).run s).2.problems ≠ [] :=
  fun hp => s.problems_record_ne_nil position fault (State.problems_eq_nil (.recover _) hp)

/-- What becomes of a reader that comes to the end of the tokens at hand. With a whole output next,
something is wrong; or it stays within the tokens at hand; or with a broken output next, it goes on
as with what comes after that, but with one more problem on record. -/
inductive Crosses (B : Break) (r : Reader α) (s : State) : Prop
  | fails (h : (r.run (s.onto B.whole)).2.problems ≠ [])
  | stays (a? : Option α) (s' : State) (h : ∀ ts, r.run (s.onto ts) = (a?, s'.onto ts))
      (hs' : s'.Cut)
  | joins (a? : Option α) (s' : State) (h : r.run (s.onto B.resumed) = (a?, s'))
      (h' : r.run (s.onto B.broken) = (a?, s'.after [B.problem])) (hs' : s'.tokens <:+ B.resumed)

section Passes

variable {pass : α → Reader (α ⊕ β)} {a : α}

def thenPasses (pass : α → Reader (α ⊕ β)) (s : State) :
    Option (α ⊕ β) → State → Option β × State
  | some (.inl a), s' => if s'.left < s.left then passes pass a s' else (none, s')
  | some (.inr b), s' => (some b, s')
  | none, s' => (none, s')

theorem passes_of_run {next? : Option (α ⊕ β)} (hrun : (pass a).run s = (next?, s')) :
    passes pass a s = thenPasses pass s next? s' := by
  rw [passes, hrun]
  rcases next? with _ | a' | b <;> rfl

theorem leads_passes_of_pass (pass : α → Reader (α ⊕ β)) (a : α) (s : State) :
    ((pass a).run s).2.Leads (passes pass a s).2 := by
  rcases hrun : (pass a).run s with ⟨next?, s'⟩
  rw [passes_of_run hrun]
  rcases next? with _ | a' | b
  · exact .refl s'
  · simp only [thenPasses]
    split
    · exact leads_passes pass a' s'
    · exact .refl s'
  · exact .refl s'

theorem run_repeatUntil_last {a' : α} {t : Token} {ts : List Token} (hu : s.upcoming = [])
    (hpass : (pass a).run (s.onto (t :: ts)) = (some (.inl a'), (s.onto (t :: ts)).advance)) :
    (repeatUntil pass a).run (s.onto (t :: ts)) = passes pass a' (s.reading t ts) := by
  refine (passes_of_run hpass).trans ?_
  rw [State.advance_onto_cons hu]
  exact if_pos (Nat.lt_of_lt_of_le (Nat.lt_succ_self _) (Nat.le_add_left ..))

end Passes

namespace Crosses

variable {B : Break} {r : Reader α}

theorem congr {r' : Reader α} (h : Crosses B r' s')
    (hrun : ∀ ts, r.run (s.onto ts) = r'.run (s'.onto ts)) : Crosses B r s := by
  cases h with
  | fails h => exact .fails (by rwa [hrun])
  | stays a? s₁ h hs' => exact .stays a? s₁ (fun ts => (hrun ts).trans (h ts)) hs'
  | joins a? s₁ h h' hs' => exact .joins a? s₁ ((hrun _).trans h) ((hrun _).trans h') hs'

theorem image {r' : Reader β} (h : Crosses B r s') (f : Option α → Option β) (g : State → State)
    (hrun : ∀ ts, r'.run (s.onto ts) = (f (r.run (s'.onto ts)).1, g (r.run (s'.onto ts)).2))
    (hproblems : ∀ s, (g s).problems = s.problems) (htokens : ∀ s, (g s).tokens = s.tokens)
    (honto : ∀ s ts, g (s.onto ts) = (g s).onto ts)
    (hafter : ∀ s ps, g (s.after ps) = (g s).after ps) : Crosses B r' s := by
  cases h with
  | fails h => exact .fails (by rwa [hrun, hproblems])
  | stays a? s₁ h hs₁ =>
    refine .stays (f a?) (g s₁) (fun ts => by rw [hrun, h, honto]) ?_
    obtain ⟨c, hc⟩ := hs₁
    exact ⟨c, by rw [State.lexemes, htokens]; exact hc⟩
  | joins a? s₁ h h' hs₁ =>
    exact .joins (f a?) (g s₁) (by rw [hrun, h]) (by rw [hrun, h', hafter]) (by rwa [htokens])

theorem of_fails (h : ∀ s, (r.run s).2.problems ≠ []) : Crosses B r s := .fails (h _)

theorem bind {k : α → Reader β} (h : Crosses B r s)
    (hheedless : ∀ a s', r.run (s.onto B.resumed) = (some a, s') → Heedless (k a) s')
    (hk : ∀ a s', s'.Cut → r.run (s.onto B.resumed) = (some a, s'.onto B.resumed) →
      Crosses B (k a) s') : Crosses B (r >>= k) s := by
  cases h with
  | fails h =>
    refine .fails fun hp => h ?_
    rcases hr : r.run (s.onto B.whole) with ⟨_ | a, s'⟩
    · rwa [run_bind_none hr] at hp
    · rw [run_bind_some hr] at hp
      exact State.problems_eq_nil ((k a).leads s') hp
  | stays a? s' h hs' =>
    cases a? with
    | none => exact .stays none s' (fun ts => run_bind_none (h ts)) hs'
    | some a => exact (hk a s' hs' (h _)).congr fun ts => run_bind_some (h ts)
  | joins a? s' h h' hs' =>
    cases a? with
    | none => exact .joins none s' (run_bind_none h) (run_bind_none h') hs'
    | some a =>
      refine .joins ((k a).run s').1 ((k a).run s').2 (run_bind_some h) ?_ ?_
      · rw [run_bind_some h']
        exact hheedless a s' h [B.problem]
      · exact ((k a).leads s').tokens.trans hs'

theorem advance (hs : s.Cut) (hl : ∀ c, s.current.lexeme ≠ .text c) : Crosses B advance s :=
  have hu := hs.upcoming_ne_nil hl
  have hrun (ts : List Token) : Grammar.advance.run (s.onto ts) = (some (), s.advance.onto ts) :=
    congrArg (some (), ·) (State.advance_onto hu)
  .stays (some ()) s.advance hrun (hs.advance hu)

theorem nextIsColon {key : String} (hs : s.Cut) (hkey : key? s.current.lexeme = some key) :
    Crosses B mapEntry.nextIsColon s := by
  have hl (c : String) : s.current.lexeme ≠ .text c := by
    rintro h
    rw [h] at hkey
    cases hkey
  obtain ⟨t, us, hu⟩ := List.exists_cons_of_ne_nil (hs.upcoming_ne_nil hl)
  refine .stays (some (t.lexeme == .symbol .colon)) s (fun ts => ?_) hs
  change (some ((s.upcoming ++ ts).head?.any _), s.onto ts) = _
  rw [hu]
  rfl

theorem nested (hs : s.Cut) (h : ∀ s : State, s.Cut → Crosses B r s) : Crosses B (nested r) s := by
  by_cases hd : maxNesting ≤ s.depth
  · have hd' : maxNesting ≤ (s.onto B.whole).depth := hd
    refine .fails ?_
    rw [run_nested_limit hd']
    exact State.problems_record_ne_nil _ _ _
  · refine image (h { s with depth := s.depth + 1 } hs) id
      (fun s => { s with depth := s.depth - 1 }) (fun ts => run_nested_below hd) ?_ ?_ ?_ ?_
    all_goals intros; rfl

theorem inBraces (hs : s.Cut) (h : ∀ s : State, s.Cut → Crosses B r s) :
    Crosses B (inBraces r) s := by
  refine image (h { s with braces := s.braces + 1 } hs) id
    (fun s => { s with braces := s.braces - 1 }) (fun ts => rfl) ?_ ?_ ?_ ?_
  all_goals intros; rfl

theorem optional (h : Crosses B r s) : Crosses B (optional r) s := by
  refine image h some id (fun ts => rfl) ?_ ?_ ?_ ?_
  all_goals intros; rfl

theorem loop {pass : α → Reader (α ⊕ β)} (hheedless : ∀ a s, Heedless (pass a) s)
    (h : ∀ a s, s.Cut → Crosses B (pass a) s ∨ Crosses B (repeatUntil pass a) s) (a : α)
    (hs : s.Cut) : Crosses B (repeatUntil pass a) s := by
  -- a pass that stays leaves fewer tokens at hand, and after one that joins no more is compared
  induction hn : s.left using Nat.strongRecOn generalizing a s with
  | ind n ih =>
    rcases h a s hs with hpass | hloop
    · cases hpass with
      | fails h =>
        exact .fails fun hp => h (State.problems_eq_nil (leads_passes_of_pass pass a _) hp)
      | stays next? s' hrun hs' =>
        have hpasses (ts : List Token) : (repeatUntil pass a).run (s.onto ts) = _ :=
          passes_of_run (hrun ts)
        match next? with
        | none => exact .stays none s' hpasses hs'
        | some (.inr b) => exact .stays (some b) s' hpasses hs'
        | some (.inl a') =>
          have hleft (ts : List Token) :
              (s'.onto ts).left < (s.onto ts).left ↔ s'.left < s.left := by
            simp only [State.left_onto]
            omega
          by_cases hlt : s'.left < s.left
          · refine (ih s'.left (hn ▸ hlt) a' hs' rfl).congr fun ts => (hpasses ts).trans ?_
            exact if_pos ((hleft ts).2 hlt)
          · refine .stays none s' (fun ts => (hpasses ts).trans ?_) hs'
            exact if_neg fun h => hlt ((hleft ts).1 h)
      | joins next? s' hrun hrun' hs' =>
        have hpasses : (repeatUntil pass a).run (s.onto B.resumed) = _ := passes_of_run hrun
        have hpasses' : (repeatUntil pass a).run (s.onto B.broken) = _ := passes_of_run hrun'
        match next? with
        | none => exact .joins none s' hpasses hpasses' hs'
        | some (.inr b) => exact .joins (some b) s' hpasses hpasses' hs'
        | some (.inl a') =>
          have hresumed := hs'.length_le
          have hsuffix := B.resumed_suffix.length_le
          simp only [State.tokens, List.length_cons, ← s'.left_eq] at hresumed hsuffix
          have hlt : s'.left < (s.onto B.resumed).left := by
            rw [State.left_onto]
            omega
          have hlt' : s'.left < (s.onto B.broken).left := by
            simp only [State.left_onto, Break.broken, List.length_cons]
            omega
          have hrest : passes pass a' (s'.after [B.problem]) = _ :=
            Heedless.repeatUntil hheedless [B.problem]
          have htokens := (leads_passes pass a' s').tokens.trans hs'
          refine .joins _ _ (hpasses.trans (if_pos hlt)) ?_ htokens
          exact (hpasses'.trans (if_pos hlt')).trans hrest
    · exact hloop

end Crosses

def Crossing (B : Break) ⦃α : Type⦄ (r : Reader α) (s : State) : Prop :=
  Heedless r s ∧ ∀ s₀ : State, s₀.Cut → s = s₀.onto B.resumed → Crosses B r s₀

namespace Crossing

variable {B : Break}

theorem failAt (position : Position) (fault : Fault) (s : State) :
    Crossing B (failAt position fault : Reader α) s :=
  ⟨Heedless.failAt position fault, fun _ _ _ => .of_fails fun _ => problems_failAt⟩

theorem respected : Respected (Crossing B) where
  pure a s := ⟨fun _ => rfl, fun s₀ hs _ => .stays (some a) s₀ (fun _ => rfl) hs⟩
  bind h hk := by
    refine ⟨h.1.bind fun a s' hr => (hk a s' hr).1, ?_⟩
    rintro s₀ hs rfl
    refine (h.2 s₀ hs rfl).bind (fun a s' hr => (hk a s' hr).1) fun a s' hs' hr => ?_
    exact (hk a _ hr).2 s' hs' rfl
  view f s := ⟨fun _ => rfl, fun s₀ hs _ => .stays (some (f s₀.current)) s₀ (fun _ => rfl) hs⟩
  nextIsColon hkey := ⟨fun _ => rfl, by rintro s₀ hs rfl; exact .nextIsColon hs hkey⟩
  advance hl := ⟨Heedless.respected.advance hl, by rintro s₀ hs rfl; exact .advance hs hl⟩
  failHere s _ := failAt s.current.position _ s
  giveUp s := by
    refine ⟨Heedless.respected.giveUp s, fun s₀ _ _ => .of_fails fun s => ?_⟩
    exact s.problems_record_ne_nil _ _
  nested s h := by
    refine ⟨Heedless.respected.nested s fun s => (h s).1, fun s₀ hs _ => .nested hs fun s hs => ?_⟩
    exact (h _).2 s hs rfl
  repeatUntil a s h := by
    refine ⟨Heedless.respected.repeatUntil a s fun a s => (h a s).1, fun s₀ hs _ => ?_⟩
    exact .loop (fun a s => (h a s).1) (fun a s hs => .inl ((h a _).2 s hs rfl)) a hs
  braced s := ⟨fun _ => rfl, fun s₀ hs _ => .stays (some (0 < s₀.braces)) s₀ (fun _ => rfl) hs⟩
  note s hne := by
    refine ⟨Heedless.respected.note s hne, fun s₀ _ _ => .of_fails fun s => ?_⟩
    exact s.problems_record_ne_nil _ _
  skipOver s hne := by
    refine ⟨Heedless.respected.skipOver s hne, fun s₀ _ _ => .of_fails fun s => ?_⟩
    exact problems_failAt (α := Unit)
  found a? s := ⟨fun _ => rfl, fun s₀ hs _ => .stays a? s₀ (fun _ => rfl) hs⟩
  optional h := by
    refine ⟨Heedless.respected.optional h.1, ?_⟩
    rintro s₀ hs rfl
    exact .optional (h.2 s₀ hs rfl)
  inBraces s h := by
    refine ⟨Heedless.respected.inBraces s fun s => (h s).1, fun s₀ hs _ => ?_⟩
    exact .inBraces hs fun s hs => (h _).2 s hs rfl

theorem statementPass {deeper : Deeper} (hstatement : ∀ s, Crossing B (statement deeper) s)
    (read : List SourceStmt) (s : State) (hl : ∀ c, s.current.lexeme ≠ .text c) :
    Crossing B (statementPass deeper read) s := by
  have h := respected (B := B)
  refine h.current (h.bind (h.braced s) fun braced s' hr => ?_)
  cases hr
  split
  · exact h.pure _ s
  · split
    · rename_i c hc
      exact absurd hc (hl c)
    · refine h.bind (h.optional (hstatement s)) fun found? s' _ => ?_
      split
      · exact h.pure _ s'
      · exact h.pure _ s'

end Crossing

section Texts

variable {deeper : Deeper} {c : String} {read : List SourceStmt}

theorem run_statementPass_text (hl : s.current.lexeme = .text c) :
    (statementPass deeper read).run s =
      (some (.inl (if c.isEmpty then read else .text c :: read)), s.advance) := by
  rw [statementPass, run_current, hl]
  rfl

theorem run_statementPass_statement
    (hends : endsStatements (decide (0 < s.braces)) s.current.lexeme = false)
    (htext : ∀ c, s.current.lexeme ≠ .text c) :
    (statementPass deeper read).run s =
      (some (.inl (((statement deeper).run s).1.toList ++ read)),
        ((statement deeper).run s).2) := by
  change (if endsStatements (decide (0 < s.braces)) s.current.lexeme then _ else _ :
    Reader (List SourceStmt ⊕ List SourceStmt)).run s = _
  rw [if_neg (Bool.eq_false_iff.1 hends)]
  split
  · rename_i c hc
    exact absurd hc (htext c)
  · rw [run_bind_some rfl]
    rcases (statement deeper).run s with ⟨_ | st, s'⟩ <;> rfl

theorem run_statementPass_mark {escape : Bool} (hl : s.current.lexeme = outputMark escape) :
    (statementPass deeper read).run s =
      (some (.inl (((deeper.assignment.run s.advance).1.map (.output escape ·)).toList ++ read)),
        (deeper.assignment.run s.advance).2) := by
  have hstatement : (statement deeper).run s = (outputStatement deeper escape).run s := by
    rw [statement, run_current, hl]
    cases escape <;> rfl
  have houtput : (outputStatement deeper escape).run s =
      ((deeper.assignment.run s.advance).1.map (.output escape ·),
        (deeper.assignment.run s.advance).2) := by
    have hadvance : (outputStatement deeper escape).run s =
        (deeper.assignment >>= fun e => pure (.output escape e)).run s.advance := rfl
    rw [hadvance]
    rcases hrun : deeper.assignment.run s.advance with ⟨_ | e, s'⟩
    · exact run_bind_none hrun
    · exact run_bind_some hrun
  rw [run_statementPass_statement (by rw [hl]; cases escape <;> rfl)
    (by rw [hl]; cases escape <;> simp [outputMark]), hstatement, houtput]

theorem run_primary_text (hl : s.current.lexeme = .endOfInput ∨ ∃ c, s.current.lexeme = .text c) :
    (primary deeper).run s =
      (none, (s.record s.current.position (.expected .expression s.current.lexeme)).recover) := by
  have hmisplaced :
      Fault.misplaced .expression s.current = .expected .expression s.current.lexeme := by
    unfold Fault.misplaced
    rcases hl with hl | ⟨c, hl⟩ <;> rw [hl]
  rw [← hmisplaced, primary, run_current]
  rcases hl with hl | ⟨c, hl⟩ <;> rw [hl] <;> rfl

theorem run_assignment_text
    (hl : s.current.lexeme = .endOfInput ∨ ∃ c, s.current.lexeme = .text c) :
    (assignment deeper).run s =
      (none, (s.record s.current.position (.expected .expression s.current.lexeme)).recover) := by
  have hprimary : (primary deeper).run s = _ := run_primary_text hl
  have hpostfixed : (postfixed deeper).run s = _ := run_bind_none (run_bind_none hprimary)
  have hunary : (unary deeper).run s = (postfixed deeper).run s := by
    rw [unary, run_current]
    rcases hl with hl | ⟨c, hl⟩ <;> rw [hl] <;> rfl
  have hadditive : (additive deeper).run s = _ :=
    run_bind_none (run_bind_none (hunary.trans hpostfixed))
  have hlogical : (logical deeper).run s = _ :=
    run_bind_none (run_bind_none (run_bind_none hadditive))
  exact run_bind_none (r := conditional deeper) (run_bind_none hlogical)

theorem run_armPass_text {read : Arms} (hl : s.current.lexeme = .text c) :
    (armPass deeper read).run s = if (read.arms.isEmpty && Text.isBlankText c) = true then
      (some (.inl read), s.advance) else (unexpected .armOrEnd).run s := by
  rw [armPass, run_current, hl]
  dsimp only
  split <;> rfl

theorem run_armPass_mark {read : Arms} {escape : Bool} (hl : s.current.lexeme = outputMark escape) :
    (armPass deeper read).run s = (unexpected .armOrEnd).run s := by
  rw [armPass, run_current, hl]
  cases escape <;> rfl

end Texts

namespace Crosses

variable {B : Break} {n : Nat} {read : List SourceStmt}

theorem assignment_ok (h : ((levels n).assignment.run s).2.problems = []) :
    s.problems = [] ∧ s.depth < maxNesting ∧ ∃ m, n = m + 1 := by
  refine ⟨State.problems_eq_nil ((levels n).assignment.leads s) h, ?_, ?_⟩
  · refine Nat.lt_of_not_le fun hd => ?_
    cases n with
    | zero => exact s.problems_record_ne_nil _ _ h
    | succ m =>
      have hrun : (levels (m + 1)).assignment.run s = (none, s.giveUp) :=
        run_nested_limit (r := assignment (levels m)) hd
      rw [hrun] at h
      exact s.problems_record_ne_nil _ _ h
  · cases n with
    | zero => exact absurd h (s.problems_record_ne_nil _ _)
    | succ m => exact ⟨m, rfl⟩

theorem lastLayout {read : Arms} {c : String} (hl : s.current.lexeme = .text c)
    (hlayout : (read.arms.isEmpty && Text.isBlankText c) = true) (hu : s.upcoming = []) :
    Crosses B (repeatUntil (armPass (levels n)) read) s := by
  obtain ⟨t, ts, escape, hwhole, ht⟩ := B.whole_mark
  have hpass : (armPass (levels n) read).run (s.onto (t :: ts)) =
      (some (.inl read), (s.onto (t :: ts)).advance) :=
    (run_armPass_text (s := s.onto (t :: ts)) hl).trans (if_pos hlayout)
  refine .fails fun hp => ?_
  rw [hwhole, run_repeatUntil_last hu hpass] at hp
  have hfirst := State.problems_eq_nil (leads_passes_of_pass _ _ _) hp
  rw [run_armPass_mark ht] at hfirst
  exact problems_failAt hfirst

theorem run_broken (B : Break) {m : Nat} {u : Token} {us : List Token} (hproblems : s.problems = [])
    (hdepth : s.depth < maxNesting) (hresumed : B.resumed = u :: us) :
    (levels (m + 1)).assignment.run (s.reading B.next B.later) =
      (none, (s.reading u us).after [B.problem]) := by
  -- the state in which the expression is looked for, and the one after the report
  let v : State := { s.reading B.next B.later with depth := s.depth + 1 }
  let w : State := (v.record B.next.position (.expected .expression B.next.lexeme)).recover
  have hexceeded : ¬ s.exceeded = true := fun h => s.problems_ne_nil h hproblems
  have hleads : v.Leads w := (State.Leads.record v ..).trans (.recover _)
  have hassignment : (assignment (levels m)).run v = (none, w) := run_assignment_text B.next_eq
  have hrun : (levels (m + 1)).assignment.run (s.reading B.next B.later) =
      (((assignment (levels m)).run v).1, { ((assignment (levels m)).run v).2 with
        depth := ((assignment (levels m)).run v).2.depth - 1 }) :=
    run_nested_below (r := assignment (levels m)) (Nat.not_le.2 hdepth)
  rw [hrun, hassignment]
  have hrecord : v.record B.next.position (.expected .expression B.next.lexeme) = _ :=
    if_neg hexceeded
  have htokens := congrArg State.tokens hrecord
  have hadded := congrArg State.problems hrecord
  have hlimit := congrArg State.exceeded hrecord
  refine congrArg (none, ·) (State.eq_of_tokens ?_ ?_ ?_ hleads.braces ?_)
  · have hrecover : w.tokens = B.resumed := State.tokens_recover htokens
    exact hrecover.trans hresumed
  · refine (State.problems_recover _).trans (hadded.trans ?_)
    change s.problems ++ [B.problem] = [B.problem] ++ s.problems
    rw [hproblems]
    rfl
  · exact congrArg (· - 1) hleads.depth
  · exact (State.exceeded_recover _).trans hlimit

theorem passes_broken (B : Break) (read : List SourceStmt) {m : Nat} (hproblems : s.problems = [])
    (hdepth : s.depth < maxNesting) : ∃ u us, B.resumed = u :: us ∧
      passes (statementPass (levels (m + 1))) read (s.reading B.mark (B.next :: B.later)) =
        passes (statementPass (levels (m + 1))) read ((s.reading u us).after [B.problem]) := by
  obtain ⟨u, us, hresumed⟩ : ∃ u us, B.resumed = u :: us := ⟨_, _, rfl⟩
  refine ⟨u, us, hresumed, ?_⟩
  obtain ⟨escape, hmark⟩ := B.mark_eq
  have hpass : (statementPass (levels (m + 1)) read).run
      (s.reading B.mark (B.next :: B.later)) = _ := run_statementPass_mark hmark
  rw [State.advance_reading, run_broken B hproblems hdepth hresumed] at hpass
  have hlength := B.resumed_suffix.length_le
  rw [hresumed] at hlength
  exact (passes_of_run hpass).trans (if_pos hlength)

theorem lastText {c : String} (hheedless : ∀ read s, Heedless (statementPass (levels n) read) s)
    (hl : s.current.lexeme = .text c) (hu : s.upcoming = []) :
    Crosses B (repeatUntil (statementPass (levels n)) read) s := by
  obtain ⟨read', hpass⟩ : ∃ read', ∀ ts, (statementPass (levels n) read).run (s.onto ts) =
      (some (.inl read'), (s.onto ts).advance) := ⟨_, fun ts => run_statementPass_text hl⟩
  have hnext (t : Token) (ts : List Token) := run_repeatUntil_last hu (hpass (t :: ts))
  obtain ⟨t, ts, escape, hwhole, ht⟩ := B.whole_mark
  by_cases hok : ((levels n).assignment.run (s.reading t ts).advance).2.problems = []
  · obtain ⟨hproblems, hdepth, m, rfl⟩ := assignment_ok hok
    rw [State.problems_advance] at hproblems
    rw [(State.Leads.advance _).depth] at hdepth
    obtain ⟨u, us, hresumed, hbroken⟩ := passes_broken B read' hproblems hdepth
    have hrest : passes (statementPass (levels (m + 1))) read'
        ((s.reading u us).after [B.problem]) = _ := Heedless.repeatUntil hheedless [B.problem]
    refine .joins _ _ ?_ ((hnext _ _).trans (hbroken.trans hrest)) ?_
    · rw [hresumed, hnext]
      rfl
    · rw [hresumed]
      exact (leads_passes _ read' (s.reading u us)).tokens
  · refine .fails fun hp => hok ?_
    rw [hwhole, hnext] at hp
    have hfirst := State.problems_eq_nil (leads_passes_of_pass _ _ _) hp
    rwa [run_statementPass_mark ht] at hfirst

end Crosses

namespace Crossing

variable {B : Break} {n : Nat}

theorem statementList (hstatement : ∀ s, Crossing B (statement (levels n)) s) (s : State) :
    Crossing B (statementList (levels n)) s := by
  have hheedless (read : List SourceStmt) (s : State) :
      Heedless (Grammar.statementPass (levels n) read) s :=
    Heedless.respected.statementPass Heedless.advance (fun s => (hstatement s).1) read s
  refine ⟨Heedless.repeatUntil hheedless, fun s₀ hs _ => ?_⟩
  refine .loop hheedless (fun read s hs => ?_) [] hs
  by_cases hl : ∃ c, s.current.lexeme = .text c
  · obtain ⟨c, hl⟩ := hl
    by_cases hu : s.upcoming = []
    · exact .inr (.lastText hheedless hl hu)
    · have hrun (ts : List Token) :
          (Grammar.statementPass (levels n) read).run (s.onto ts) =
            (some (.inl (if c.isEmpty then read else .text c :: read)), s.advance.onto ts) := by
        rw [← State.advance_onto hu]
        exact run_statementPass_text hl
      exact .inl (.stays _ s.advance hrun (hs.advance hu))
  · have hpass := statementPass hstatement read (s.onto B.resumed) fun c hc => hl ⟨c, hc⟩
    exact .inl (hpass.2 s hs rfl)

theorem switchArms
    (hwhen : ∀ read s, s.current.lexeme = .keyword .when_ → Crossing B (whenArm (levels n) read) s)
    (helse : ∀ read s, s.current.lexeme = .keyword .else_ → Crossing B (elseArm (levels n) read) s)
    (s : State) : Crossing B (switchArms (levels n)) s := by
  have h := respected (B := B)
  have hheedless (read : Arms) (s : State) : Heedless (armPass (levels n) read) s :=
    Heedless.respected.armPass Heedless.advance (fun read s hl => (hwhen read s hl).1)
      (fun read s hl => (helse read s hl).1) read s
  refine ⟨Heedless.repeatUntil hheedless, fun s₀ hs _ => .loop hheedless (fun read s hs => ?_) _ hs⟩
  by_cases hl : ∃ c, s.current.lexeme = .text c
  · obtain ⟨c, hl⟩ := hl
    by_cases hlayout : (read.arms.isEmpty && Text.isBlankText c) = true
    · by_cases hu : s.upcoming = []
      · exact .inr (.lastLayout hl hlayout hu)
      · have hrun (ts : List Token) :
            (armPass (levels n) read).run (s.onto ts) = (some (.inl read), s.advance.onto ts) := by
          rw [← State.advance_onto hu]
          exact (run_armPass_text (s := s.onto ts) hl).trans (if_pos hlayout)
        exact .inl (.stays _ s.advance hrun (hs.advance hu))
    · refine .inl (.fails ?_)
      have hrun : (armPass (levels n) read).run (s.onto B.whole) = _ :=
        (run_armPass_text (s := s.onto B.whole) hl).trans (if_neg hlayout)
      rw [hrun]
      exact problems_failAt
  · have hpass : Crossing B (armPass (levels n) read) (s.onto B.resumed) := by
      refine h.current ?_
      split
      case h_1 hc => exact absurd ⟨_, hc⟩ hl
      case h_2 hc => exact h.bind (hwhen read _ hc) fun _ s' _ => h.pure _ s'
      case h_3 hc => exact h.bind (helse read _ hc) fun _ s' _ => h.pure _ s'
      case h_4 hc => exact h.step hc nofun (h.pure _ _)
      case h_5 => exact h.unexpected
    exact .inl (hpass.2 s hs rfl)

theorem closed : Closed (Crossing B) where
  toRespected := respected
  assignment s := respected.assignment s fun _ s' _ => failAt s.current.position _ s'
  switchArms s hwhen helse := switchArms hwhen helse s
  statementList s hstatement := statementList hstatement s

end Crossing

section Templates

variable {ts us : List Token}

theorem problemsOf_of_read {tree : List SourceStmt} (h : read ts = .ok tree) :
    problemsOf ts = [] ∧ (template.run (.ofTokens ts)).1 = some tree := by
  unfold read at h
  unfold problemsOf
  rcases hrun : template.run (.ofTokens ts) with ⟨_ | tree', s⟩ <;> rw [hrun] at h
  · cases h
  · dsimp only at h
    split at h
    · rename_i hp
      cases h
      exact ⟨List.isEmpty_iff.1 hp, rfl⟩
    · cases h

theorem problemsOf_eq_nil (hends : (State.ofTokens ts).Ends) :
    problemsOf ts = [] ↔ ∃ tree, read ts = .ok tree := by
  constructor
  · intro hp
    obtain ⟨tree, _, htree, -⟩ := Reads.template hends hp
    refine ⟨tree, ?_⟩
    unfold read
    rcases hrun : template.run (.ofTokens ts) with ⟨_ | tree', s⟩ <;> rw [hrun] at htree
    · cases htree
    · cases htree
      rw [problemsOf, hrun] at hp
      exact if_pos (List.isEmpty_iff.2 hp)
  · rintro ⟨tree, h⟩
    exact (problemsOf_of_read h).1

theorem ofTokens_append (hne : ts ≠ []) :
    State.ofTokens (ts ++ us) = (State.ofTokens ts).onto us := by
  obtain ⟨t, ts, rfl⟩ := List.exists_cons_of_ne_nil hne
  exact State.eq_of_tokens rfl rfl rfl rfl rfl

theorem tokens_ofTokens (hne : ts ≠ []) : (State.ofTokens ts).tokens = ts := by
  obtain ⟨t, ts, rfl⟩ := List.exists_cons_of_ne_nil hne
  rfl

theorem ends_ofTokens_append (hus : us ≠ []) : (State.ofTokens (ts ++ us)).Ends ↔
    (us.map Token.lexeme).getLast? = some .endOfInput := by
  obtain ⟨u, us, rfl⟩ := List.exists_cons_of_ne_nil hus
  rw [State.Ends, State.lexemes, tokens_ofTokens (List.append_ne_nil_of_right_ne_nil ts hus),
    List.map_append, List.getLast?_append, List.map_cons, List.getLast?_cons]
  rfl

/-- Where reading goes on if the first token is not what is expected: it is passed over, unless it
is the last one, and so are those after it up to a text, an `end` or the end of the input. -/
def resumption : List Token → List Token
  | [] => []
  | [t] => [t]
  | _ :: ts => ts.dropWhile fun t => !State.resumes t.lexeme

theorem firstIn_eq {stop : Lexeme → Bool} {t : Token} {ts : List Token}
    (h : ∃ t' ∈ t :: ts, stop t'.lexeme = true) :
    (State.firstIn stop t ts).1 :: (State.firstIn stop t ts).2 =
      (t :: ts).dropWhile fun t => !stop t.lexeme := by
  induction ts generalizing t with
  | nil =>
    obtain ⟨t', hmem, ht⟩ := h
    obtain rfl := List.mem_singleton.1 hmem
    simp [State.firstIn, ht]
  | cons t₁ ts ih =>
    cases ht : stop t.lexeme with
    | true => simp [State.firstIn, ht]
    | false =>
      have hlater : ∃ t' ∈ t₁ :: ts, stop t'.lexeme = true := by
        obtain ⟨t', hmem, ht'⟩ := h
        rcases List.mem_cons.1 hmem with rfl | hmem
        · rw [ht] at ht'
          cases ht'
        · exact ⟨t', hmem, ht'⟩
      simpa [State.firstIn, ht] using ih hlater

theorem tokens_skipTo {stop : Lexeme → Bool} (h : ∃ t ∈ s.tokens, stop t.lexeme = true) :
    (s.skipTo stop).tokens = s.tokens.dropWhile fun t => !stop t.lexeme :=
  firstIn_eq h

theorem Break.resumed_eq (B : Break) (h : B.later = [] ∨ (∃ c, B.next.lexeme = .text c) ∧
    ∃ t ∈ B.later, t.lexeme = .endOfInput) : B.resumed = resumption (B.next :: B.later) := by
  rcases h with hlater | ⟨⟨c, hc⟩, t, hmem, ht⟩
  · rw [resumed, hlater]
    rcases B.next_eq with hend | ⟨c, hc⟩
    · rw [State.recover_end hend]
      rfl
    · rw [State.recover_text hc]
      rfl
  · obtain ⟨t₁, ts, hlater⟩ := List.exists_cons_of_ne_nil (List.ne_nil_of_mem hmem)
    have hadvance : (State.ofTokens (B.next :: B.later)).advance.tokens = B.later := by
      rw [hlater]
      rfl
    have hstop : ∃ t ∈ B.later, State.resumes t.lexeme = true := ⟨t, hmem, by rw [ht]; rfl⟩
    rw [resumed, State.recover_text hc, tokens_skipTo (hadvance ▸ hstop), hadvance, hlater]
    rfl

theorem Break.ends_resumed (B : Break) {front : List Token}
    (h : (State.ofTokens (front ++ B.broken)).Ends) :
    (State.ofTokens (front ++ B.resumed)).Ends := by
  obtain ⟨gap, hgap⟩ := B.resumed_suffix
  have hne : B.resumed ≠ [] := List.cons_ne_nil _ _
  have hbroken : front ++ B.broken = (front ++ B.mark :: gap) ++ B.resumed := by
    rw [Break.broken, ← hgap]
    simp
  rw [hbroken, ends_ofTokens_append hne] at h
  rwa [ends_ofTokens_append hne]

theorem problemsOf_broken (B : Break) {front : List Token} {tree : List SourceStmt} {c : String}
    (hlast : (front.map Token.lexeme).getLast? = some (.text c))
    (hfront : .endOfInput ∉ front.map Token.lexeme) (h : read (front ++ B.whole) = .ok tree) :
    problemsOf (front ++ B.broken) = B.problem :: problemsOf (front ++ B.resumed) := by
  have hne : front ≠ [] := by
    rintro rfl
    cases hlast
  have hcut : (State.ofTokens front).Cut := by
    refine ⟨c, ?_⟩
    rw [State.lexemes, tokens_ofTokens hne]
    exact hlast
  have hcrossing := (Crossing.closed (B := B)).template ((State.ofTokens front).onto B.resumed)
  obtain ⟨hproblems, hfound⟩ := problemsOf_of_read h
  unfold problemsOf at hproblems ⊢
  rw [ofTokens_append hne] at hproblems hfound ⊢
  rw [ofTokens_append hne]
  cases hcrossing.2 _ hcut rfl with
  | fails hfails => exact absurd hproblems hfails
  | stays a? s' hstays hs' =>
    -- a template is read to its end, which is not among the tokens in front
    rw [hstays] at hfound
    obtain rfl : a? = some tree := hfound
    have hrun := hstays []
    have hend : (s'.onto []).current.lexeme = .endOfInput := template_ends hrun
    have hleads := template.leads ((State.ofTokens front).onto [])
    rw [hrun] at hleads
    have hmem : s'.current ∈ ((State.ofTokens front).onto []).tokens :=
      hleads.tokens.subset List.mem_cons_self
    rw [← ofTokens_append hne, List.append_nil, tokens_ofTokens hne] at hmem
    exact absurd (hend ▸ List.mem_map_of_mem hmem) hfront
  | joins a? s' hresumed hbroken _ =>
    rw [hresumed, hbroken]
    rfl

end Templates
end TextTemplate.Grammar
