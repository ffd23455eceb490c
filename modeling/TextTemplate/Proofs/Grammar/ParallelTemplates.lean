import TextTemplate.Proofs.Grammar.Parallel
import TextTemplate.Proofs.Render.Layouts

/-! Two runs over statements. A construct that is open where the tokens part lacks its end in the
first run, so that this fails. Statements that are in none come to the parting in both runs, having
read the same. Where the tokens do not part, all that differs is where problems are reported. -/

namespace TextTemplate.Grammar

variable {α β : Type} {E U : List Lexeme} {s s' : State} {n : Nat}

theorem run_elseBranch_end {deeper : Deeper} (hl : s.current.lexeme = .endOfInput) :
    (elseBranch deeper).run s = (some [], s) := by
  change (if s.current.lexeme == .keyword .else_ then _ else Pure.pure [] :
    Reader (List SourceStmt)).run s = _
  rw [hl]
  rfl

theorem problems_armPass_end {deeper : Deeper} (read : Arms)
    (hl : s.current.lexeme = .endOfInput) : ((armPass deeper read).run s).2.problems ≠ [] := by
  rw [armPass, run_current, hl]
  exact problems_failAt

def Parts (E U : List Lexeme) (pass : α → Reader (α ⊕ β)) (a : α) (s s' : State) : Prop :=
  E ≠ [] ∧ ∃ a₁ s₁ s₁', s₁.lexemes = E ∧ s₁'.lexemes = U ∧ Beside E U s₁ s₁' ∧
    passes pass a s = passes pass a₁ s₁ ∧ passes pass a s' = passes pass a₁ s₁'

namespace Parallel

section Statements

variable (hd : (levels n).Parallel E U)
include hd

omit hd in
theorem extendStatement (hnext : Beside E U s.advance s'.advance) :
    Likewise E U extendStatement Grammar.extendStatement s s' :=
  .step (.bind (templateName _ _ hnext) fun _ _ _ _ hs => .pure _ hs)

omit hd in
theorem contentStatement (hnext : Beside E U s.advance s'.advance) :
    Likewise E U contentStatement Grammar.contentStatement s s' :=
  .step (.bind (blockName _ _ hnext) fun _ _ _ _ hs => .pure _ hs)

theorem includeStatement (hnext : Beside E U s.advance s'.advance) :
    Likewise E U (includeStatement (levels n)) (Grammar.includeStatement (levels n)) s s' := by
  refine .step (.bind (templateName _ _ hnext) fun name s s' _ hs => ?_)
  refine .atSymbol hs (fun _ hnext => .step ?_) (.pure _ hs)
  exact .bind (hd.assignment _ _ hnext) fun e _ _ _ hs => .pure _ hs

theorem outputStatement (escape : Bool) (hnext : Beside E U s.advance s'.advance) :
    Likewise E U (outputStatement (levels n) escape) (Grammar.outputStatement (levels n) escape)
      s s' :=
  .step (.bind (hd.assignment _ _ hnext) fun _ _ _ _ hs => .pure _ hs)

theorem blockStatement (hnext : Beside E U s.advance s'.advance) :
    Likewise E U (blockStatement (levels n)) (Grammar.blockStatement (levels n)) s s' := by
  refine .step (.bind (blockName _ _ hnext) fun name s s' _ hs => ?_)
  refine .bind (skipColon s s' hs) fun _ s s' _ hs => ?_
  refine (hd.statements s s' hs).fails (fun body s s' hs => ?_) fun body s hl => ?_
  · exact .bind (expectEnd s s' hs) fun _ _ _ _ hs => .pure _ hs
  · exact problems_bind (problems_expectEnd hl)

theorem elseBranch (hs : Beside E U s s') : Loosely E U (elseBranch (levels n)) s s' := by
  refine .atKeyword hs (fun hnext => .step ?_) (.pure _ hs)
  exact .after (skipColon _ _ hnext) fun _ s s' _ hs => hd.statements s s' hs

theorem branchStatement (hnext : Beside E U s.advance s'.advance) :
    Likewise E U (branchStatement (levels n)) (Grammar.branchStatement (levels n)) s s' := by
  refine .step (.bind (.optional (hd.assignment _ _ hnext)) fun test? s s' _ hs => ?_)
  refine .bind (skipColon s s' hs) fun _ s s' _ hs => ?_
  refine (hd.statements s s' hs).fails (fun yes s s' hs => ?_) fun yes s hl => ?_
  · refine (elseBranch hd hs).fails (fun no s s' hs => ?_) fun no s hl => ?_
    · refine .bind (expectEnd s s' hs) fun _ s s' _ hs => ?_
      exact .bind (.found hs test?) fun _ _ _ _ hs => .pure _ hs
    · exact problems_bind (problems_expectEnd hl)
  · rw [run_bind_some (run_elseBranch_end hl)]
    exact problems_bind (problems_expectEnd hl)

theorem loopHead : Parallel E U (loopHead (levels n)) := by
  intro s s' hs
  refine .current ?_
  rcases hs.view with ⟨hl, -, hnext⟩ | ⟨c, -, -, -, hl, hl'⟩ | ⟨c, c', -, -, -, hl, hl'⟩
  · rw [hl]
    split
    · refine .step (.atKeyword hnext (fun _ hnext => .step ?_) (.unexpected hnext _))
      exact .bind (hd.assignment _ _ hnext) fun e _ _ _ hs => .pure _ hs
    · exact .unexpected hs _
  all_goals
    rw [hl, hl']
    exact .unexpected hs _

theorem loopStatement (hnext : Beside E U s.advance s'.advance) :
    Likewise E U (loopStatement (levels n)) (Grammar.loopStatement (levels n)) s s' := by
  refine .step (.bind (.optional (loopHead hd _ _ hnext)) fun head? s s' _ hs => ?_)
  refine .bind (skipColon s s' hs) fun _ s s' _ hs => ?_
  refine (hd.statements s s' hs).fails (fun body s s' hs => ?_) fun body s hl => ?_
  · refine .bind (expectEnd s s' hs) fun _ s s' _ hs => ?_
    exact .bind (.found hs head?) fun _ _ _ _ hs => .pure _ hs
  · exact problems_bind (problems_expectEnd hl)

theorem whenArm (read : Arms) (hnext : Beside E U s.advance s'.advance) :
    Loosely E U (whenArm (levels n) read) s s' := by
  refine .step (.after (.optional (hd.assignment _ _ hnext)) fun value? s s' _ hs => ?_)
  refine .after (skipColon s s' hs) fun _ s s' _ hs => ?_
  refine (hd.statements s s' hs).stays (fun body s s' hs => .inl ?_) fun body s hl => ?_
  · split
    · exact .pure _ hs
    · exact .pure _ hs
  · split
    · exact ⟨_, rfl⟩
    · exact ⟨_, rfl⟩

theorem elseArm (read : Arms) (hs : Beside E U s s') (hl : s.current.lexeme = .keyword .else_) :
    Loosely E U (elseArm (levels n) read) s s' := by
  have hbody (arms : List SourceStmt → Arms) (s s' : State) (hs : Beside E U s s')
      (hl : s.current.lexeme = .keyword .else_) : Loosely E U (do
        advance
        Grammar.skipColon
        let body ← (levels n).statements
        pure (arms body)) s s' := by
    refine .step (.after (skipColon _ _ (hs.read hl nofun nofun).2) fun _ s s' _ hs => ?_)
    exact (hd.statements s s' hs).stays (fun body s s' hs => .inl (.pure _ hs))
      fun _ _ _ => ⟨_, rfl⟩
  unfold Grammar.elseArm
  split
  · refine .after (.note hs _) fun _ t t' hr ht => hbody _ t t' ht ?_
    cases hr
    exact (s.current_record s.current.position .duplicateElse).symm ▸ hl
  · exact hbody _ s s' hs hl

omit hd in
theorem problems_arms_end {read read' : Arms} {s₁ : State} (hs : s.Ends)
    (hr : (armPass (levels n) read).run s = (some (.inl read'), s₁))
    (hl : s₁.current.lexeme = .endOfInput) :
    (passes (armPass (levels n)) read s).2.problems ≠ [] := by
  have hlt := Advances.armPass hs read' s₁ hr
  have hgo : passes (armPass (levels n)) read s = passes (armPass (levels n)) read' s₁ :=
    (passes_of_run hr).trans (if_pos hlt)
  have hleads := leads_passes_of_pass (armPass (levels n)) read' s₁
  rw [hgo]
  exact fun hp => problems_armPass_end read' hl (State.problems_eq_nil hleads hp)

theorem armPass (read : Arms) (hs : Beside E U s s') :
    Likewise E U (armPass (levels n) read) (Grammar.armPass (levels n) read) s s' ∨
      E ≠ [] ∧ (passes (Grammar.armPass (levels n)) read s).2.problems ≠ [] := by
  have harm {r : Reader Arms} (h : Loosely E U r s s')
      (hrun : (Grammar.armPass (levels n) read).run s =
        (r >>= fun read => Pure.pure (.inl read)).run s)
      (hrun' : (Grammar.armPass (levels n) read).run s' =
        (r >>= fun read => Pure.pure (.inl read)).run s') :
      Likewise E U (Grammar.armPass (levels n) read) (Grammar.armPass (levels n) read) s s' ∨
        E ≠ [] ∧ (passes (Grammar.armPass (levels n)) read s).2.problems ≠ [] := by
    rcases h with h | ⟨hne, read', s₁, hr, hl⟩
    · refine .inl ?_
      unfold Likewise
      rw [hrun, hrun']
      exact h.bind fun read' _ _ _ hs => .pure _ hs
    · rw [run_bind_some hr] at hrun
      exact .inr ⟨hne, problems_arms_end hs.ends hrun hl⟩
  rcases hs.view with ⟨hl', -, hnext⟩ | ⟨c, hE, -, -, hl, -⟩ | ⟨c, c', hE, hs₁, -, hl, -⟩
  · cases hl : s.current.lexeme with
    | text c =>
      refine .inl (.current ?_)
      rw [hl', hl]
      dsimp only
      split
      · exact .step (.pure _ hnext)
      · exact .unexpected hs _
    | keyword k =>
      cases k with
      | when_ =>
        exact harm (whenArm hd read hnext) (by rw [Grammar.armPass, run_current, hl])
          (by rw [Grammar.armPass, run_current, hl', hl])
      | else_ =>
        exact harm (elseArm hd read hs hl) (by rw [Grammar.armPass, run_current, hl])
          (by rw [Grammar.armPass, run_current, hl', hl])
      | end_ =>
        refine .inl (.current ?_)
        rw [hl', hl]
        exact .step (.pure _ hnext)
      | _ =>
        refine .inl (.current ?_)
        rw [hl', hl]
        exact .unexpected hs _
    | _ =>
      refine .inl (.current ?_)
      rw [hl', hl]
      exact .unexpected hs _
  · subst hE
    have hleads := leads_passes_of_pass (Grammar.armPass (levels n)) read s
    exact .inr ⟨by simp, fun hp => problems_armPass_end read hl (State.problems_eq_nil hleads hp)⟩
  · subst hE
    have hadvance := State.lexemes_advance hs.ends hl (by simp)
    have hend := (List.cons.inj (hs₁.symm.trans hadvance)).2
    by_cases hblank : (read.arms.isEmpty && Text.isBlankText c) = true
    · have hrun : (Grammar.armPass (levels n) read).run s = (some (.inl read), s.advance) := by
        rw [Grammar.armPass, run_current, hl]
        dsimp only
        rw [if_pos hblank]
        rfl
      exact .inr ⟨by simp, problems_arms_end hs.ends hrun (List.cons.inj hend).1.symm⟩
    · refine .inl (.inl ⟨by simp, ?_⟩)
      rw [Grammar.armPass, run_current, hl]
      dsimp only
      rw [if_neg hblank]
      exact problems_failAt

theorem switchArms : Parallel E U (switchArms (levels n)) := fun s s' hs =>
  (repeatUntil_or (fun read s s' hs => armPass hd read hs) (fun hgo _ => by rw [hgo]; exact id) _
    hs).elim id .inl

theorem switchStatement (hnext : Beside E U s.advance s'.advance) :
    Likewise E U (switchStatement (levels n)) (Grammar.switchStatement (levels n)) s s' := by
  refine .step (.bind (.optional (hd.assignment _ _ hnext)) fun subject? s s' _ hs => ?_)
  refine .bind (skipColon s s' hs) fun _ s s' _ hs => ?_
  refine .bind (switchArms hd s s' hs) fun read s s' _ hs => ?_
  refine .bind (.found hs subject?) fun subject s s' _ hs => ?_
  split
  · exact .pure _ hs
  · exact .found hs none

theorem statement : Parallel E U (statement (levels n)) := by
  intro s s' hs
  refine .current ?_
  rcases hs.view with ⟨hl, -, hnext⟩ | ⟨c, -, -, -, hl, hl'⟩ | ⟨c, c', -, -, -, hl, hl'⟩
  · rw [hl]
    split
    case h_1 => exact extendStatement hnext
    case h_2 => exact blockStatement hd hnext
    case h_3 => exact contentStatement hnext
    case h_4 => exact includeStatement hd hnext
    case h_5 => exact outputStatement hd true hnext
    case h_6 => exact outputStatement hd false hnext
    case h_7 => exact loopStatement hd hnext
    case h_8 => exact switchStatement hd hnext
    case h_9 => exact branchStatement hd hnext
    case h_10 => exact .bind (hd.assignment s s' hs) fun _ _ _ _ hs => .pure _ hs
  all_goals
    rw [hl, hl']
    exact .bind (hd.assignment s s' hs) fun _ _ _ _ hs => .pure _ hs

theorem statementPass (read : List SourceStmt) (hs : Beside E U s s')
    (hl : s'.current.lexeme = s.current.lexeme) (hnext : Beside E U s.advance s'.advance) :
    Likewise E U (statementPass (levels n) read) (Grammar.statementPass (levels n) read) s s' := by
  refine .current ?_
  change Likewise E U (if endsStatements (decide (0 < s.braces)) s.current.lexeme then _ else _)
    (if endsStatements (decide (0 < s'.braces)) s'.current.lexeme then _ else _) s s'
  rw [hl, hs.braces]
  split
  · exact .pure _ hs
  · split
    · exact .step (.pure _ hnext)
    · refine .bind (.optional (statement hd s s' hs)) fun found? s s' _ hs => ?_
      split
      · exact .pure _ hs
      · exact .pure _ hs

theorem statementList (read : List SourceStmt) (hs : Beside E U s s') :
    Likewise E U (Grammar.repeatUntil (Grammar.statementPass (levels n)) read)
        (Grammar.repeatUntil (Grammar.statementPass (levels n)) read) s s' ∨
      Parts E U (Grammar.statementPass (levels n)) read s s' := by
  refine repeatUntil_or (fun read s s' hs => ?_) ?_ read hs
  · rcases hs.view with ⟨hl, -, hnext⟩ | ⟨c, rfl, hE, hU, -⟩ | ⟨c, c', rfl, hE, hU, -⟩
    · exact .inl (statementPass hd read hs hl hnext)
    · exact .inr ⟨by simp, read, s, s', hE, hU, hs, rfl, rfl⟩
    · exact .inr ⟨by simp, read, s, s', hE, hU, hs, rfl, rfl⟩
  · rintro a a' s s' s₁ s₁' hgo hgo' ⟨hne, a₂, s₂, s₂', hE, hU, hs₂, hrest, hrest'⟩
    exact ⟨hne, a₂, s₂, s₂', hE, hU, hs₂, hgo.trans hrest, hgo'.trans hrest'⟩

end Statements

end Parallel

theorem passes_text {c : String} (hs : s.Ends) (hl : s.current.lexeme = .text c)
    (read : List SourceStmt) : passes (statementPass (levels n)) read s =
      passes (statementPass (levels n)) (Layer.texts c ++ read) s.advance := by
  have hlt := State.left_advance_lt (hs.before hl nofun)
  refine (passes_of_run (run_statementPass_text hl)).trans ((if_pos hlt).trans ?_)
  unfold Layer.texts
  split <;> rfl

theorem passes_end (hl : s.current.lexeme = .endOfInput) (read : List SourceStmt) :
    passes (statementPass (levels n)) read s = (some read.reverse, s) := by
  have hrun : (statementPass (levels n) read).run s = (some (.inr read.reverse), s) := by
    rw [statementPass, run_current, hl]
    rfl
  exact passes_of_run hrun

def lastStatements : List Lexeme → List SourceStmt
  | .text c :: _ => Layer.texts c
  | _ => []

theorem reverse_texts (c : String) : (Layer.texts c : List SourceStmt).reverse = Layer.texts c := by
  unfold Layer.texts
  split <;> rfl

theorem passes_parted (hs : Beside E U s s') (hE : s.lexemes = E) (hne : E ≠ [])
    (read : List SourceStmt) : ∃ s₁, s₁.current.lexeme = .endOfInput ∧ s₁.problems = s.problems ∧
      passes (statementPass (levels n)) read s = (some (read.reverse ++ lastStatements E), s₁) := by
  obtain ⟨hparting, -⟩ := id hs
  have hcons := s.lexemes_eq.symm.trans hE
  cases hparting with
  | nowhere => exact absurd rfl hne
  | ends c ls =>
    have hl := (List.cons.inj hcons).1
    refine ⟨s, hl, rfl, ?_⟩
    rw [passes_end hl, lastStatements, List.append_nil]
    nofun
  | text c c' ls =>
    have hl := (List.cons.inj hcons).1
    have hadvance := State.lexemes_advance hs.ends hl nofun
    have hlast := (List.cons.inj (hE.symm.trans hadvance)).2
    have hend := (List.cons.inj (s.advance.lexemes_eq.symm.trans hlast.symm)).1
    refine ⟨s.advance, hend, s.problems_advance, ?_⟩
    rw [passes_text hs.ends hl, passes_end hend, List.reverse_append, reverse_texts]
    rfl

namespace Parallel

theorem nestedStatements {r : Reader (List SourceStmt)}
    (hr : ∀ s s', Beside E U s s' → Loosely E U r s s') (s s' : State) (hs : Beside E U s s') :
    Loosely E U (nestedStatements r) s s' :=
  (Loosely.optional (.nested hr hs)).stays (fun _ _ _ hs => .inl (.pure _ hs)) fun _ _ _ => ⟨_, rfl⟩

theorem levels : ∀ n, (levels n).Parallel E U
  | 0 =>
    { statements := nestedStatements fun _ _ hs => .inl (.giveUp hs)
      assignment := fun _ _ hs => .giveUp hs
      unary := fun _ _ hs => .giveUp hs }
  | n + 1 =>
    have hd := levels n
    { statements := nestedStatements fun s s' hs => by
        rcases statementList hd [] hs with h | ⟨hne, read, s₁, s₁', hE, -, hs₁, hgo, -⟩
        · exact .inl h
        · obtain ⟨s₂, hl, -, hlast⟩ := passes_parted hs₁ hE hne read
          exact .inr ⟨hne, _, s₂, hgo.trans hlast, hl⟩
      assignment := nested (assignment hd)
      unary := nested (unary hd) }

theorem template : Parallel [] [] template := by
  refine repeatUntil (fun read s s' hs => ?_) []
  have hstatements := ((levels maxNesting).statements s s' hs).resolve_right fun h => h.1 rfl
  refine .bind hstatements fun ss s s' _ hs => .current ?_
  rcases hs.view with ⟨hl, -⟩ | ⟨c, hE, -⟩ | ⟨c, c', hE, -⟩
  · rw [hl]
    split
    · exact .pure _ hs
    · exact .bind (.skipOver hs _) fun _ _ _ _ hs => .pure _ hs
  · cases hE
  · cases hE

end Parallel

theorem lexemes_ofTokens {tokens : List Token} (h : tokens ≠ []) :
    (State.ofTokens tokens).lexemes = tokens.map Token.lexeme := by
  rw [State.lexemes, tokens_ofTokens h]

theorem beside_ofTokens {tokens tokens' : List Token} {ls : List Lexeme} (hparting : Parting E U)
    (h : tokens.map Token.lexeme = ls ++ E) (h' : tokens'.map Token.lexeme = ls ++ U)
    (hls : E ≠ [] → .endOfInput ∉ ls) (hne : tokens ≠ []) (hne' : tokens' ≠ [])
    (hends : (State.ofTokens tokens).Ends) (hclosed : ∀ c, .unclosed c ∉ tokens.map Token.lexeme) :
    Beside E U (.ofTokens tokens) (.ofTokens tokens') where
  parting := hparting
  lexemes := ⟨ls, (lexemes_ofTokens hne).trans h, (lexemes_ofTokens hne').trans h', hls⟩
  ends := hends
  closed c hc := hclosed c (lexemes_ofTokens hne ▸ hc)
  depth := by rw [depth_ofTokens, depth_ofTokens]
  braces := by cases tokens <;> cases tokens' <;> rfl
  exceeded := by rw [exceeded_ofTokens, exceeded_ofTokens]
  faults := by rw [problems_ofTokens, problems_ofTokens]

theorem ne_nil_of_lexemes {tokens : List Token} {ls : List Lexeme}
    (h : tokens.map Token.lexeme = ls ++ [.endOfInput]) : tokens ≠ [] := by
  rintro rfl
  simp at h

theorem read_congr {tokens tokens' : List Token} {ls : List Lexeme}
    (h : tokens.map Token.lexeme = ls ++ [.endOfInput])
    (h' : tokens'.map Token.lexeme = ls ++ [.endOfInput]) (hclosed : ∀ c, .unclosed c ∉ ls) :
    (read tokens').mapError (·.map Problem.fault) =
      (read tokens).mapError (·.map Problem.fault) := by
  have hs : Beside [] [] (State.ofTokens tokens) (State.ofTokens tokens') := by
    refine beside_ofTokens .nowhere (h.trans (List.append_nil _).symm)
      (h'.trans (List.append_nil _).symm) nofun (ne_nil_of_lexemes h) (ne_nil_of_lexemes h')
      (ends_ofTokens h) fun c hc => hclosed c ?_
    rw [h] at hc
    simpa using hc
  have htemplate := (Parallel.template _ _ hs).resolve_left fun h => h.1 rfl
  unfold read
  rcases hr : template.run (.ofTokens tokens) with ⟨tree?, s⟩
  rcases hr' : template.run (.ofTokens tokens') with ⟨tree?', s'⟩
  rw [hr, hr'] at htemplate
  obtain ⟨htree, hs'⟩ := htemplate
  obtain rfl : tree?' = tree? := htree
  have hempty : s'.problems.isEmpty = s.problems.isEmpty := by
    have hlength := congrArg List.isEmpty hs'.faults
    simpa using hlength
  cases tree?' with
  | none => exact congrArg Except.error hs'.faults
  | some tree =>
    dsimp only
    rw [hempty]
    split
    · rfl
    · exact congrArg Except.error hs'.faults

end TextTemplate.Grammar
