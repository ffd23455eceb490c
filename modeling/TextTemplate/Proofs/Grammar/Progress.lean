import TextTemplate.Proofs.Grammar.Compilation
import TextTemplate.Proofs.Grammar.Nesting

/-! The compiler comes to an end. A pass of a loop that goes on leaves fewer tokens, also where it
goes on after a problem, so that the loops end by themselves; and what is not found is on record,
so that a template either compiles whole or is refused with reports. -/

namespace TextTemplate.Grammar

namespace State

structure Before (s : State) : Prop where
  ends : s.Ends
  ne_end : s.current.lexeme ≠ .endOfInput

theorem Leads.left_le {s s' : State} (h : s.Leads s') : s'.left ≤ s.left := by
  have hlen := h.tokens.length_le
  simp only [State.tokens, List.length_cons, ← State.left_eq] at hlen
  omega

theorem Ends.before {s : State} (h : s.Ends) {l : Lexeme} (hl : s.current.lexeme = l)
    (hne : l ≠ .endOfInput) : s.Before :=
  ⟨h, fun he => hne (hl.symm.trans he)⟩

theorem left_advance_lt {s : State} (h : s.Before) : s.advance.left < s.left := by
  have hlen := congrArg List.length (lexemes_advance h.ends rfl h.ne_end)
  rw [List.length_cons, length_lexemes, length_lexemes] at hlen
  omega

theorem left_skipTo_lt {s : State} {stop : Lexeme → Bool} (h : s.Before)
    (hstop : stop s.current.lexeme = false) : (s.skipTo stop).left < s.left := by
  have hskip : (s.skipTo stop).left = (s.advance.skipTo stop).left := by
    unfold advance
    split
    · rfl
    · rename_i t ts hu
      simp [skipTo, hu, firstIn, hstop]
  rw [hskip]
  exact Nat.lt_of_le_of_lt (Leads.skipTo stop s.advance).left_le (left_advance_lt h)

theorem left_recover_lt {s : State} (h : s.Before) : s.recover.left < s.left := by
  unfold recover
  split
  · rename_i hl
    exact absurd hl h.ne_end
  · split
    · exact Nat.lt_of_le_of_lt (Leads.skipTo resumes s.advance).left_le (left_advance_lt h)
    · rename_i hstop
      exact left_skipTo_lt h (by simpa using hstop)

theorem Before.record {s : State} (h : s.Before) (position : Position) (fault : Fault) :
    (s.record position fault).Before := by
  refine ⟨h.ends.leads (.record s position fault), ?_⟩
  unfold State.record
  split
  · exact h.ne_end
  · exact h.ne_end

theorem left_record (s : State) (position : Position) (fault : Fault) :
    (s.record position fault).left = s.left := by
  unfold record
  split <;> rfl

theorem left_giveUp_lt {s : State} (h : s.Before) : s.giveUp.left < s.left := by
  have hrecord := h.record s.current.position .tooDeep
  rw [← s.left_record s.current.position .tooDeep]
  exact left_skipTo_lt ⟨hrecord.ends, hrecord.ne_end⟩ (beq_false_of_ne hrecord.ne_end)

end State

variable {α β : Type} {s : State}

def Consumes (r : Reader α) (s : State) : Prop :=
  (r.run s).2.left < s.left

namespace Consumes

theorem bind {r : Reader α} {k : α → Reader β} (h : Consumes r s) : Consumes (r >>= k) s := by
  unfold Consumes at h ⊢
  rcases hr : r.run s with ⟨_ | a, s'⟩ <;> rw [hr] at h
  · rw [run_bind_none hr]
    exact h
  · rw [run_bind_some hr]
    exact Nat.lt_of_le_of_lt ((k a).leads s').left_le h

theorem current {k : Token → Reader β} (h : Consumes (k s.current) s) :
    Consumes (current >>= k) s := h

theorem advance (h : s.Before) : Consumes advance s := State.left_advance_lt h

theorem failAt {position : Position} {fault : Fault} (h : s.Before) :
    Consumes (failAt position fault : Reader α) s := by
  have hlt := State.left_recover_lt (h.record position fault)
  rwa [s.left_record] at hlt

theorem skipOver {fault : Fault} (h : s.Before) : Consumes (skipOver fault) s :=
  failAt (α := Unit) h

theorem fail {fault : Fault} (h : s.Before) : Consumes (fail fault : Reader α) s :=
  current (failAt h)

theorem unexpected {what : Expected} (h : s.Before) : Consumes (unexpected what : Reader α) s :=
  current (fail h)

theorem note {fault : Fault} {k : Unit → Reader β}
    (h : Consumes (k ()) (s.record s.current.position fault)) : Consumes (note fault >>= k) s := by
  unfold Consumes at h
  rwa [s.left_record] at h

theorem optional {r : Reader α} (h : Consumes r s) : Consumes (optional r) s := h

theorem nested {r : Reader α} (hr : ∀ s : State, s.Before → Consumes r s) (h : s.Before) :
    Consumes (nested r) s := by
  by_cases hd : maxNesting ≤ s.depth
  · rw [Consumes, run_nested_limit hd]
    exact State.left_giveUp_lt h
  · rw [Consumes, run_nested_below hd]
    exact hr { s with depth := s.depth + 1 } ⟨h.ends, h.ne_end⟩

variable {deeper : Deeper} (h : s.Before)

include h

theorem primary : Consumes (primary deeper) s := by
  refine .current ?_
  split
  case h_11 => exact .unexpected h
  all_goals exact .bind (.advance h)

theorem unary : Consumes (unary deeper) s := by
  refine .current ?_
  dsimp only
  split
  · exact .bind (.advance h)
  · exact .bind (.advance h)
  · exact .bind (.bind (.primary h))

theorem elseArm {read : Arms} : Consumes (elseArm deeper read) s := by
  unfold Grammar.elseArm
  cases read.hasElse with
  | true => exact .note (.bind (.advance (h.record ..)))
  | false => exact .bind (.advance h)

theorem assignment : Consumes (assignment deeper) s := by
  -- each level begins with the next tighter one
  have hmultiplicative : Consumes (multiplicative deeper) s := .bind (.unary h)
  have hcomparison : Consumes (comparison deeper) s := .bind (.bind hmultiplicative)
  have hlogical : Consumes (logical deeper) s := .bind (.bind hcomparison)
  exact .current (.bind (.bind hlogical))

end Consumes

theorem consumes_levels : ∀ (n : Nat) {s : State}, s.Before → Consumes (levels n).assignment s
  | 0, _, h => State.left_giveUp_lt h
  | _ + 1, _, h => .nested (fun _ => .assignment) h

theorem Consumes.statement (n : Nat) (h : s.Before) : Consumes (statement (levels n)) s := by
  refine .current ?_
  split
  case h_10 => exact .bind (consumes_levels n h)
  all_goals exact .bind (.advance h)

def Advances (pass : Reader (α ⊕ β)) (s : State) : Prop :=
  s.Ends → ∀ a s', pass.run s = (some (.inl a), s') → s'.left < s.left

namespace Advances

variable {γ : Type} {pass : Reader (α ⊕ β)}

theorem of_consumes (h : s.Ends → Consumes pass s) : Advances pass s := by
  intro hs a s' hrun
  have hlt := h hs
  rwa [Consumes, hrun] at hlt

theorem done (b : β) : Advances (pure (.inr b) : Reader (α ⊕ β)) s :=
  fun _ _ _ h => nomatch (Prod.mk.inj h).1

theorem peek {f : State → γ} {k : γ → Reader (α ⊕ β)} (h : Advances (k (f s)) s) :
    Advances (Reader.peek f >>= k) s := h

theorem advance {k : Unit → Reader (α ⊕ β)} {l : Lexeme} (hl : s.current.lexeme = l)
    (hne : l ≠ .endOfInput) : Advances (advance >>= k) s :=
  of_consumes fun hs => .bind (.advance (hs.before hl hne))

theorem bind {r : Reader γ} {k : γ → Reader (α ⊕ β)} (hk : ∀ c s', Advances (k c) s') :
    Advances (r >>= k) s := by
  intro hs a s' hrun
  rcases hr : r.run s with ⟨_ | c, s₁⟩
  · rw [run_bind_none hr] at hrun
    exact absurd (Prod.mk.inj hrun).1 nofun
  · rw [run_bind_some hr] at hrun
    have hleads := r.leads s
    rw [hr] at hleads
    exact Nat.lt_of_lt_of_le (hk c s₁ (hs.leads hleads) a s' hrun) hleads.left_le

theorem unexpected {what : Expected} : Advances (unexpected what : Reader (α ⊕ β)) s :=
  fun _ _ _ h => nomatch (Prod.mk.inj h).1

end Advances

namespace Advances

theorem templatePass {read : List SourceStmt} : Advances (templatePass read) s := by
  refine .bind fun ss s => .peek ?_
  split
  · exact .done _
  · rename_i hne
    exact .of_consumes fun hs => .bind (.skipOver ⟨hs, hne⟩)

theorem statementPass {n : Nat} {read : List SourceStmt} :
    Advances (statementPass (levels n) read) s := by
  refine .peek (.peek ?_)
  split
  · exact .done _
  · rename_i hends
    split
    · rename_i t hl
      exact .advance hl nofun
    · -- a statement leaves fewer tokens also where none is found
      have hne : s.current.lexeme ≠ .endOfInput := by
        rintro hl
        simp [hl, endsStatements] at hends
      exact .of_consumes fun hs => .bind (.optional (.statement n ⟨hs, hne⟩))

theorem armPass {deeper : Deeper} {read : Arms} : Advances (armPass deeper read) s := by
  refine .peek ?_
  split
  case h_1 t hl =>
    split
    · exact .advance hl nofun
    · exact .unexpected
  case h_2 hl => exact .of_consumes fun hs => .bind (.bind (.advance (hs.before hl nofun)))
  case h_3 hl =>
    exact .of_consumes fun hs => .bind (.elseArm (hs.before hl nofun))
  case h_4 => exact .bind fun _ _ => .done _
  case h_5 => exact .unexpected

theorem callPass {deeper : Deeper} {e : SourceExpr} : Advances (callPass deeper e) s := by
  refine .peek ?_
  split
  case h_1 hl => exact .advance hl nofun
  case h_2 hl => exact .advance hl nofun
  case h_3 hl => exact .advance hl nofun
  case h_4 => exact .done _

theorem operatorPass {operand : Reader α} {operator? : Lexeme → Option (α → α → α)} {lhs : α}
    (hend : operator? .endOfInput = none) : Advances (operatorPass operand operator? lhs) s := by
  refine .peek ?_
  split
  · rename_i combine hl
    refine .advance rfl ?_
    rintro he
    simp [he, hend] at hl
  · exact .done _

theorem itemPass {item : Reader α} {closing : Symbol} {what : Expected} {read : List α} :
    Advances (itemPass item closing what read) s := by
  refine .bind fun a s => .peek ?_
  split
  · rename_i hl
    exact .advance (beq_iff_eq.1 hl) nofun
  · refine .peek ?_
    split
    · exact .bind fun _ _ => .done _
    · exact .unexpected

end Advances

/-- The loops of the compiler, each by its pass: the statements of a template and of a body, the
arms of a switch, calls and accesses, the operators of a level, and what stands between commas in
arguments, arrays, parentheses and maps. -/
inductive Loop : {α β : Type} → (α → Reader (α ⊕ β)) → Prop
  | template : Loop templatePass
  | statements (n : Nat) : Loop (statementPass (levels n))
  | arms (n : Nat) : Loop (armPass (levels n))
  | calls (n : Nat) : Loop (callPass (levels n))
  | operators (level : Level) (operand : Reader SourceExpr) :
      Loop (operatorPass operand level.operator?)
  | items {α : Type} (item : Reader α) (closing : Symbol) (what : Expected) :
      Loop (itemPass item closing what)

theorem Loop.advances {pass : α → Reader (α ⊕ β)} (h : Loop pass) (a : α) (s : State) :
    Advances (pass a) s := by
  cases h with
  | template => exact .templatePass
  | statements n => exact .statementPass
  | arms n => exact .armPass
  | calls n => exact .callPass
  | operators level operand => exact .operatorPass (by cases level <;> rfl)
  | items item closing what => exact .itemPass

inductive Repeats (pass : α → Reader (α ⊕ β)) : α → State → Option β × State → Prop
  | goesOn {a a' : α} {s s' : State} {r : Option β × State}
      (hpass : (pass a).run s = (some (.inl a'), s')) (hrest : Repeats pass a' s' r) :
      Repeats pass a s r
  | ends {a : α} {b : β} {s s' : State} (hpass : (pass a).run s = (some (.inr b), s')) :
      Repeats pass a s (some b, s')
  | fails {a : α} {s s' : State} (hpass : (pass a).run s = (none, s')) :
      Repeats pass a s (none, s')

theorem repeats_passes {pass : α → Reader (α ⊕ β)} (h : ∀ a s, Advances (pass a) s) (a : α)
    (s : State) (hs : s.Ends) : Repeats pass a s (passes pass a s) := by
  fun_induction passes pass a s with
  | case1 a s a' s' hrun hlt ih =>
    have hleads := (pass a).leads s
    rw [hrun] at hleads
    exact .goesOn hrun (ih (hs.leads hleads))
  | case2 a s a' s' hrun hlt => exact absurd (h a s hs a' s' hrun) hlt
  | case3 a s b s' hrun => exact .ends hrun
  | case4 a s s' hrun => exact .fails hrun

inductive Construct (n : Nat) (s : State) : {α : Type} → Reader α → Prop
  | templateName : Construct n s templateName
  | memberName : Construct n s memberName
  | closingWord : Construct n s expectEnd
  | extend (h : s.current.lexeme = .keyword .extend) : Construct n s extendStatement
  | block (h : s.current.lexeme = .keyword .block) : Construct n s (blockStatement (levels n))
  | content (h : s.current.lexeme = .keyword .content) : Construct n s contentStatement
  | include_ (h : s.current.lexeme = .keyword .include_) :
      Construct n s (includeStatement (levels n))
  | output (escape : Bool) (h : s.current.lexeme = outputMark escape) :
      Construct n s (outputStatement (levels n) escape)
  | branch (h : s.current.lexeme = .keyword .if_) : Construct n s (branchStatement (levels n))
  | loop (h : s.current.lexeme = .keyword .for_) : Construct n s (loopStatement (levels n))
  | loopHead : Construct n s (loopHead (levels n))
  | switch (h : s.current.lexeme = .keyword .switch) : Construct n s (switchStatement (levels n))
  | switchArms : Construct n s (switchArms (levels n))
  | statement : Construct n s (statement (levels n))
  | nestedAssignment : Construct n s (levels n).assignment
  | assignment : Construct n s (assignment (levels n))
  | conditional : Construct n s (conditional (levels n))
  | logical : Construct n s (logical (levels n))
  | equality : Construct n s (equality (levels n))
  | comparison : Construct n s (comparison (levels n))
  | additive : Construct n s (additive (levels n))
  | multiplicative : Construct n s (multiplicative (levels n))
  | nestedUnary : Construct n s (levels n).unary
  | unary : Construct n s (unary (levels n))
  | postfixed : Construct n s (postfixed (levels n))
  | update (op : UpdateOp) (before : Bool) (e : SourceExpr) : Construct n s (updateOf op before e)
  | callMember : Construct n s (callMember (levels n))
  | primary : Construct n s (primary (levels n))
  | items (closing : Symbol) (what : Expected) :
      Construct n s (separated (levels n).assignment closing what)
  | mapEntry : Construct n s (mapEntry (levels n))
  | entries : Construct n s (separated (mapEntry (levels n)) .rbrace .entryEnd)
  | parenthesized (h : s.current.lexeme = .symbol .lparen) :
      Construct n s (parenthesized (levels n))
  | lambdaBody : Construct n s (lambdaBody (levels n))
  | template : Construct n s template

theorem Construct.problems_ne_nil {n : Nat} {r : Reader α} (h : Construct n s r) (hs : s.Ends)
    {s' : State} (hr : r.run s = (none, s')) : s'.problems ≠ [] := by
  have hd := sound_levels n
  cases h with
  | templateName => exact Reads.templateName.problems_ne_nil hs hr
  | memberName => exact Reads.memberName.problems_ne_nil hs hr
  | closingWord => exact Reads.expectEnd.problems_ne_nil hs hr
  | extend h => exact (Reads.extendStatement h).problems_ne_nil hs hr
  | block h => exact (Reads.blockStatement hd h).problems_ne_nil hs hr
  | content h => exact (Reads.contentStatement h).problems_ne_nil hs hr
  | include_ h => exact (Reads.includeStatement hd h).problems_ne_nil hs hr
  | output escape h => exact (Reads.outputStatement hd h).problems_ne_nil hs hr
  | branch h => exact (Reads.branchStatement hd h).problems_ne_nil hs hr
  | loop h => exact (Reads.loopStatement hd h).problems_ne_nil hs hr
  | loopHead => exact (Reads.loopHead hd).problems_ne_nil hs hr
  | switch h => exact (Reads.switchStatement hd h).problems_ne_nil hs hr
  | switchArms => exact (Reads.switchArms hd).problems_ne_nil hs hr
  | statement => exact (Reads.statement hd).problems_ne_nil hs hr
  | nestedAssignment => exact (hd.assignment s).problems_ne_nil hs hr
  | assignment => exact (Reads.assignment hd).problems_ne_nil hs hr
  | conditional => exact (Reads.conditional hd).problems_ne_nil hs hr
  | logical => exact (Reads.logical hd).problems_ne_nil hs hr
  | equality => exact (Reads.equality hd).problems_ne_nil hs hr
  | comparison => exact (Reads.comparison hd).problems_ne_nil hs hr
  | additive => exact (Reads.additive hd).problems_ne_nil hs hr
  | multiplicative => exact (Reads.multiplicative hd).problems_ne_nil hs hr
  | nestedUnary => exact (hd.unary s).problems_ne_nil hs hr
  | unary => exact (Reads.unary hd).problems_ne_nil hs hr
  | postfixed => exact (Reads.postfixed hd).problems_ne_nil hs hr
  | update op before e =>
    exact (Reads.updateOf (P := fun _ _ => True) fun _ _ => trivial).problems_ne_nil hs hr
  | callMember => exact (Reads.callMember hd).problems_ne_nil hs hr
  | primary => exact (Reads.primary hd).problems_ne_nil hs hr
  | items closing what => exact (Reads.exprs hd).problems_ne_nil hs hr
  | mapEntry => exact (Reads.mapEntry hd).problems_ne_nil hs hr
  | entries => exact (Reads.entries hd).problems_ne_nil hs hr
  | parenthesized h => exact (Reads.parenthesized hd h).problems_ne_nil hs hr
  | lambdaBody => exact (Reads.lambdaBody hd).problems_ne_nil hs hr
  | template => exact Reads.template.problems_ne_nil hs hr

theorem ends_ofTokens {tokens : List Token} {ls : List Lexeme}
    (h : tokens.map Token.lexeme = ls ++ [.endOfInput]) : (State.ofTokens tokens).Ends := by
  cases tokens with
  | nil => simp at h
  | cons t ts =>
    have hlexemes : (State.ofTokens (t :: ts)).lexemes = ls ++ [.endOfInput] := h
    simp [State.Ends, hlexemes]

end TextTemplate.Grammar

namespace TextTemplate

open Grammar

/-- Compiling comes to an end by itself, and with a template read whole or with reports. Each pass
of a loop that goes on leaves fewer tokens, so that the passes end with no other reason to; the
nesting limit ends the descent; and whatever is not found is on record. -/
theorem compile_whole_or_reported (delimiters : Delimiters) (name source : String) :
    (∀ {α β : Type} {pass : α → Reader (α ⊕ β)}, Loop pass → ∀ a (s : State), s.Ends →
      (∀ a' s', (pass a).run s = (some (.inl a'), s') → s'.left < s.left) ∧
      Repeats pass a s ((repeatUntil pass a).run s)) ∧
    (∀ n, maxNesting ≤ n → ∀ s : State, s.depth = 0 →
      (levels n).statements.run s = (levels maxNesting).statements.run s) ∧
    (∀ {α : Type} {r : Reader α} (n : Nat) (s : State), Construct n s r → s.Ends →
      ∀ s', r.run s = (none, s') → s'.problems ≠ []) ∧
    (State.ofTokens (Scanner.ofString delimiters source).tokens).Ends ∧
    ∃ tree? s, template.run (.ofTokens (Scanner.ofString delimiters source).tokens) = (tree?, s) ∧
      (s.problems = [] ∧
          (∃ tree, tree? = some tree ∧ s.current.lexeme = .endOfInput ∧
            Derives .applied (Scanner.ofString delimiters source).lexemes (.stmts tree) ∧
            compile delimiters name source = .ok (Program.ofTree name tree)) ∨
        s.problems ≠ [] ∧ compile delimiters name source =
          .error (.compileFailed name (s.problems.map (Problem.report name source)))) := by
  obtain ⟨htokens, hls⟩ := (Scanner.ofString delimiters source).lexemes_tokens
  have hends := ends_ofTokens htokens
  refine ⟨fun h a s hs => ⟨h.advances a s hs, repeats_passes h.advances a s hs⟩,
    fun n hn s hs => (sameAt_levels (by omega) (by omega)).statements s hs,
    fun n s h hs s' hr => h.problems_ne_nil hs hr, hends, ?_⟩
  rcases hrun : template.run (.ofTokens (Scanner.ofString delimiters source).tokens) with
    ⟨tree?, s⟩
  refine ⟨tree?, s, rfl, ?_⟩
  by_cases hp : s.problems = []
  · refine .inl ⟨hp, ?_⟩
    obtain _ | tree := tree?
    · exact absurd hp (Reads.template.problems_ne_nil hends hrun)
    · have hread : readTemplate delimiters source = .ok tree := by
        rw [readTemplate, Grammar.read, hrun]
        simp [hp]
      exact ⟨tree, rfl, template_ends hrun, derives_of_read htokens hls hread,
        by rw [compile, hread]⟩
  · refine .inr ⟨hp, ?_⟩
    have hread : readTemplate delimiters source = .error s.problems := by
      rw [readTemplate, Grammar.read, hrun]
      cases tree? <;> simp [hp]
    rw [compile, hread]

theorem stray_parenthesis_reported :
    let s := State.ofTokens (Scanner.ofString .default "<% ) %>a").tokens.tail
    s.Ends ∧ (∃ read s', (statementPass (levels maxNesting) []).run s = (some (.inl read), s') ∧
        s'.left < s.left) ∧
      ∃ s', (statement (levels maxNesting)).run s = (none, s') ∧ s'.problems ≠ [] := by
  obtain ⟨hloops, -, hconstructs, -⟩ := compile_whole_or_reported .default "page" "<% ) %>a"
  intro s
  have hends : s.Ends := by
    unfold State.Ends
    decide +kernel
  refine ⟨hends, ?_, ?_⟩
  · have hon : ((statementPass (levels maxNesting) []).run s).1.map Sum.isLeft = some true := by
      decide +kernel
    rcases hrun : (statementPass (levels maxNesting) []).run s with ⟨_ | read | read, s'⟩
    · simp [hrun] at hon
    · exact ⟨read, s', rfl, (hloops (.statements maxNesting) [] s hends).1 read s' hrun⟩
    · simp [hrun] at hon
  · have hnone : ((statement (levels maxNesting)).run s).1.isNone = true := by decide +kernel
    rcases hrun : (statement (levels maxNesting)).run s with ⟨_ | e, s'⟩
    · exact ⟨s', rfl, hconstructs maxNesting s .statement hends s' hrun⟩
    · simp [hrun] at hnone

end TextTemplate
