import TextTemplate.Grammar.Statement
import TextTemplate.Proofs.Grammar.Derivation
import TextTemplate.Proofs.Grammar.Reading

/-! The readers are put together from a few operations, and what each of these respects all readers
respect. Expression readers need fewer of them, and go on to statements behind an arrow only. Two
loops and the assignment are taken as a whole: what a property says of a text that is read, and of a
fault that is reported at an earlier token, may depend on what stands around them. -/

namespace TextTemplate.Grammar

/-- A property of readers, each at a state, that the operations on expression readers respect. -/
structure Carried (K : ⦃α : Type⦄ → Reader α → State → Prop) : Prop where
  pure {α : Type} (a : α) (s : State) : K (Pure.pure a : Reader α) s
  bind {α β : Type} {r : Reader α} {k : α → Reader β} {s : State} :
    K r s → (∀ a s', r.run s = (some a, s') → K (k a) s') → K (r >>= k) s
  view {α : Type} (f : Token → α) (s : State) : K (.peek fun s => f s.current) s
  nextIsColon {s : State} {key : String} :
    key? s.current.lexeme = some key → K mapEntry.nextIsColon s
  advance {s : State} : (∀ t, s.current.lexeme ≠ .text t) → K advance s
  failHere {α : Type} {fault : Fault} (s : State) :
    fault ≠ .tooDeep → K (failAt s.current.position fault : Reader α) s
  giveUp {α : Type} (s : State) : K (giveUp : Reader α) s
  nested {α : Type} {r : Reader α} (s : State) : (∀ s, K r s) → K (nested r) s
  repeatUntil {α β : Type} {pass : α → Reader (α ⊕ β)} (a : α) (s : State) :
    (∀ a s, K (pass a) s) → K (repeatUntil pass a) s

structure Respected (K : ⦃α : Type⦄ → Reader α → State → Prop) : Prop extends Carried K where
  braced (s : State) : K braced s
  note {fault : Fault} (s : State) : fault ≠ .tooDeep → K (note fault) s
  skipOver {fault : Fault} (s : State) : fault ≠ .tooDeep → K (skipOver fault) s
  found {α : Type} (a? : Option α) (s : State) : K (found a?) s
  optional {α : Type} {r : Reader α} {s : State} : K r s → K (optional r) s
  inBraces {α : Type} {r : Reader α} (s : State) : (∀ s, K r s) → K (inBraces r) s

/-- A property that the readers respect for which the operations alone do not decide it: texts are
read in two loops, and an assignment is reported where its target began. -/
structure Closed (K : ⦃α : Type⦄ → Reader α → State → Prop) : Prop extends Respected K where
  assignment {n : Nat} (s : State) :
    (∀ s, K (conditional (levels n)) s) → (∀ s, K (levels n).assignment s) →
      K (assignment (levels n)) s
  switchArms {n : Nat} (s : State) :
    (∀ read s, s.current.lexeme = .keyword .when_ → K (whenArm (levels n) read) s) →
    (∀ read s, s.current.lexeme = .keyword .else_ → K (elseArm (levels n) read) s) →
      K (switchArms (levels n)) s
  statementList {n : Nat} (s : State) :
    (∀ s, K (statement (levels n)) s) → K (statementList (levels n)) s

theorem State.current_record (s : State) (position : Position) (fault : Fault) :
    (s.record position fault).current = s.current := by
  unfold record
  split <;> rfl

namespace State

theorem problems_advance (s : State) : s.advance.problems = s.problems := by
  unfold advance
  split <;> rfl

theorem exceeded_advance (s : State) : s.advance.exceeded = s.exceeded := by
  unfold advance
  split <;> rfl

theorem problems_recover (s : State) : s.recover.problems = s.problems := by
  unfold recover
  split
  · rfl
  · split
    · exact s.problems_advance
    · rfl

theorem exceeded_recover (s : State) : s.recover.exceeded = s.exceeded := by
  unfold recover
  split
  · rfl
  · split
    · exact s.exceeded_advance
    · rfl

end State

theorem misplaced_ne_tooDeep (what : Expected) (t : Token) :
    Fault.misplaced what t ≠ .tooDeep := by
  unfold Fault.misplaced
  split <;> nofun

theorem not_text {l l' : Lexeme} (hl : l = l') (h : ∀ t, l' ≠ .text t) (t : String) :
    l ≠ .text t :=
  hl ▸ h t

def lambdaTail (deeper : Deeper) (params : List String) : Reader SourceExpr := do
  advance
  pure (.lambda () params (← lambdaBody deeper))

structure Deeper.Carries (K : ⦃α : Type⦄ → Reader α → State → Prop) (deeper : Deeper) : Prop where
  assignment (s : State) : K deeper.assignment s
  unary (s : State) : K deeper.unary s
  lambdaTail {s : State} (params : List String) :
    s.current.lexeme = .symbol .arrow → K (lambdaTail deeper params) s

structure Deeper.Respects (K : ⦃α : Type⦄ → Reader α → State → Prop) (deeper : Deeper) : Prop where
  statements (s : State) : K deeper.statements s
  assignment (s : State) : K deeper.assignment s
  unary (s : State) : K deeper.unary s

namespace Carried

variable {α β : Type} {s : State} {K : ⦃α : Type⦄ → Reader α → State → Prop} (h : Carried K)
include h

theorem current {k : Token → Reader β} (hk : K (k s.current) s) : K (current >>= k) s := by
  refine h.bind (h.view id s) fun a s' hr => ?_
  cases hr
  exact hk

theorem atSymbol {x : Symbol} {yes no : Reader β} (hyes : s.current.lexeme = .symbol x → K yes s)
    (hno : K no s) : K (atSymbol x >>= fun here => if here then yes else no) s := by
  refine h.bind (h.view (fun t => t.lexeme == .symbol x) s) fun here s' hr => ?_
  cases hr
  split
  · rename_i hx
    exact hyes (beq_iff_eq.1 hx)
  · exact hno

theorem atKeyword {x : Keyword} {yes no : Reader β}
    (hyes : s.current.lexeme = .keyword x → K yes s) (hno : K no s) :
    K (atKeyword x >>= fun here => if here then yes else no) s := by
  refine h.bind (h.view (fun t => t.lexeme == .keyword x) s) fun here s' hr => ?_
  cases hr
  split
  · rename_i hx
    exact hyes (beq_iff_eq.1 hx)
  · exact hno

theorem step {k : Unit → Reader β} {l : Lexeme} (hl : s.current.lexeme = l)
    (hne : ∀ t, l ≠ .text t) (hk : K (k ()) s.advance) : K (Grammar.advance >>= k) s := by
  refine h.bind (h.advance (not_text hl hne)) fun a s' hr => ?_
  cases hr
  exact hk

theorem fail {fault : Fault} (hne : fault ≠ .tooDeep) : K (fail fault : Reader α) s :=
  h.current (h.failHere s hne)

theorem unexpected {what : Expected} : K (unexpected what : Reader α) s :=
  h.current (h.fail (misplaced_ne_tooDeep what s.current))

theorem skipColon (s : State) : K skipColon s :=
  h.atSymbol (fun hl => h.advance (not_text hl nofun)) (h.pure () s)

theorem expectEnd (s : State) : K expectEnd s :=
  h.atKeyword (fun hl => h.advance (not_text hl nofun)) h.unexpected

theorem memberName (s : State) : K memberName s := by
  refine h.current ?_
  split
  · rename_i name hname
    refine h.step rfl (fun t ht => ?_) (h.pure name _)
    rw [ht] at hname
    cases hname
  · exact h.unexpected

theorem templateName (s : State) : K templateName s := by
  refine h.current ?_
  split
  · rename_i name hl
    exact h.step hl nofun (h.pure name _)
  · exact h.unexpected

theorem blockName (s : State) : K blockName s := by
  refine h.current ?_
  split
  · rename_i name hl
    exact h.step hl nofun (h.pure name _)
  · exact h.pure _ s

theorem leftAssociative {operand : Reader α} {operator? : Lexeme → Option (α → α → α)}
    (hoperator : ∀ t, operator? (.text t) = none) (hoperand : ∀ s, K operand s) (s : State) :
    K (leftAssociative operand operator?) s := by
  refine h.bind (hoperand s) fun lhs s' _ => h.repeatUntil lhs s' fun lhs s => h.current ?_
  split
  · rename_i combine hl
    refine h.step rfl (fun t ht => ?_) ?_
    · rw [ht, hoperator t] at hl
      cases hl
    · exact h.bind (hoperand _) fun rhs s' _ => h.pure _ s'
  · exact h.pure _ s

theorem separated {item : Reader α} {closing : Symbol} {what : Expected}
    (hitem : ∀ s, K item s) (s : State) : K (separated item closing what) s := by
  refine h.atSymbol (fun hl => h.step hl nofun (h.pure [] _)) ?_
  refine h.repeatUntil [] s fun read s => h.bind (hitem s) fun a s' _ => ?_
  refine h.atSymbol (fun hl => h.step hl nofun (h.pure _ _)) ?_
  exact h.atSymbol (fun hl => h.step hl nofun (h.pure _ _)) h.unexpected

section Expressions

variable {deeper : Deeper} (hd : deeper.Carries K)
include hd

theorem mapEntry (s : State) : K (mapEntry deeper) s := by
  refine h.current ?_
  split
  · exact h.unexpected
  · rename_i key hkey
    refine h.bind (h.nextIsColon hkey) fun colon s' hr => ?_
    cases hr
    split
    · rename_i hcolon
      refine h.step rfl (fun t ht => ?_) ?_
      · rw [ht] at hkey
        cases hkey
      · refine h.step (State.lexeme_advance hcolon) nofun ?_
        exact h.bind (hd.assignment _) fun e s' _ => h.pure _ s'
    · exact h.fail nofun

theorem parenthesized (hl : s.current.lexeme = .symbol .lparen) :
    K (parenthesized deeper) s := by
  refine h.step hl nofun (h.bind (h.separated hd.assignment _) fun items s' _ => ?_)
  refine h.atSymbol (fun harrow => ?_) ?_
  · split
    · exact hd.lambdaTail _ harrow
    · exact h.fail nofun
  · split
    · exact h.fail nofun
    · exact h.pure _ s'
    · exact h.pure _ s'

theorem primary (s : State) : K (primary deeper) s := by
  refine h.current ?_
  split
  case h_1 hl | h_2 hl | h_3 hl | h_4 hl | h_5 hl | h_6 hl => exact h.step hl nofun (h.pure _ _)
  case h_7 hl =>
    exact h.step hl nofun (h.bind (h.memberName _) fun name s' _ => h.pure _ s')
  case h_8 hl => exact h.parenthesized hd hl
  case h_9 hl =>
    refine h.step hl nofun (h.bind (h.separated hd.assignment _) fun items s' _ => ?_)
    exact h.pure _ s'
  case h_10 hl =>
    refine h.step hl nofun (h.bind (h.separated (h.mapEntry hd) _) fun entries s' _ => ?_)
    exact h.pure _ s'
  case h_11 => exact h.unexpected

theorem callMember (s : State) : K (callMember deeper) s := by
  refine h.bind (h.primary hd s) fun e s' _ => h.repeatUntil e s' fun e s => h.current ?_
  split
  case h_1 hl =>
    refine h.step hl nofun (h.bind (h.separated hd.assignment _) fun args s' _ => ?_)
    exact h.pure _ s'
  case h_2 hl | h_3 hl =>
    exact h.step hl nofun (h.bind (h.memberName _) fun name s' _ => h.pure _ s')
  case h_4 => exact h.pure _ s

omit hd in
theorem updateOf (op : UpdateOp) (before : Bool) (e : SourceExpr) (s : State) :
    K (updateOf op before e) s := by
  unfold Grammar.updateOf
  split
  · exact h.pure _ s
  · exact h.fail nofun

theorem postfixed (s : State) : K (postfixed deeper) s := by
  refine h.bind (h.callMember hd s) fun operand s' _ => h.current ?_
  split
  · rename_i op hop
    refine h.bind (h.updateOf op false operand s') fun e s'' hr => ?_
    -- a variable is counted without a look at the tokens
    have hsame : s'' = s' := by
      unfold Grammar.updateOf at hr
      split at hr
      · cases hr
        rfl
      · cases hr
    subst hsame
    exact h.step (symbol_of_updateOp? hop) nofun (h.pure _ _)
  · exact h.pure _ s'

theorem unary (s : State) : K (unary deeper) s := by
  refine h.current ?_
  dsimp only
  split
  · rename_i op hop
    refine h.step (symbol_of_unaryOp? hop) nofun ?_
    exact h.bind (hd.unary _) fun e s' _ => h.pure _ s'
  · rename_i op _ hop
    refine h.step (symbol_of_updateOp? hop) nofun ?_
    exact h.bind (hd.unary _) fun e s' _ => h.updateOf op true e s'
  · exact h.postfixed hd s

theorem multiplicative : ∀ s, K (multiplicative deeper) s :=
  h.leftAssociative (fun _ => rfl) (h.unary hd)

theorem additive : ∀ s, K (additive deeper) s :=
  h.leftAssociative (fun _ => rfl) (h.multiplicative hd)

theorem comparison : ∀ s, K (comparison deeper) s :=
  h.leftAssociative (fun _ => rfl) (h.additive hd)

theorem equality : ∀ s, K (equality deeper) s :=
  h.leftAssociative (fun _ => rfl) (h.comparison hd)

theorem logical : ∀ s, K (logical deeper) s :=
  h.leftAssociative (fun _ => rfl) (h.equality hd)

theorem conditional (s : State) : K (conditional deeper) s := by
  refine h.bind (h.logical hd s) fun test s' _ => ?_
  refine h.atSymbol (fun hl => h.step hl nofun ?_) (h.pure _ s')
  refine h.bind (hd.assignment _) fun yes s'' _ => ?_
  refine h.atSymbol (fun hl => h.step hl nofun ?_) h.unexpected
  exact h.bind (hd.assignment _) fun no s''' _ => h.pure _ s'''

end Expressions

theorem assignment {deeper : Deeper} (s : State)
    (hfail : ∀ lhs s', (Grammar.conditional deeper).run s = (some lhs, s') →
      K (failAt s.current.position .assignmentTarget : Reader SourceExpr) s')
    (hconditional : ∀ s, K (Grammar.conditional deeper) s)
    (hassignment : ∀ s, K deeper.assignment s) : K (Grammar.assignment deeper) s := by
  refine h.current (h.bind (hconditional s) fun lhs s' hlhs => h.current ?_)
  split
  · exact h.pure _ s'
  · rename_i op hop
    split
    · refine h.step (symbol_of_assignmentOp? hop) nofun ?_
      exact h.bind (hassignment _) fun value s'' _ => h.pure _ s''
    · exact hfail lhs s' hlhs

end Carried

namespace Respected

variable {s : State} {K : ⦃α : Type⦄ → Reader α → State → Prop} (h : Respected K)
  {deeper : Deeper} (hd : deeper.Respects K)
include h hd

theorem lambdaBody (s : State) : K (lambdaBody deeper) s := by
  refine h.atSymbol (fun hl => h.step hl nofun ?_) ?_
  · refine h.bind (h.inBraces _ hd.statements) fun body s' _ => ?_
    exact h.atSymbol (fun hl => h.step hl nofun (h.pure _ _)) h.unexpected
  · refine h.bind (hd.statements s) fun body s' _ => ?_
    exact h.bind (h.expectEnd s') fun _ s'' _ => h.pure _ s''

theorem carries : deeper.Carries K where
  assignment := hd.assignment
  unary := hd.unary
  lambdaTail params hl := by
    refine h.step hl nofun ?_
    exact h.bind (h.lambdaBody hd _) fun body s _ => h.pure _ s

end Respected

namespace Closed

variable {s : State} {K : ⦃α : Type⦄ → Reader α → State → Prop} (h : Closed K)
include h

section Statements

variable {n : Nat} (hd : (levels n).Respects K)
include hd

omit hd in
theorem extendStatement (hl : s.current.lexeme = .keyword .extend) : K extendStatement s :=
  h.step hl nofun (h.bind (h.templateName _) fun _ s' _ => h.pure _ s')

omit hd in
theorem contentStatement (hl : s.current.lexeme = .keyword .content) : K contentStatement s :=
  h.step hl nofun (h.bind (h.blockName _) fun _ s' _ => h.pure _ s')

theorem includeStatement (hl : s.current.lexeme = .keyword .include_) :
    K (includeStatement (levels n)) s := by
  refine h.step hl nofun (h.bind (h.templateName _) fun name s' _ => ?_)
  refine h.atSymbol (fun hl => h.step hl nofun ?_) (h.pure _ s')
  exact h.bind (hd.assignment _) fun e s'' _ => h.pure _ s''

theorem blockStatement (hl : s.current.lexeme = .keyword .block) :
    K (blockStatement (levels n)) s := by
  refine h.step hl nofun (h.bind (h.blockName _) fun name s₁ _ => ?_)
  refine h.bind (h.skipColon s₁) fun _ s₂ _ => h.bind (hd.statements s₂) fun body s₃ _ => ?_
  exact h.bind (h.expectEnd s₃) fun _ s₄ _ => h.pure _ s₄

theorem outputStatement {escape : Bool} (hl : s.current.lexeme = outputMark escape) :
    K (outputStatement (levels n) escape) s := by
  refine h.step hl (by cases escape <;> nofun) ?_
  exact h.bind (hd.assignment _) fun e s' _ => h.pure _ s'

theorem elseBranch (s : State) : K (elseBranch (levels n)) s := by
  refine h.atKeyword (fun hl => h.step hl nofun ?_) (h.pure _ s)
  exact h.bind (h.skipColon _) fun _ s' _ => hd.statements s'

theorem branchStatement (hl : s.current.lexeme = .keyword .if_) :
    K (branchStatement (levels n)) s := by
  refine h.step hl nofun (h.bind (h.optional (hd.assignment _)) fun test? s₁ _ => ?_)
  refine h.bind (h.skipColon s₁) fun _ s₂ _ => h.bind (hd.statements s₂) fun yes s₃ _ => ?_
  refine h.bind (h.elseBranch hd s₃) fun no s₄ _ => h.bind (h.expectEnd s₄) fun _ s₅ _ => ?_
  exact h.bind (h.found test? s₅) fun test s₆ _ => h.pure _ s₆

theorem loopHead (s : State) : K (loopHead (levels n)) s := by
  refine h.current ?_
  split
  · rename_i x hl
    refine h.step hl nofun (h.atKeyword (fun hl => h.step hl nofun ?_) h.unexpected)
    exact h.bind (hd.assignment _) fun e s' _ => h.pure _ s'
  · exact h.unexpected

theorem loopStatement (hl : s.current.lexeme = .keyword .for_) :
    K (loopStatement (levels n)) s := by
  refine h.step hl nofun (h.bind (h.optional (h.loopHead hd _)) fun head? s₁ _ => ?_)
  refine h.bind (h.skipColon s₁) fun _ s₂ _ => h.bind (hd.statements s₂) fun body s₃ _ => ?_
  refine h.bind (h.expectEnd s₃) fun _ s₄ _ => h.bind (h.found head? s₄) fun head s₅ _ => ?_
  exact h.pure _ s₅

theorem whenArm {read : Arms} (hl : s.current.lexeme = .keyword .when_) :
    K (whenArm (levels n) read) s := by
  refine h.step hl nofun (h.bind (h.optional (hd.assignment _)) fun value? s₁ _ => ?_)
  refine h.bind (h.skipColon s₁) fun _ s₂ _ => h.bind (hd.statements s₂) fun body s₃ _ => ?_
  split
  · exact h.pure _ s₃
  · exact h.pure _ s₃

theorem elseArm {read : Arms} (hl : s.current.lexeme = .keyword .else_) :
    K (elseArm (levels n) read) s := by
  have hbody (arms : List SourceStmt → Arms) (s : State) (hl : s.current.lexeme = .keyword .else_) :
      K (do
        Grammar.advance
        Grammar.skipColon
        let body ← (levels n).statements
        Pure.pure (arms body)) s := by
    refine h.step hl nofun (h.bind (h.skipColon _) fun _ s₁ _ => ?_)
    exact h.bind (hd.statements s₁) fun body s₂ _ => h.pure _ s₂
  unfold Grammar.elseArm
  split
  · refine h.bind (h.note s nofun) fun _ s' hr => hbody _ s' ?_
    cases hr
    exact (s.current_record s.current.position .duplicateElse).symm ▸ hl
  · exact hbody _ s hl

theorem switchStatement (hl : s.current.lexeme = .keyword .switch) :
    K (switchStatement (levels n)) s := by
  refine h.step hl nofun (h.bind (h.optional (hd.assignment _)) fun subject? s₁ _ => ?_)
  refine h.bind (h.skipColon s₁) fun _ s₂ _ => ?_
  refine h.bind (h.switchArms s₂ (fun _ _ => h.whenArm hd) fun _ _ => h.elseArm hd)
    fun read s₃ _ => ?_
  refine h.bind (h.found subject? s₃) fun subject s₄ _ => ?_
  split
  · exact h.pure _ s₄
  · exact h.found none s₄

theorem statement (s : State) : K (statement (levels n)) s := by
  refine h.current ?_
  split
  case h_1 hl => exact h.extendStatement hl
  case h_2 hl => exact h.blockStatement hd hl
  case h_3 hl => exact h.contentStatement hl
  case h_4 hl => exact h.includeStatement hd hl
  case h_5 hl => exact h.outputStatement hd hl
  case h_6 hl => exact h.outputStatement hd hl
  case h_7 hl => exact h.loopStatement hd hl
  case h_8 hl => exact h.switchStatement hd hl
  case h_9 hl => exact h.branchStatement hd hl
  case h_10 => exact h.bind (hd.assignment s) fun e s' _ => h.pure _ s'

end Statements

theorem nestedStatements {r : Reader (List SourceStmt)} (hr : ∀ s, K r s) (s : State) :
    K (nestedStatements r) s :=
  h.bind (h.optional (h.nested s hr)) fun _ s' _ => h.pure _ s'

theorem levels : ∀ n, (levels n).Respects K
  | 0 => ⟨h.nestedStatements h.giveUp, h.giveUp, h.giveUp⟩
  | n + 1 =>
    have hd := levels n
    { statements := h.nestedStatements fun s => h.statementList s (h.statement hd)
      assignment := fun s =>
        h.nested s fun s => h.assignment s (h.conditional (h.carries hd)) hd.assignment
      unary := fun s => h.nested s (h.unary (h.carries hd)) }

theorem template (s : State) : K template s := by
  refine h.repeatUntil [] s fun read s => ?_
  refine h.bind ((h.levels maxNesting).statements s) fun ss s' _ => h.current ?_
  split
  · exact h.pure _ s'
  · exact h.bind (h.skipOver s' nofun) fun _ s'' _ => h.pure _ s''

end Closed

namespace Respected

variable {K : ⦃α : Type⦄ → Reader α → State → Prop} (h : Respected K)
include h

theorem statementPass (hadvance : ∀ s, K Grammar.advance s) {deeper : Deeper}
    (hstatement : ∀ s, K (statement deeper) s) (read : List SourceStmt) (s : State) :
    K (statementPass deeper read) s := by
  refine h.current (h.bind (h.braced s) fun braced s' hr => ?_)
  cases hr
  split
  · exact h.pure _ s
  · split
    · exact h.bind (hadvance s) fun _ s' _ => h.pure _ s'
    · refine h.bind (h.optional (hstatement s)) fun found? s' _ => ?_
      split
      · exact h.pure _ s'
      · exact h.pure _ s'

theorem armPass (hadvance : ∀ s, K Grammar.advance s) {deeper : Deeper}
    (hwhen : ∀ read s, s.current.lexeme = .keyword .when_ → K (whenArm deeper read) s)
    (helse : ∀ read s, s.current.lexeme = .keyword .else_ → K (elseArm deeper read) s)
    (read : Arms) (s : State) : K (armPass deeper read) s := by
  refine h.current ?_
  split
  case h_1 =>
    split
    · exact h.bind (hadvance s) fun _ s' _ => h.pure _ s'
    · exact h.unexpected
  case h_2 hl => exact h.bind (hwhen read s hl) fun _ s' _ => h.pure _ s'
  case h_3 hl => exact h.bind (helse read s hl) fun _ s' _ => h.pure _ s'
  case h_4 => exact h.bind (hadvance s) fun _ s' _ => h.pure _ s'
  case h_5 => exact h.unexpected

theorem closed (hadvance : ∀ s, K Grammar.advance s)
    (hassignment : ∀ {n : Nat} (s : State), (∀ s, K (Grammar.conditional (levels n)) s) →
      (∀ s, K (levels n).assignment s) → K (Grammar.assignment (levels n)) s) : Closed K where
  toRespected := h
  assignment := hassignment
  switchArms s hwhen helse := h.repeatUntil _ s (h.armPass hadvance hwhen helse)
  statementList s hstatement :=
    h.repeatUntil [] s (h.statementPass hadvance hstatement)

end Respected

variable {W : State → Prop} {R : State → State → Prop}

/-- A relation between the states before and after a reader, as long as the states have a property
that is not lost on the way. Neither looks at how many readers are under way or braces open. -/
structure Moves (W : State → Prop) (R : State → State → Prop) : Prop where
  leads {s s' : State} : W s → s.Leads s' → W s'
  within {s : State} (depth braces : Nat) : W s → W { s with depth, braces }
  refl (s : State) : R s s
  trans {s s' s'' : State} : R s s' → R s' s'' → R s s''
  shift (depth braces : Nat) (s : State) : R s { s with depth, braces }
  advance {s : State} : W s → R s s.advance
  record {s : State} {fault : Fault} :
    W s → fault ≠ .tooDeep → R s (s.record s.current.position fault)
  recover {s : State} : W s → R s s.recover
  giveUp {s : State} : W s → R s s.giveUp

def Along (W : State → Prop) (R : State → State → Prop) ⦃α : Type⦄ (r : Reader α) (s : State) :
    Prop :=
  W s → R s (r.run s).2

namespace Moves

variable {α β : Type} {s : State} (m : Moves W R)
include m

theorem bind {r : Reader α} {k : α → Reader β} (hr : Along W R r s)
    (hk : ∀ a s', r.run s = (some a, s') → Along W R (k a) s') : Along W R (r >>= k) s := by
  intro hs
  have hleads := r.leads s
  have hfirst := hr hs
  rcases hrun : r.run s with ⟨_ | a, s'⟩ <;> rw [hrun] at hleads hfirst
  · rwa [run_bind_none hrun]
  · rw [run_bind_some hrun]
    exact m.trans hfirst (hk a s' hrun (m.leads hs hleads))

theorem nested {r : Reader α} (hr : ∀ s, Along W R r s) : Along W R (nested r) s := by
  intro hs
  by_cases hd : maxNesting ≤ s.depth
  · rw [run_nested_limit hd]
    exact m.giveUp hs
  · rw [run_nested_below hd]
    have hdown := m.shift (s.depth + 1) s.braces s
    have hbody := hr _ (m.within (s.depth + 1) s.braces hs)
    exact m.trans hdown (m.trans hbody (m.shift _ _ _))

theorem inBraces {r : Reader α} (hr : ∀ s, Along W R r s) : Along W R (inBraces r) s := by
  intro hs
  have hdown := m.shift s.depth (s.braces + 1) s
  have hbody := hr _ (m.within s.depth (s.braces + 1) hs)
  exact m.trans hdown (m.trans hbody (m.shift _ _ _))

theorem repeatUntil {pass : α → Reader (α ⊕ β)} (a : α) (hpass : ∀ a s, Along W R (pass a) s) :
    Along W R (repeatUntil pass a) s := by
  intro hs
  change R s (passes pass a s).2
  fun_induction passes pass a s with
  | case1 a s a' s' hrun hlt ih =>
    have hleads := (pass a).leads s
    have hfirst := hpass a s hs
    rw [hrun] at hleads hfirst
    exact m.trans hfirst (ih (m.leads hs hleads))
  | case2 a s a' s' hrun | case3 a s b s' hrun | case4 a s s' hrun =>
    simpa only [hrun] using hpass a s hs

theorem failHere {fault : Fault} (hne : fault ≠ .tooDeep) :
    Along W R (failAt s.current.position fault : Reader α) s :=
  fun hs => m.trans (m.record hs hne) (m.recover (m.leads hs (.record ..)))

theorem respected : Respected (Along W R) where
  pure _ s _ := m.refl s
  bind := m.bind
  view _ s _ := m.refl s
  braced s _ := m.refl s
  nextIsColon _ _ := m.refl _
  advance _ hs := m.advance hs
  note _ hne hs := m.record hs hne
  skipOver _ hne := m.failHere (α := Unit) hne
  failHere _ hne := m.failHere hne
  giveUp _ hs := m.giveUp hs
  found _ s _ := m.refl s
  optional hr := hr
  nested _ := m.nested
  inBraces _ := m.inBraces
  repeatUntil a _ := m.repeatUntil a

end Moves
end TextTemplate.Grammar
