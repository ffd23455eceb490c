import TextTemplate.Compile
import TextTemplate.Proofs.Grammar.Derivation
import TextTemplate.Proofs.Grammar.Reading
import TextTemplate.Proofs.Tree.Depth

/-! How deep the nodes of a compiled template lie. Each construct that stands in another is read one
level deeper, of which there are as many as the nesting limit says. Operators, calls, accesses and
conditionals are wrapped around what was read before them on the same level, and are not counted. -/

namespace TextTemplate.Grammar

open Node

variable {α β : Type} {P Q : α → Prop}

def Finds (r : Reader α) (P : α → Prop) : Prop :=
  ∀ s a s', r.run s = (some a, s') → P a

namespace Finds

variable {r : Reader α} {k : α → Reader β} {R : β → Prop}

theorem pure {a : α} (h : P a) : Finds (Pure.pure a) P := by
  intro s b s' hr
  cases hr
  exact h

theorem bind (h : Finds r P) (hk : ∀ a, P a → Finds (k a) R) : Finds (r >>= k) R := by
  intro s b s' hrun
  rcases hr : r.run s with ⟨_ | a, s₁⟩
  · rw [run_bind_none hr] at hrun
    cases hrun
  · rw [run_bind_some hr] at hrun
    exact hk a (h s a s₁ hr) s₁ b s' hrun

theorem after (hk : ∀ a, Finds (k a) R) : Finds (r >>= k) R :=
  bind (P := fun _ => True) (fun _ _ _ _ => trivial) fun a _ => hk a

theorem ite {c : Prop} [Decidable c] {r r' : Reader α} (h : Finds r P) (h' : Finds r' P) :
    Finds (if c then r else r') P := by
  split
  · exact h
  · exact h'

theorem failAt {position : Position} {fault : Fault} : Finds (failAt position fault) P :=
  fun _ _ _ hr => nomatch (Prod.mk.inj hr).1

theorem fail {fault : Fault} : Finds (fail fault) P := after fun _ => failAt

theorem unexpected {what : Expected} : Finds (unexpected what) P := after fun _ => fail

theorem giveUp : Finds giveUp P := fun _ _ _ hr => nomatch (Prod.mk.inj hr).1

theorem optional (h : Finds r P) : Finds (optional r) fun a? => ∀ a ∈ a?, P a := by
  intro s a? s' hr a ha
  cases hr
  exact h s a _ (Prod.ext ha rfl)

theorem found {a? : Option α} (h : ∀ a ∈ a?, P a) : Finds (found a?) P :=
  fun _ a _ hr => h a (Prod.mk.inj hr).1

theorem nested (h : Finds r P) : Finds (nested r) P := by
  intro s a s' hr
  by_cases hd : maxNesting ≤ s.depth
  · rw [run_nested_limit hd] at hr
    cases hr
  · rw [run_nested_below hd] at hr
    exact h _ a _ (Prod.ext (Prod.mk.inj hr).1 rfl)

theorem inBraces (h : Finds r P) : Finds (inBraces r) P :=
  fun _ a _ hr => h _ a _ (Prod.ext (Prod.mk.inj hr).1 rfl)

theorem repeatUntil {pass : α → Reader (α ⊕ β)} {a : α} (I : α → Prop) (ha : I a)
    (h : ∀ a, I a → Finds (pass a) (Sum.elim I R)) : Finds (repeatUntil pass a) R := by
  intro s b s' hr
  change passes pass a s = (some b, s') at hr
  fun_induction passes pass a s with
  | case1 a s a' s₁ hrun hlt ih => exact ih (h a ha s (.inl a') s₁ hrun) hr
  | case2 | case4 => cases hr
  | case3 a s b' s₁ hrun =>
    cases hr
    exact h a ha s (.inr b) s' hrun

theorem leftAssociative {operator? : Lexeme → Option (α → α → α)} (h : Finds r P)
    (hcombine : ∀ l combine, operator? l = some combine → ∀ a b, P a → P b → P (combine a b)) :
    Finds (leftAssociative r operator?) P := by
  refine bind h fun a ha => repeatUntil P ha fun a ha => after fun t => ?_
  split
  · rename_i combine hl
    exact after fun _ => bind h fun b hb => pure (hcombine _ _ hl a b ha hb)
  · exact pure ha

theorem separated {closing : Symbol} {what : Expected} (h : Finds r P) :
    Finds (separated r closing what) fun as => ∀ a ∈ as, P a := by
  refine after fun _ => ite (after fun _ => pure nofun) ?_
  refine repeatUntil (fun as => ∀ a ∈ as, P a) nofun fun as has => bind h fun a ha => ?_
  have hread : ∀ b ∈ a :: as, P b := List.forall_mem_cons.2 ⟨ha, has⟩
  refine after fun _ => ite (after fun _ => pure hread) ?_
  refine after fun _ => ite (after fun _ => pure fun b hb => ?_) unexpected
  exact hread b (List.mem_reverse.1 hb)

end Finds

def Shallow (n : Nat) (e : SourceExpr) : Prop := (expr e).Within n

def ShallowStmts (n : Nat) (ss : List SourceStmt) : Prop := ∀ s ∈ ss, (stmt s).Within n

structure Deeper.Finds (n : Nat) (deeper : Deeper) : Prop where
  statements : Grammar.Finds deeper.statements (ShallowStmts n)
  assignment : Grammar.Finds deeper.assignment (Shallow n)
  unary : Grammar.Finds deeper.unary (Shallow n)

namespace Finds

variable {n : Nat} {deeper : Deeper} (h : deeper.Finds n)
include h

theorem mapEntry : Finds (mapEntry deeper) fun entry => Shallow n entry.2 := by
  refine after fun t => ?_
  split
  · exact unexpected
  · refine after fun _ => ite (after fun _ => after fun _ => ?_) fail
    exact bind h.assignment fun e he => pure he

theorem lambdaBody : Finds (lambdaBody deeper) (ShallowStmts n) := by
  refine after fun _ => ite (after fun _ => ?_) ?_
  · refine bind (inBraces h.statements) fun body hbody => after fun _ => ite ?_ unexpected
    exact after fun _ => pure hbody
  · exact bind h.statements fun body hbody => after fun _ => pure hbody

theorem parenthesized : Finds (parenthesized deeper) (Shallow (n + 1)) := by
  refine after fun _ => bind (separated h.assignment) fun items hitems => after fun _ => ite ?_ ?_
  · split
    · refine after fun _ => bind (lambdaBody h) fun body hbody => pure ?_
      exact within_succ nofun (List.forall_mem_map.2 hbody)
    · exact fail
  · split
    · exact fail
    · exact pure (hitems _ (List.mem_singleton_self _)).succ
    · exact pure (within_succ nofun (List.forall_mem_map.2 hitems))

theorem primary : Finds (primary deeper) (Shallow (n + 1)) := by
  refine after fun t => ?_
  split
  case h_8 => exact parenthesized h
  case h_9 =>
    refine after fun _ => bind (separated h.assignment) fun items hitems => pure ?_
    exact within_succ nofun (List.forall_mem_map.2 hitems)
  case h_10 =>
    refine after fun _ => bind (separated (mapEntry h)) fun entries hentries => pure ?_
    exact within_succ nofun (List.forall_mem_map.2 hentries)
  case h_11 => exact unexpected
  case h_7 => exact after fun _ => after fun _ => pure (within_leaf rfl rfl)
  all_goals exact after fun _ => pure (within_leaf rfl rfl)

theorem callMember : Finds (callMember deeper) (Shallow (n + 1)) := by
  refine bind (primary h) fun e he => repeatUntil (Shallow (n + 1)) he fun e he => ?_
  refine after fun t => ?_
  split
  case h_1 =>
    refine after fun _ => bind (separated h.assignment) fun args hargs => pure ?_
    exact within_succ (List.forall_mem_singleton.2 he) (List.forall_mem_map.2 hargs)
  case h_2 | h_3 =>
    refine after fun _ => after fun name => pure ?_
    exact within_succ (List.forall_mem_singleton.2 he) nofun
  case h_4 => exact pure he

omit h in
theorem updateOf (op : UpdateOp) (before : Bool) (e : SourceExpr) :
    Finds (updateOf op before e) (Shallow (n + 1)) := by
  unfold Grammar.updateOf
  split
  · exact pure (within_leaf rfl rfl)
  · exact fail

theorem postfixed : Finds (postfixed deeper) (Shallow (n + 1)) := by
  refine bind (callMember h) fun e he => after fun t => ?_
  split
  · exact bind (updateOf _ false e) fun e he => after fun _ => pure he
  · exact pure he

theorem unary : Finds (unary deeper) (Shallow (n + 1)) := by
  refine after fun t => ?_
  dsimp only
  split
  · refine after fun _ => bind h.unary fun e he => pure ?_
    exact within_succ nofun (List.forall_mem_singleton.2 he)
  · exact after fun _ => after fun e => updateOf _ true e
  · exact postfixed h

omit h in
theorem operator (level : Level) {r : Reader SourceExpr} (hr : Finds r (Shallow (n + 1))) :
    Finds (Grammar.leftAssociative r level.operator?) (Shallow (n + 1)) := by
  refine leftAssociative hr fun l combine hl lhs rhs hlhs hrhs => ?_
  obtain ⟨op, -, -, rfl⟩ := exists_operator hl
  have hoperands : ∀ y ∈ [expr lhs, expr rhs], y.Within (n + 1) :=
    List.forall_mem_cons.2 ⟨hlhs, List.forall_mem_singleton.2 hrhs⟩
  cases op <;> exact within_succ hoperands nofun

theorem logical : Finds (logical deeper) (Shallow (n + 1)) := by
  have hmultiplicative : Finds (multiplicative deeper) (Shallow (n + 1)) :=
    operator .multiplicative (unary h)
  have hadditive : Finds (additive deeper) (Shallow (n + 1)) :=
    operator .additive hmultiplicative
  have hcomparison : Finds (comparison deeper) (Shallow (n + 1)) :=
    operator .relational hadditive
  have hequality : Finds (equality deeper) (Shallow (n + 1)) :=
    operator .equality hcomparison
  exact operator .logical hequality

theorem conditional : Finds (conditional deeper) (Shallow (n + 1)) := by
  refine bind (logical h) fun test htest => after fun _ => ite ?_ (pure htest)
  refine after fun _ => bind h.assignment fun yes hyes => after fun _ => ite ?_ unexpected
  refine after fun _ => bind h.assignment fun no hno => pure ?_
  refine within_succ (List.forall_mem_singleton.2 htest) ?_
  exact List.forall_mem_cons.2 ⟨hyes, List.forall_mem_singleton.2 hno⟩

theorem assignment : Finds (assignment deeper) (Shallow (n + 1)) := by
  refine after fun t => bind (conditional h) fun lhs hlhs => after fun t' => ?_
  split
  · exact pure hlhs
  · split
    · refine after fun _ => bind h.assignment fun value hvalue => pure ?_
      exact within_succ nofun (List.forall_mem_singleton.2 hvalue)
    · exact failAt

theorem elseBranch : Finds (elseBranch deeper) (ShallowStmts n) :=
  after fun _ => ite (after fun _ => after fun _ => h.statements) (pure nofun)

theorem loopHead : Finds (loopHead deeper) fun head => Shallow n head.2 := by
  refine after fun t => ?_
  split
  · refine after fun _ => after fun _ => ite (after fun _ => ?_) unexpected
    exact bind h.assignment fun e he => pure he
  · exact unexpected

def ShallowArms (n : Nat) (read : Arms) : Prop :=
  ∀ arm ∈ read.arms, ∀ x ∈ armParts arm, x.Within n

omit h in
theorem shallowArms_cons {value? : Option SourceExpr} {body : List SourceStmt} {read : Arms}
    {complete : Bool} (hvalue : ∀ e ∈ value?, Shallow n e) (hbody : ShallowStmts n body)
    (hread : ShallowArms n read) : ShallowArms n ⟨(value?, body) :: read.arms, complete⟩ := by
  refine List.forall_mem_cons.2 ⟨fun x hx => ?_, hread⟩
  rcases List.mem_append.1 hx with hx | hx
  · obtain ⟨e, he, rfl⟩ := List.mem_map.1 hx
    exact hvalue e (Option.mem_toList.1 he)
  · obtain ⟨s, hs, rfl⟩ := List.mem_map.1 hx
    exact hbody s hs

theorem whenArm {read : Arms} (hread : ShallowArms n read) :
    Finds (whenArm deeper read) (ShallowArms n) := by
  refine after fun _ => bind (optional h.assignment) fun value? hvalue => after fun _ => ?_
  refine bind h.statements fun body hbody => ?_
  split
  · exact pure (shallowArms_cons hvalue hbody hread)
  · exact pure hread

theorem elseArm {read : Arms} (hread : ShallowArms n read) :
    Finds (elseArm deeper read) (ShallowArms n) := by
  unfold Grammar.elseArm
  split
  · exact after fun _ => after fun _ => after fun _ => after fun body => pure hread
  · refine after fun _ => after fun _ => bind h.statements fun body hbody => pure ?_
    exact shallowArms_cons nofun hbody hread

theorem switchArms : Finds (switchArms deeper) (ShallowArms n) := by
  refine repeatUntil (ShallowArms n) nofun fun read hread => after fun t => ?_
  split
  case h_1 =>
    split
    · exact after fun _ => pure hread
    · exact unexpected
  case h_2 => exact bind (whenArm h hread) fun read hread => pure hread
  case h_3 => exact bind (elseArm h hread) fun read hread => pure hread
  case h_4 => exact after fun _ => pure hread
  case h_5 => exact unexpected

theorem statement : Finds (statement deeper) fun s => (stmt s).Within (n + 1) := by
  refine after fun t => ?_
  split
  case h_1 | h_3 => exact after fun _ => after fun _ => pure (within_leaf rfl rfl)
  case h_2 =>
    refine after fun _ => after fun _ => after fun _ => bind h.statements fun body hbody => ?_
    exact after fun _ => pure (within_succ nofun (List.forall_mem_map.2 hbody))
  case h_4 =>
    refine after fun _ => after fun name => after fun _ => ite (after fun _ => ?_) ?_
    · refine bind h.assignment fun e he => pure ?_
      exact within_succ nofun (List.forall_mem_singleton.2 he)
    · exact pure (within_leaf rfl rfl)
  case h_5 | h_6 =>
    refine after fun _ => bind h.assignment fun e he => pure ?_
    exact within_succ nofun (List.forall_mem_singleton.2 he)
  case h_7 =>
    refine after fun _ => bind (optional (loopHead h)) fun head? hhead => after fun _ => ?_
    refine bind h.statements fun body hbody => ?_
    refine after fun _ => bind (found hhead) fun head hhead => ?_
    exact pure (within_succ nofun (List.forall_mem_cons.2 ⟨hhead, List.forall_mem_map.2 hbody⟩))
  case h_8 =>
    refine after fun _ => bind (optional h.assignment) fun subject? hsubject => after fun _ => ?_
    refine bind (switchArms h) fun read hread => bind (found hsubject) fun subject hsubject => ?_
    split
    · refine pure (within_succ nofun (List.forall_mem_cons.2 ⟨hsubject, fun x hx => ?_⟩))
      obtain ⟨arm, harm, hx⟩ := List.mem_flatMap.1 hx
      exact hread arm (List.mem_reverse.1 harm) x hx
    · exact found nofun
  case h_9 =>
    refine after fun _ => bind (optional h.assignment) fun test? htest => after fun _ => ?_
    refine bind h.statements fun yes hyes => bind (elseBranch h) fun no hno => after fun _ => ?_
    refine bind (found htest) fun test htest => pure ?_
    refine within_succ nofun (List.forall_mem_cons.2 ⟨htest, List.forall_mem_append.2 ?_⟩)
    exact ⟨List.forall_mem_map.2 hyes, List.forall_mem_map.2 hno⟩
  case h_10 =>
    refine bind h.assignment fun e he => pure ?_
    exact within_succ nofun (List.forall_mem_singleton.2 he)

theorem statementList : Finds (statementList deeper) (ShallowStmts (n + 1)) := by
  refine repeatUntil (ShallowStmts (n + 1)) nofun fun read hread => after fun t => after fun _ => ?_
  refine ite (pure fun s hs => hread s (List.mem_reverse.1 hs)) ?_
  split
  · refine after fun _ => pure ?_
    show ShallowStmts (n + 1) (if _ then read else _)
    split
    · exact hread
    · exact List.forall_mem_cons.2 ⟨within_leaf rfl rfl, hread⟩
  · refine bind (optional (statement h)) fun s? hs => ?_
    split
    · exact pure (List.forall_mem_cons.2 ⟨hs _ rfl, hread⟩)
    · exact pure hread

omit h in
theorem nestedStatements {r : Reader (List SourceStmt)} (hr : Finds r (ShallowStmts n)) :
    Finds (nestedStatements r) (ShallowStmts n) := by
  refine bind (optional (nested hr)) fun ss? hss => pure ?_
  cases ss? with
  | none => exact nofun
  | some ss => exact hss ss rfl

end Finds

theorem finds_levels : ∀ n, (levels n).Finds n
  | 0 => ⟨.nestedStatements .giveUp, .giveUp, .giveUp⟩
  | n + 1 =>
    have h := finds_levels n
    ⟨.nestedStatements (.statementList h), .nested (.assignment h), .nested (.unary h)⟩

theorem finds_template : Finds template (ShallowStmts maxNesting) := by
  refine .repeatUntil (ShallowStmts maxNesting) nofun fun read hread => ?_
  refine .bind (finds_levels maxNesting).statements fun ss hss => .after fun t => ?_
  have hall : ShallowStmts maxNesting (read ++ ss) := List.forall_mem_append.2 ⟨hread, hss⟩
  split
  · exact .pure hall
  · exact .after fun _ => .pure hall

theorem shallow_of_read {tokens : List Token} {tree : List SourceStmt}
    (h : read tokens = .ok tree) : ShallowStmts maxNesting tree := by
  unfold read at h
  split at h
  · rename_i tree' s hrun
    split at h
    · cases h
      exact finds_template _ _ _ hrun
    · cases h
  · cases h

end TextTemplate.Grammar

namespace TextTemplate

open Grammar

/-- A node of a compiled program lies inside fewer others than the nesting limit says, apart from
operators, calls, accesses and conditionals that are applied to what it lies in: for each of these
it may lie one deeper. -/
theorem nesting_of_compile {delimiters : Delimiters} {name source : String} {p : Program}
    (h : compile delimiters name source = .ok p) {s : SlotStmt} (hs : s ∈ p.body) {j k : Nat}
    {x : Node Nat Nat} (hx : (Node.stmt s).Inside j k x) : j < maxNesting + k := by
  unfold compile at h
  split at h
  · rename_i tree hread
    cases h
    exact Program.within_ofTree (shallow_of_read hread) s hs j k x hx
  · cases h

theorem exists_inside (delimiters : Delimiters) (name source : String) (j : Nat)
    {cs : List Char} (hcs : source.toList = cs)
    (h : ((read (Scanner.mk delimiters .text cs .start).tokens).toOption.bind fun tree =>
      (Program.ofTree name tree).body.head?.bind fun s => (Node.stmt s).descend j).isSome = true) :
    ∃ p s k x, compile delimiters name source = .ok p ∧ s ∈ p.body ∧
      (Node.stmt s).Inside j k x := by
  obtain ⟨x, hx⟩ := Option.isSome_iff_exists.1 h
  obtain ⟨tree, htree, hx⟩ := Option.bind_eq_some_iff.1 hx
  obtain ⟨s, hs, hx⟩ := Option.bind_eq_some_iff.1 hx
  obtain ⟨k, hk⟩ := Node.inside_of_descend hx
  refine ⟨Program.ofTree name tree, s, k, x, ?_, List.mem_of_mem_head? hs, hk⟩
  rw [compile, readTemplate, Scanner.ofString, hcs]
  cases hread : read (Scanner.mk delimiters .text cs .start).tokens with
  | error => simp [hread, Except.toOption] at htree
  | ok tree' =>
    obtain rfl : tree' = tree := by simpa [hread, Except.toOption] using htree
    rfl

theorem nesting_of_compile_lambda :
    ∃ p s k x, compile .default "page" "<%f = (n) -> n + 1 end%>" = .ok p ∧ s ∈ p.body ∧
      (Node.stmt s).Inside 5 k x ∧ 5 < maxNesting + k := by
  obtain ⟨p, s, k, x, hp, hs, hx⟩ :=
    exists_inside .default "page" "<%f = (n) -> n + 1 end%>" 5 rfl (by decide +kernel)
  exact ⟨p, s, k, x, hp, hs, hx, nesting_of_compile hp hs hx⟩

def longSum : String :=
  String.ofList ("<%= a".toList ++ (List.replicate 128 "+a".toList).flatten ++ " %>".toList)

/-- Operators are not counted: the first term lies inside the output and all the sums. -/
theorem longSum_beyond_limit : ∃ p s k x, compile .default "page" longSum = .ok p ∧ s ∈ p.body ∧
    (Node.stmt s).Inside 129 k x ∧ maxNesting < 129 := by
  obtain ⟨p, s, k, x, hp, hs, hx⟩ :=
    exists_inside .default "page" longSum 129 String.toList_ofList (by decide +kernel)
  exact ⟨p, s, k, x, hp, hs, hx, by decide⟩

end TextTemplate
