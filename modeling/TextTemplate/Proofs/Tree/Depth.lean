import TextTemplate.Proofs.Tree.Numbering

/-! How deep a part of a tree lies. What an operator, a call, an access or a conditional is applied
to is told apart from all other parts, which stand in a construct of their own. -/

namespace TextTemplate

inductive Node (ν ι : Type) where
  | expr (e : Expr ν ι)
  | stmt (s : Stmt ν ι)

namespace Node

section Parts

variable {ν ι : Type}

def operands : Node ν ι → List (Node ν ι)
  | expr (.member target _ _) => [expr target]
  | expr (.call callee _) => [expr callee]
  | expr (.binary _ lhs rhs) | expr (.logical _ lhs rhs) => [expr lhs, expr rhs]
  | expr (.conditional test _ _) => [expr test]
  | _ => []

def armParts (arm : Option (Expr ν ι) × List (Stmt ν ι)) : List (Node ν ι) :=
  arm.1.toList.map expr ++ arm.2.map stmt

def enclosed : Node ν ι → List (Node ν ι)
  | expr (.call _ args) => args.map expr
  | expr (.array items) | expr (.sequence items) => items.map expr
  | expr (.map entries) => entries.map fun entry => expr entry.2
  | expr (.unary _ operand) => [expr operand]
  | expr (.conditional _ yes no) => [expr yes, expr no]
  | expr (.assign _ _ value) => [expr value]
  | expr (.lambda _ _ body) => body.map stmt
  | stmt (.output _ value) | stmt (.expr value) => [expr value]
  | stmt (.include _ argument) => argument.toList.map expr
  | stmt (.block _ body) => body.map stmt
  | stmt (.branch test yes no) => expr test :: (yes.map stmt ++ no.map stmt)
  | stmt (.loop _ collection body) => expr collection :: body.map stmt
  | stmt (.switch subject arms) =>
    expr subject :: arms.flatMap armParts
  | _ => []

/-- A node lies inside `j` others up to the one it is looked at from; `k` of these are applied to
what it lies in. -/
inductive Inside : Node ν ι → Nat → Nat → Node ν ι → Prop
  | here (x : Node ν ι) : Inside x 0 0 x
  | operand {x y z : Node ν ι} {j k : Nat} (hy : y ∈ x.operands) (h : Inside y j k z) :
      Inside x (j + 1) (k + 1) z
  | enclosed {x y z : Node ν ι} {j k : Nat} (hy : y ∈ x.enclosed) (h : Inside y j k z) :
      Inside x (j + 1) k z

def Within (n : Nat) (x : Node ν ι) : Prop :=
  ∀ j k y, x.Inside j k y → j < n + k

variable {n : Nat} {x y : Node ν ι}

theorem Within.succ (h : x.Within n) : x.Within (n + 1) := by
  intro j k z hz
  have hlt := h j k z hz
  omega

theorem within_succ (hoperands : ∀ y ∈ x.operands, y.Within (n + 1))
    (henclosed : ∀ y ∈ x.enclosed, y.Within n) : x.Within (n + 1) := by
  intro j k z hz
  cases hz with
  | here => exact Nat.zero_lt_succ n
  | operand hy h =>
    have hlt := hoperands _ hy _ _ _ h
    omega
  | enclosed hy h =>
    have hlt := henclosed _ hy _ _ _ h
    omega

theorem within_leaf (hoperands : x.operands = []) (henclosed : x.enclosed = []) :
    x.Within (n + 1) :=
  within_succ (by simp [hoperands]) (by simp [henclosed])

def descend : Nat → Node ν ι → Option (Node ν ι)
  | 0, x => some x
  | j + 1, x => (x.operands ++ x.enclosed).head?.bind (descend j)

theorem inside_of_descend {j : Nat} (h : x.descend j = some y) : ∃ k, x.Inside j k y := by
  induction j generalizing x with
  | zero =>
    obtain rfl := Option.some.inj h
    exact ⟨0, .here x⟩
  | succ j ih =>
    obtain ⟨z, hz, hy⟩ := Option.bind_eq_some_iff.1 h
    obtain ⟨k, hk⟩ := ih hy
    rcases List.mem_append.1 (List.mem_of_mem_head? hz) with hz | hz
    · exact ⟨k + 1, .operand hz hk⟩
    · exact ⟨k, .enclosed hz hk⟩

end Parts

section Relabel

variable {ν ν' ι ι' : Type} (f : ν → ν') (g : ι → ι')

def relabelExpr (e : Expr ν ι) : Expr ν' ι' :=
  Id.run (e.traverse (fun x => pure (f x)) fun i => pure (g i))

def relabelStmt (s : Stmt ν ι) : Stmt ν' ι' :=
  Id.run (s.traverse (fun x => pure (f x)) fun i => pure (g i))

def relabel : Node ν ι → Node ν' ι'
  | expr e => expr (relabelExpr f g e)
  | stmt s => stmt (relabelStmt f g s)

theorem exprs_relabel (es : List (Expr ν ι)) :
    (Id.run (Expr.traverseList (fun x => pure (f x)) (fun i => pure (g i)) es)).map expr
      = (es.map expr).map (relabel f g) := by
  induction es with
  | nil => rfl
  | cons e es ih => exact congrArg (expr (relabelExpr f g e) :: ·) ih

theorem entries_relabel (es : List (String × Expr ν ι)) :
    (Id.run (Expr.traverseEntries (fun x => pure (f x)) (fun i => pure (g i)) es)).map
        (fun entry => expr entry.2)
      = (es.map fun entry => expr entry.2).map (relabel f g) := by
  induction es with
  | nil => rfl
  | cons e es ih => exact congrArg (expr (relabelExpr f g e.2) :: ·) ih

theorem stmts_relabel (ss : List (Stmt ν ι)) :
    (Stmt.relabel f g ss).map stmt = (ss.map stmt).map (relabel f g) := by
  induction ss with
  | nil => rfl
  | cons s ss ih => exact congrArg (stmt (relabelStmt f g s) :: ·) ih

theorem arms_relabel (arms : List (Option (Expr ν ι) × List (Stmt ν ι))) :
    (Id.run (Stmt.traverseArms (fun x => pure (f x)) (fun i => pure (g i)) arms)).flatMap armParts
      = (arms.flatMap armParts).map (relabel f g) := by
  induction arms with
  | nil => rfl
  | cons arm arms ih =>
    obtain ⟨value?, body⟩ := arm
    have hbody := stmts_relabel f g body
    rw [List.flatMap_cons, List.map_append, ← ih, armParts, List.map_append, ← hbody]
    cases value? <;> rfl

theorem operands_relabel (x : Node ν ι) :
    (x.relabel f g).operands = x.operands.map (relabel f g) := by
  cases x with
  | expr e => cases e <;> rfl
  | stmt s =>
    cases s with
    | «include» name argument => cases argument <;> rfl
    | _ => rfl

theorem enclosed_relabel (x : Node ν ι) :
    (x.relabel f g).enclosed = x.enclosed.map (relabel f g) := by
  cases x with
  | expr e =>
    cases e with
    | call _ es | array es | sequence es => exact exprs_relabel f g es
    | map entries => exact entries_relabel f g entries
    | lambda _ _ body => exact stmts_relabel f g body
    | _ => rfl
  | stmt s =>
    cases s with
    | «include» name argument => cases argument <;> rfl
    | block _ body => exact stmts_relabel f g body
    | branch test yes no =>
      have hbodies := congr (congrArg (· ++ ·) (stmts_relabel f g yes)) (stmts_relabel f g no)
      refine Eq.trans ?_ (congrArg (expr (relabelExpr f g test) :: ·) List.map_append.symm)
      exact congrArg (expr (relabelExpr f g test) :: ·) hbodies
    | loop _ collection body =>
      exact congrArg (expr (relabelExpr f g collection) :: ·) (stmts_relabel f g body)
    | switch subject arms =>
      exact congrArg (expr (relabelExpr f g subject) :: ·) (arms_relabel f g arms)
    | _ => rfl

theorem Inside.relabel {x z : Node ν ι} {j k : Nat} (h : x.Inside j k z) :
    (x.relabel f g).Inside j k (z.relabel f g) := by
  induction h with
  | here => exact .here _
  | operand hy _ ih =>
    refine .operand ?_ ih
    rw [operands_relabel]
    exact List.mem_map_of_mem hy
  | enclosed hy _ ih =>
    refine .enclosed ?_ ih
    rw [enclosed_relabel]
    exact List.mem_map_of_mem hy

theorem inside_of_relabel {x : Node ν ι} {z : Node ν' ι'} {j k : Nat}
    (h : (x.relabel f g).Inside j k z) : ∃ y, x.Inside j k y := by
  generalize hx : x.relabel f g = x' at h
  induction h generalizing x with
  | here => exact ⟨x, .here x⟩
  | operand hy _ ih =>
    rw [← hx, operands_relabel] at hy
    obtain ⟨y, hy, hyx⟩ := List.mem_map.1 hy
    obtain ⟨z, hz⟩ := ih hyx
    exact ⟨z, .operand hy hz⟩
  | enclosed hy _ ih =>
    rw [← hx, enclosed_relabel] at hy
    obtain ⟨y, hy, hyx⟩ := List.mem_map.1 hy
    obtain ⟨z, hz⟩ := ih hyx
    exact ⟨z, .enclosed hy hz⟩

theorem within_relabel {n : Nat} {x : Node ν ι} : (x.relabel f g).Within n ↔ x.Within n := by
  constructor
  · intro h j k y hy
    exact h j k _ (hy.relabel f g)
  · intro h j k y hy
    obtain ⟨z, hz⟩ := inside_of_relabel f g hy
    exact h j k z hz

theorem forall_within_relabel {n : Nat} {ss : List (Stmt ν ι)} :
    (∀ s ∈ Stmt.relabel f g ss, (stmt s).Within n) ↔ ∀ s ∈ ss, (stmt s).Within n := by
  have hstmts := stmts_relabel f g ss
  calc (∀ s ∈ Stmt.relabel f g ss, (stmt s).Within n)
      ↔ ∀ x ∈ (Stmt.relabel f g ss).map stmt, x.Within n := List.forall_mem_map.symm
    _ ↔ ∀ s ∈ ss, (stmt s).Within n := by
      rw [hstmts]
      simp only [List.forall_mem_map, within_relabel]

end Relabel

theorem within_text {ν ι : Type} {n : Nat} (c : String) :
    (stmt (.text c : Stmt ν ι)).Within n ↔ 0 < n := by
  constructor
  · intro h
    exact h 0 0 _ (.here _)
  · intro h
    obtain ⟨n, rfl⟩ := Nat.exists_eq_succ_of_ne_zero (Nat.ne_of_gt h)
    exact within_leaf rfl rfl

end Node

namespace Program

theorem within_ofTree {name : String} {tree : List SourceStmt} {n : Nat}
    (h : ∀ s ∈ tree, (Node.stmt s).Within n) :
    ∀ s ∈ (ofTree name tree).body, (Node.stmt s).Within n := by
  intro s hs
  have hbody := congrArg (List.map Node.stmt) (body_ofTree name tree)
  rw [Node.stmts_relabel, Node.stmts_relabel] at hbody
  have hmem := List.mem_map_of_mem (f := Node.relabel some fun _ => ())
    (List.mem_map_of_mem (f := Node.stmt) hs)
  rw [hbody] at hmem
  obtain ⟨x, hx, hxs⟩ := List.mem_map.1 hmem
  obtain ⟨t, ht, rfl⟩ := List.mem_map.1 hx
  rw [← Node.within_relabel some fun _ => (), ← hxs, Node.within_relabel]
  exact h t ht

end Program
end TextTemplate
