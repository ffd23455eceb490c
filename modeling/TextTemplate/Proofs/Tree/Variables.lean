import TextTemplate.Proofs.Tree.Numbering

/-! Trees whose variables all have a property. The predicate is given along the tree, as the
interpreter walks over it, and says the same as the list of all variables. -/

namespace TextTemplate

variable {ν ν' ι ι' : Type}

section Over

variable (p : ν → Prop)

mutual

def Expr.Over : Expr ν ι → Prop
  | .literal _ => True
  | .var x => p x
  | .selfMember _ => True
  | .member target _ _ => target.Over
  | .call callee args => callee.Over ∧ Expr.OverList args
  | .array items => Expr.OverList items
  | .map entries => Expr.OverEntries entries
  | .unary _ operand => operand.Over
  | .update _ _ x => p x
  | .binary _ lhs rhs => lhs.Over ∧ rhs.Over
  | .logical _ lhs rhs => lhs.Over ∧ rhs.Over
  | .conditional test yes no => test.Over ∧ yes.Over ∧ no.Over
  | .assign x _ value => p x ∧ value.Over
  | .sequence items => Expr.OverList items
  | .lambda _ params body => (∀ x ∈ params, p x) ∧ Stmt.OverList body

def Expr.OverList : List (Expr ν ι) → Prop
  | [] => True
  | e :: es => e.Over ∧ Expr.OverList es

def Expr.OverEntries : List (String × Expr ν ι) → Prop
  | [] => True
  | (_, e) :: es => e.Over ∧ Expr.OverEntries es

def Stmt.Over : Stmt ν ι → Prop
  | .text _ => True
  | .output _ value => value.Over
  | .extend _ => True
  | .include _ none => True
  | .include _ (some argument) => argument.Over
  | .block _ body => Stmt.OverList body
  | .content _ => True
  | .branch test yes no => test.Over ∧ Stmt.OverList yes ∧ Stmt.OverList no
  | .loop x collection body => p x ∧ collection.Over ∧ Stmt.OverList body
  | .switch subject arms => subject.Over ∧ Stmt.OverArms arms
  | .expr value => value.Over

def Stmt.OverList : List (Stmt ν ι) → Prop
  | [] => True
  | s :: ss => s.Over ∧ Stmt.OverList ss

def Stmt.OverArms : List (Option (Expr ν ι) × List (Stmt ν ι)) → Prop
  | [] => True
  | (none, body) :: arms => Stmt.OverList body ∧ Stmt.OverArms arms
  | (some value, body) :: arms => value.Over ∧ Stmt.OverList body ∧ Stmt.OverArms arms

end

end Over

namespace Variables

variable {β γ : Type} {p : ν → Prop}

/-- The variables that an action notes all have the property `p` if and only if `q` holds. -/
def Collects (p : ν → Prop) (note : StateM (List ν) β) (q : Prop) : Prop :=
  ∀ seen, (∀ x ∈ (note seen).2, p x) ↔ (∀ x ∈ seen, p x) ∧ q

namespace Collects

variable {note : StateM (List ν) β} {q q' : Prop}

theorem pure (b : β) : Collects p (Pure.pure b) True := fun _ => (and_iff_left trivial).symm

theorem bind {k : β → StateM (List ν) γ} (h : Collects p note q) (hk : ∀ b, Collects p (k b) q') :
    Collects p (note >>= k) (q ∧ q') := fun seen => by
  rw [← and_assoc, ← h seen]
  exact hk _ _

theorem map {f : β → γ} (h : Collects p note q) :
    Collects p (note >>= fun b => Pure.pure (f b)) q := h

theorem single (x : ν) : Collects p (noteVariable x) (p x) := fun seen => by
  show (∀ y ∈ seen ++ [x], p y) ↔ _
  simp [or_imp, forall_and]

theorem afterLambda {k : Unit → StateM (List ν) γ} (h : Collects p (k ()) q) :
    Collects p ((Pure.pure () : StateM (List ν) Unit) >>= k) q := h

theorem names (xs : List ν) : Collects p (traverseNames noteVariable xs) (∀ x ∈ xs, p x) := by
  induction xs with
  | nil =>
    exact fun seen => (and_iff_left fun _ hx => nomatch hx).symm
  | cons x xs ih =>
    rw [List.forall_mem_cons]
    exact .bind (.single x) fun _ => .map ih

mutual

theorem expr : ∀ e : Expr ν ι,
    Collects p (e.traverse noteVariable fun _ => Pure.pure ()) (e.Over p)
  | .literal _ => .pure _
  | .var x => .map (.single x)
  | .selfMember _ => .pure _
  | .member target _ _ => .map (expr target)
  | .call callee args => .bind (expr callee) fun _ => .map (exprs args)
  | .array items => .map (exprs items)
  | .map entries => .map (mapEntries entries)
  | .unary _ operand => .map (expr operand)
  | .update _ _ x => .map (.single x)
  | .binary _ lhs rhs => .bind (expr lhs) fun _ => .map (expr rhs)
  | .logical _ lhs rhs => .bind (expr lhs) fun _ => .map (expr rhs)
  | .conditional test yes no =>
    .bind (expr test) fun _ => .bind (expr yes) fun _ => .map (expr no)
  | .assign x _ value => .bind (.single x) fun _ => .map (expr value)
  | .sequence items => .map (exprs items)
  | .lambda _ params body => .afterLambda (.bind (.names params) fun _ => .map (stmts body))

theorem exprs : ∀ es : List (Expr ν ι),
    Collects p (Expr.traverseList noteVariable (fun _ => Pure.pure ()) es) (Expr.OverList p es)
  | [] => .pure _
  | e :: es => .bind (expr e) fun _ => .map (exprs es)

theorem mapEntries : ∀ es : List (String × Expr ν ι),
    Collects p (Expr.traverseEntries noteVariable (fun _ => Pure.pure ()) es)
      (Expr.OverEntries p es)
  | [] => .pure _
  | (_, e) :: es => .bind (expr e) fun _ => .map (mapEntries es)

theorem stmt : ∀ s : Stmt ν ι,
    Collects p (s.traverse noteVariable fun _ => Pure.pure ()) (s.Over p)
  | .text _ => .pure _
  | .output _ value => .map (expr value)
  | .extend _ => .pure _
  | .include _ none => .pure _
  | .include _ (some argument) => .map (expr argument)
  | .block _ body => .map (stmts body)
  | .content _ => .pure _
  | .branch test yes no =>
    .bind (expr test) fun _ => .bind (stmts yes) fun _ => .map (stmts no)
  | .loop x collection body =>
    .bind (.single x) fun _ => .bind (expr collection) fun _ => .map (stmts body)
  | .switch subject arms => .bind (expr subject) fun _ => .map (switchArms arms)
  | .expr value => .map (expr value)

theorem stmts : ∀ ss : List (Stmt ν ι),
    Collects p (Stmt.traverseList noteVariable (fun _ => Pure.pure ()) ss) (Stmt.OverList p ss)
  | [] => .pure _
  | s :: ss => .bind (stmt s) fun _ => .map (stmts ss)

theorem switchArms : ∀ arms : List (Option (Expr ν ι) × List (Stmt ν ι)),
    Collects p (Stmt.traverseArms noteVariable (fun _ => Pure.pure ()) arms)
      (Stmt.OverArms p arms)
  | [] => .pure _
  | (none, body) :: arms => .bind (stmts body) fun _ => .map (switchArms arms)
  | (some value, body) :: arms =>
    .bind (expr value) fun _ => .bind (stmts body) fun _ => .map (switchArms arms)

end

end Collects
end Variables

namespace Relabel

variable {p : ν' → Prop} {f : ν → ν'} {g : ι → ι'}

theorem names (xs : List ν) :
    (∀ x ∈ Id.run (traverseNames (fun x => pure (f x)) xs), p x) ↔ ∀ x ∈ xs, p (f x) := by
  induction xs with
  | nil => exact ⟨fun _ _ hx => (nomatch hx), fun _ _ hx => nomatch hx⟩
  | cons x xs ih =>
    rw [List.forall_mem_cons, ← ih]
    exact List.forall_mem_cons

mutual

theorem expr : ∀ e : Expr ν ι,
    Expr.Over p (Id.run (e.traverse (fun x => pure (f x)) fun i => pure (g i))) ↔
      e.Over fun x => p (f x)
  | .literal _ => .rfl
  | .var _ => .rfl
  | .selfMember _ => .rfl
  | .member target _ _ => expr target
  | .call callee args => and_congr (expr callee) (exprs args)
  | .array items => exprs items
  | .map entries => mapEntries entries
  | .unary _ operand => expr operand
  | .update _ _ _ => .rfl
  | .binary _ lhs rhs => and_congr (expr lhs) (expr rhs)
  | .logical _ lhs rhs => and_congr (expr lhs) (expr rhs)
  | .conditional test yes no => and_congr (expr test) (and_congr (expr yes) (expr no))
  | .assign _ _ value => and_congr .rfl (expr value)
  | .sequence items => exprs items
  | .lambda _ params body => and_congr (names params) (stmts body)

theorem exprs : ∀ es : List (Expr ν ι),
    Expr.OverList p (Id.run (Expr.traverseList (fun x => pure (f x)) (fun i => pure (g i)) es)) ↔
      Expr.OverList (fun x => p (f x)) es
  | [] => .rfl
  | e :: es => and_congr (expr e) (exprs es)

theorem mapEntries : ∀ es : List (String × Expr ν ι),
    Expr.OverEntries p
        (Id.run (Expr.traverseEntries (fun x => pure (f x)) (fun i => pure (g i)) es)) ↔
      Expr.OverEntries (fun x => p (f x)) es
  | [] => .rfl
  | (_, e) :: es => and_congr (expr e) (mapEntries es)

theorem stmt : ∀ s : Stmt ν ι,
    Stmt.Over p (Id.run (s.traverse (fun x => pure (f x)) fun i => pure (g i))) ↔
      s.Over fun x => p (f x)
  | .text _ => .rfl
  | .output _ value => expr value
  | .extend _ => .rfl
  | .include _ none => .rfl
  | .include _ (some argument) => expr argument
  | .block _ body => stmts body
  | .content _ => .rfl
  | .branch test yes no => and_congr (expr test) (and_congr (stmts yes) (stmts no))
  | .loop _ collection body => and_congr .rfl (and_congr (expr collection) (stmts body))
  | .switch subject arms => and_congr (expr subject) (switchArms arms)
  | .expr value => expr value

theorem stmts : ∀ ss : List (Stmt ν ι),
    Stmt.OverList p (Stmt.relabel f g ss) ↔ Stmt.OverList (fun x => p (f x)) ss
  | [] => .rfl
  | s :: ss => and_congr (stmt s) (stmts ss)

theorem switchArms : ∀ arms : List (Option (Expr ν ι) × List (Stmt ν ι)),
    Stmt.OverArms p
        (Id.run (Stmt.traverseArms (fun x => pure (f x)) (fun i => pure (g i)) arms)) ↔
      Stmt.OverArms (fun x => p (f x)) arms
  | [] => .rfl
  | (none, body) :: arms => and_congr (stmts body) (switchArms arms)
  | (some value, body) :: arms =>
    and_congr (expr value) (and_congr (stmts body) (switchArms arms))

end

end Relabel

namespace Stmt

theorem overList_iff {p : ν → Prop} (ss : List (Stmt ν ι)) :
    OverList p ss ↔ ∀ x ∈ Stmt.variables ss, p x := by
  rw [← true_and (OverList p ss)]
  refine Iff.trans (and_congr_left' ?_) (Variables.Collects.stmts (p := p) ss []).symm
  exact ⟨fun _ _ hx => (nomatch hx), fun _ => trivial⟩

theorem overList_relabel {p : ν' → Prop} {f : ν → ν'} {g : ι → ι'} (ss : List (Stmt ν ι)) :
    OverList p (relabel f g ss) ↔ OverList (fun x => p (f x)) ss :=
  Relabel.stmts ss

end Stmt

namespace Program

variable (name : String) (tree : List SourceStmt)

theorem nodup_slots_ofTree : (ofTree name tree).slots.Nodup := by
  rw [slots_ofTree]
  generalize Stmt.variables tree = xs
  -- by what is left after each first occurrence
  induction hn : xs.length using Nat.strongRecOn generalizing xs with
  | ind n ih =>
    cases xs with
    | nil => simp
    | cons x xs =>
      rw [List.eraseDups_cons, List.nodup_cons, List.mem_eraseDups]
      refine ⟨by simp, ih _ ?_ _ rfl⟩
      exact Nat.lt_of_le_of_lt (List.length_filter_le ..) (by simp [← hn])

theorem overList_ofTree :
    Stmt.OverList (· < (ofTree name tree).slots.length) (ofTree name tree).body := by
  generalize hp : ofTree name tree = p
  -- in the body, each variable of the tree stands as its slot
  have hslot : Stmt.OverList (fun x => ∃ i < p.slots.length, p.slot? x = some i) tree := by
    refine (Stmt.overList_iff tree).2 fun x hx => ?_
    have hmem : x ∈ p.slots := by
      rw [← hp, slots_ofTree]
      exact List.mem_eraseDups.2 hx
    cases hi : p.slot? x with
    | none => exact absurd (List.findIdx?_eq_none_iff.1 hi x hmem) (by simp)
    | some i => exact ⟨i, (List.findIdx?_eq_some_iff_getElem.1 hi).1, rfl⟩
  have hbody := body_ofTree name tree
  rw [hp] at hbody
  have hrelabel : Stmt.OverList (fun o => ∃ i < p.slots.length, o = some i)
      (Stmt.relabel some (fun _ => ()) p.body) := by
    rw [hbody]
    exact (Stmt.overList_relabel tree).2 hslot
  simpa using (Stmt.overList_relabel p.body).1 hrelabel

end Program
end TextTemplate
