import TextTemplate.Tree.Traverse

/-! What a program keeps of the tree that it is made from. Its slots are the variables of the tree
in the order of first occurrence, and its body is the tree with the slot of each variable in the
place of the variable. -/

namespace TextTemplate

section Walks

variable {ν ν' ι ι' : Type}

def Stmt.relabel (f : ν → ν') (g : ι → ι') (ss : List (Stmt ν ι)) : List (Stmt ν' ι') :=
  Id.run (Stmt.traverseList (fun x => pure (f x)) (fun i => pure (g i)) ss)

def noteVariable (x : ν) : StateM (List ν) Unit := modify (· ++ [x])

def Stmt.variables (ss : List (Stmt ν ι)) : List ν :=
  (StateT.run (m := Id) (Stmt.traverseList noteVariable (fun _ => pure ()) ss) []).2

end Walks

namespace Slots

def index (names : List String) (x : String) : Id (Option Nat) :=
  pure (names.findIdx? (· == x))

def asIs (i : Nat) : Id (Option Nat) := pure (some i)

/-- A numbering action goes along with one that notes the variables: the names with slots are the
variables noted, each once, and its outcome is `Right` for these names and all that follow. -/
def Numbers {α β : Type} (number : StateM Slots α) (note : StateM (List String) β)
    (Right : List String → α → Prop) : Prop :=
  ∀ s seen, s.names = seen.eraseDups →
    (number s).2.names = (note seen).2.eraseDups ∧ s.names <+: (number s).2.names ∧
      ∀ names, (number s).2.names <+: names → Right names (number s).1

namespace Numbers

variable {α β γ δ : Type} {number : StateM Slots α} {note : StateM (List String) β}
  {Right : List String → α → Prop}

theorem pure {a : α} {b : β} (h : ∀ names, Right names a) :
    Numbers (Pure.pure a) (Pure.pure b) Right :=
  fun _ _ hs => ⟨hs, List.prefix_rfl, fun names _ => h names⟩

theorem bind {k : α → StateM Slots γ} {k' : β → StateM (List String) δ}
    {Right' : List String → γ → Prop} (h : Numbers number note Right)
    (hk : ∀ a b, Numbers (k a) (k' b) fun names c => Right names a → Right' names c) :
    Numbers (number >>= k) (note >>= k') Right' := by
  intro s seen hs
  obtain ⟨hn, hp, hr⟩ := h s seen hs
  obtain ⟨hn', hp', hr'⟩ := hk (number s).1 (note seen).1 _ _ hn
  exact ⟨hn', hp.trans hp', fun names hl => hr' names hl (hr names (hp'.trans hl))⟩

theorem slot (x : String) :
    Numbers (slot x) (noteVariable x) fun names i => index names x = asIs i := by
  intro s seen hs
  have hnote : (noteVariable x seen).2 = seen ++ [x] := rfl
  unfold Slots.slot
  -- the name has a slot just if it was noted before
  split
  · rename_i i hi
    have hx : x ∈ seen := by
      obtain ⟨h, hxi, -⟩ := List.findIdx?_eq_some_iff_getElem.1 hi
      rw [← List.mem_eraseDups, ← hs, ← LawfulBEq.eq_of_beq hxi]
      exact List.getElem_mem h
    refine ⟨?_, List.prefix_rfl, ?_⟩
    · rw [hnote, List.eraseDups_append]
      simpa [List.removeAll, hx] using hs
    · rintro _ ⟨more, rfl⟩
      simp [index, asIs, hi]
  · rename_i hi
    have hx : x ∉ seen := by
      rw [← List.mem_eraseDups, ← hs]
      intro h
      have hne := List.findIdx?_eq_none_iff.1 hi x h
      simp at hne
    refine ⟨?_, List.prefix_append .., ?_⟩
    · rw [hnote, List.eraseDups_append]
      simp [List.removeAll, hx, hs, List.eraseDups_cons]
    · rintro _ ⟨more, rfl⟩
      simp [index, asIs, List.findIdx?_append, hi, List.findIdx?_cons]

theorem nextLambda (id : Unit) :
    Numbers (nextLambda id) (Pure.pure ()) fun _ _ => True :=
  fun _ _ hs => ⟨hs, List.prefix_rfl, fun _ _ => trivial⟩

theorem names (xs : List String) :
    Numbers (traverseNames Slots.slot xs) (traverseNames noteVariable xs) fun names is =>
      traverseNames asIs is = traverseNames (index names) xs := by
  induction xs with
  | nil => exact .pure fun _ => rfl
  | cons x xs ih =>
    refine .bind (.slot x) fun i _ => .bind ih fun is _ => .pure fun names his hi => ?_
    simp [traverseNames, his, hi]

mutual

theorem expr : ∀ e : SourceExpr,
    Numbers (e.traverse Slots.slot Slots.nextLambda) (e.traverse noteVariable Pure.pure)
      fun names e' => e'.traverse asIs (fun _ => Pure.pure ()) = e.traverse (index names) Pure.pure
  | .literal _ => .pure fun _ => rfl
  | .var x =>
    .bind (.slot x) fun _ _ => .pure fun _ hx => by simp [Expr.traverse, hx]
  | .selfMember _ => .pure fun _ => rfl
  | .member target _ _ =>
    .bind (expr target) fun _ _ => .pure fun _ ht => by simp [Expr.traverse, ht]
  | .call callee args =>
    .bind (expr callee) fun _ _ => .bind (exprs args) fun _ _ => .pure fun _ ha hc => by
      simp [Expr.traverse, hc, ha]
  | .array items =>
    .bind (exprs items) fun _ _ => .pure fun _ hi => by simp [Expr.traverse, hi]
  | .map entries =>
    .bind (mapEntries entries) fun _ _ => .pure fun _ he => by simp [Expr.traverse, he]
  | .unary _ operand =>
    .bind (expr operand) fun _ _ => .pure fun _ ho => by simp [Expr.traverse, ho]
  | .update _ _ x =>
    .bind (.slot x) fun _ _ => .pure fun _ hx => by simp [Expr.traverse, hx]
  | .binary _ lhs rhs =>
    .bind (expr lhs) fun _ _ => .bind (expr rhs) fun _ _ => .pure fun _ hr hl => by
      simp [Expr.traverse, hl, hr]
  | .logical _ lhs rhs =>
    .bind (expr lhs) fun _ _ => .bind (expr rhs) fun _ _ => .pure fun _ hr hl => by
      simp [Expr.traverse, hl, hr]
  | .conditional test yes no =>
    .bind (expr test) fun _ _ => .bind (expr yes) fun _ _ => .bind (expr no) fun _ _ =>
      .pure fun _ hn hy ht => by simp [Expr.traverse, ht, hy, hn]
  | .assign x _ value =>
    .bind (.slot x) fun _ _ => .bind (expr value) fun _ _ => .pure fun _ hv hx => by
      simp [Expr.traverse, hx, hv]
  | .sequence items =>
    .bind (exprs items) fun _ _ => .pure fun _ hi => by simp [Expr.traverse, hi]
  | .lambda id params body =>
    .bind (.nextLambda id) fun _ _ => .bind (.names params) fun _ _ =>
      .bind (stmts body) fun _ _ => .pure fun _ hb hp _ => by simp [Expr.traverse, hp, hb]

theorem exprs : ∀ es : List SourceExpr,
    Numbers (Expr.traverseList Slots.slot Slots.nextLambda es)
      (Expr.traverseList noteVariable Pure.pure es)
      fun names es' => Expr.traverseList asIs (fun _ => Pure.pure ()) es'
        = Expr.traverseList (index names) Pure.pure es
  | [] => .pure fun _ => rfl
  | e :: es =>
    .bind (expr e) fun _ _ => .bind (exprs es) fun _ _ => .pure fun _ hes he => by
      simp [Expr.traverseList, he, hes]

theorem mapEntries : ∀ es : List (String × SourceExpr),
    Numbers (Expr.traverseEntries Slots.slot Slots.nextLambda es)
      (Expr.traverseEntries noteVariable Pure.pure es)
      fun names es' => Expr.traverseEntries asIs (fun _ => Pure.pure ()) es'
        = Expr.traverseEntries (index names) Pure.pure es
  | [] => .pure fun _ => rfl
  | (_, e) :: es =>
    .bind (expr e) fun _ _ => .bind (mapEntries es) fun _ _ => .pure fun _ hes he => by
      simp [Expr.traverseEntries, he, hes]

theorem stmt : ∀ s : SourceStmt,
    Numbers (s.traverse Slots.slot Slots.nextLambda) (s.traverse noteVariable Pure.pure)
      fun names s' => s'.traverse asIs (fun _ => Pure.pure ()) = s.traverse (index names) Pure.pure
  | .text _ => .pure fun _ => rfl
  | .output _ value =>
    .bind (expr value) fun _ _ => .pure fun _ hv => by simp [Stmt.traverse, hv]
  | .extend _ => .pure fun _ => rfl
  | .include _ none => .pure fun _ => rfl
  | .include _ (some argument) =>
    .bind (expr argument) fun _ _ => .pure fun _ ha => by simp [Stmt.traverse, ha]
  | .block _ body =>
    .bind (stmts body) fun _ _ => .pure fun _ hb => by simp [Stmt.traverse, hb]
  | .content _ => .pure fun _ => rfl
  | .branch test yes no =>
    .bind (expr test) fun _ _ => .bind (stmts yes) fun _ _ => .bind (stmts no) fun _ _ =>
      .pure fun _ hn hy ht => by simp [Stmt.traverse, ht, hy, hn]
  | .loop x collection body =>
    .bind (.slot x) fun _ _ => .bind (expr collection) fun _ _ => .bind (stmts body) fun _ _ =>
      .pure fun _ hb hc hx => by simp [Stmt.traverse, hx, hc, hb]
  | .switch subject arms =>
    .bind (expr subject) fun _ _ => .bind (switchArms arms) fun _ _ => .pure fun _ ha hs => by
      simp [Stmt.traverse, hs, ha]
  | .expr value =>
    .bind (expr value) fun _ _ => .pure fun _ hv => by simp [Stmt.traverse, hv]

theorem stmts : ∀ ss : List SourceStmt,
    Numbers (Stmt.traverseList Slots.slot Slots.nextLambda ss)
      (Stmt.traverseList noteVariable Pure.pure ss)
      fun names ss' => Stmt.traverseList asIs (fun _ => Pure.pure ()) ss'
        = Stmt.traverseList (index names) Pure.pure ss
  | [] => .pure fun _ => rfl
  | s :: ss =>
    .bind (stmt s) fun _ _ => .bind (stmts ss) fun _ _ => .pure fun _ hss hs => by
      simp [Stmt.traverseList, hs, hss]

theorem switchArms : ∀ arms : List (Option SourceExpr × List SourceStmt),
    Numbers (Stmt.traverseArms Slots.slot Slots.nextLambda arms)
      (Stmt.traverseArms noteVariable Pure.pure arms)
      fun names arms' => Stmt.traverseArms asIs (fun _ => Pure.pure ()) arms'
        = Stmt.traverseArms (index names) Pure.pure arms
  | [] => .pure fun _ => rfl
  | (none, body) :: arms =>
    .bind (stmts body) fun _ _ => .bind (switchArms arms) fun _ _ => .pure fun _ ha hb => by
      simp [Stmt.traverseArms, hb, ha]
  | (some value, body) :: arms =>
    .bind (expr value) fun _ _ => .bind (stmts body) fun _ _ => .bind (switchArms arms) fun _ _ =>
      .pure fun _ ha hb hv => by simp [Stmt.traverseArms, hv, hb, ha]

end

end Numbers
end Slots

namespace Program

theorem slots_ofTree (name : String) (tree : List SourceStmt) :
    (ofTree name tree).slots = (Stmt.variables tree).eraseDups :=
  (Slots.Numbers.stmts tree .empty [] rfl).1

theorem body_ofTree (name : String) (tree : List SourceStmt) :
    Stmt.relabel some (fun _ => ()) (ofTree name tree).body
      = Stmt.relabel (ofTree name tree).slot? (fun _ => ()) tree :=
  (Slots.Numbers.stmts tree .empty [] rfl).2.2 _ List.prefix_rfl

end Program
end TextTemplate
