import TextTemplate.Proofs.Tree.Numbering

/-! Numbering that goes on where another tree ended. The variables that the other tree has keep
their slots, the rest get the ones after these, and the lambdas are counted on: the body is the one
that the tree has by itself, up to these numbers. -/

namespace TextTemplate

theorem Stmt.traverseList_append {ν ν' ι ι' : Type} {m : Type → Type} [Monad m] [LawfulMonad m]
    (f : ν → m ν') (g : ι → m ι') (ss ss' : List (Stmt ν ι)) :
    traverseList f g (ss ++ ss') =
      (do pure ((← traverseList f g ss) ++ (← traverseList f g ss'))) := by
  induction ss with
  | nil => simp [traverseList]
  | cons s ss ih => simp [traverseList, ih]

def Stmt.LambdasBelow (k : Nat) (ss : List SlotStmt) : Prop :=
  Stmt.relabel (fun _ => ()) (fun i => decide (i < k)) ss =
    Stmt.relabel (fun _ => ()) (fun _ => true) ss

namespace Slots

structure Grows (s s' : Slots) : Prop where
  names : s.names <+: s'.names
  lambdas : s.lambdas ≤ s'.lambdas

namespace Grows

variable {s s' s'' : Slots}

theorem rfl : Grows s s :=
  ⟨List.prefix_rfl, Nat.le_refl _⟩

theorem trans (h : Grows s s') (h' : Grows s' s'') : Grows s s'' :=
  ⟨h.names.trans h'.names, Nat.le_trans h.lambdas h'.lambdas⟩

end Grows

section Slot

variable {x : String} {s : Slots}

theorem names_slot (x : String) (s : Slots) :
    (slot x s).2.names = if x ∈ s.names then s.names else s.names ++ [x] := by
  unfold slot
  split
  · rename_i i hi
    obtain ⟨h, hx, -⟩ := List.findIdx?_eq_some_iff_getElem.1 hi
    rw [if_pos (LawfulBEq.eq_of_beq hx ▸ List.getElem_mem h)]
  · rename_i hi
    rw [if_neg fun h => by simpa using List.findIdx?_eq_none_iff.1 hi x h]

theorem findIdx?_slot (x : String) (s : Slots) :
    (slot x s).2.names.findIdx? (· == x) = some (slot x s).1 := by
  unfold slot
  split
  · assumption
  · rename_i hi
    simp [List.findIdx?_append, hi]

theorem lambdas_slot (x : String) (s : Slots) : (slot x s).2.lambdas = s.lambdas := by
  unfold slot
  split <;> rfl

theorem grows_slot (x : String) (s : Slots) : Grows s (slot x s).2 := by
  refine ⟨?_, Nat.le_of_eq (lambdas_slot x s).symm⟩
  rw [names_slot]
  split
  · exact List.prefix_rfl
  · exact List.prefix_append ..

end Slot

theorem traverseList_append (ss ss' : List SourceStmt) (s : Slots) :
    Stmt.traverseList slot nextLambda (ss ++ ss') s =
      ((Stmt.traverseList slot nextLambda ss s).1 ++
          (Stmt.traverseList slot nextLambda ss' (Stmt.traverseList slot nextLambda ss s).2).1,
        (Stmt.traverseList slot nextLambda ss' (Stmt.traverseList slot nextLambda ss s).2).2) := by
  rw [Stmt.traverseList_append]
  rfl

/-- Two actions go along with each other: states that are `Near` each other they leave so, and
their outcomes are `Right` for the state that the second one ends in and all that it grows to. -/
def Together (Near : Slots → Slots → Prop) {α β : Type} (number : StateM Slots α)
    (number' : StateM Slots β) (Right : Slots → α → β → Prop) : Prop :=
  ∀ s t, Near s t → Near (number s).2 (number' t).2 ∧ Grows t (number' t).2 ∧
    ∀ u, Grows (number' t).2 u → Right u (number s).1 (number' t).1

namespace Together

variable {Near : Slots → Slots → Prop} {α β γ δ : Type} {number : StateM Slots α}
  {number' : StateM Slots β} {Right : Slots → α → β → Prop}

theorem pure {a : α} {b : β} (h : ∀ u, Right u a b) :
    Together Near (Pure.pure a) (Pure.pure b) Right :=
  fun _ _ hs => ⟨hs, .rfl, fun u _ => h u⟩

theorem bind {k : α → StateM Slots γ} {k' : β → StateM Slots δ} {Right' : Slots → γ → δ → Prop}
    (h : Together Near number number' Right)
    (hk : ∀ a b, Together Near (k a) (k' b) fun u c d => Right u a b → Right' u c d) :
    Together Near (number >>= k) (number' >>= k') Right' := by
  intro s t hs
  obtain ⟨hs', hg, hr⟩ := h s t hs
  obtain ⟨hs'', hg', hr'⟩ := hk (number s).1 (number' t).1 _ _ hs'
  exact ⟨hs'', hg.trans hg', fun u hu => hr' u hu (hr u (hg'.trans hu))⟩

end Together

/-- Slots and lambdas numbered from states that are `Near` each other are the same once `f` and `g`
rename those of the one numbering and `f'` and `g'` those of the other. -/
structure Renames {ν ι : Type} (Near : Slots → Slots → Prop) (f : Slots → Nat → Id ν)
    (g : Slots → Nat → Id ι) (f' : Slots → Nat → Id ν) (g' : Slots → Nat → Id ι) : Prop where
  slots (x : String) : Together Near (slot x) (slot x) fun u i j => f u i = f' u j
  lambdas (id : Unit) : Together Near (nextLambda id) (nextLambda id) fun u i j => g u i = g' u j

namespace Renames

variable {ν ι : Type} {Near : Slots → Slots → Prop} {f f' : Slots → Nat → Id ν}
  {g g' : Slots → Nat → Id ι}

theorem names (h : Renames Near f g f' g') (xs : List String) :
    Together Near (traverseNames slot xs) (traverseNames slot xs) fun u is js =>
      traverseNames (f u) is = traverseNames (f' u) js := by
  induction xs with
  | nil => exact .pure fun _ => rfl
  | cons x xs ih =>
    refine .bind (h.slots x) fun i j => .bind ih fun is js => .pure fun u his hi => ?_
    simp [traverseNames, his, hi]

mutual

theorem expr (h : Renames Near f g f' g') : ∀ e : SourceExpr,
    Together Near (e.traverse slot nextLambda) (e.traverse slot nextLambda)
      fun u e₁ e₂ => e₁.traverse (f u) (g u) = e₂.traverse (f' u) (g' u)
  | .literal _ => .pure fun _ => rfl
  | .var x =>
    .bind (h.slots x) fun _ _ => .pure fun _ hx => by simp [Expr.traverse, hx]
  | .selfMember _ => .pure fun _ => rfl
  | .member target _ _ =>
    .bind (h.expr target) fun _ _ => .pure fun _ ht => by simp [Expr.traverse, ht]
  | .call callee args =>
    .bind (h.expr callee) fun _ _ => .bind (h.exprs args) fun _ _ => .pure fun _ ha hc => by
      simp [Expr.traverse, hc, ha]
  | .array items =>
    .bind (h.exprs items) fun _ _ => .pure fun _ hi => by simp [Expr.traverse, hi]
  | .map entries =>
    .bind (h.mapEntries entries) fun _ _ => .pure fun _ he => by simp [Expr.traverse, he]
  | .unary _ operand =>
    .bind (h.expr operand) fun _ _ => .pure fun _ ho => by simp [Expr.traverse, ho]
  | .update _ _ x =>
    .bind (h.slots x) fun _ _ => .pure fun _ hx => by simp [Expr.traverse, hx]
  | .binary _ lhs rhs =>
    .bind (h.expr lhs) fun _ _ => .bind (h.expr rhs) fun _ _ => .pure fun _ hr hl => by
      simp [Expr.traverse, hl, hr]
  | .logical _ lhs rhs =>
    .bind (h.expr lhs) fun _ _ => .bind (h.expr rhs) fun _ _ => .pure fun _ hr hl => by
      simp [Expr.traverse, hl, hr]
  | .conditional test yes no =>
    .bind (h.expr test) fun _ _ => .bind (h.expr yes) fun _ _ => .bind (h.expr no) fun _ _ =>
      .pure fun _ hn hy ht => by simp [Expr.traverse, ht, hy, hn]
  | .assign x _ value =>
    .bind (h.slots x) fun _ _ => .bind (h.expr value) fun _ _ => .pure fun _ hv hx => by
      simp [Expr.traverse, hx, hv]
  | .sequence items =>
    .bind (h.exprs items) fun _ _ => .pure fun _ hi => by simp [Expr.traverse, hi]
  | .lambda id params body =>
    .bind (h.lambdas id) fun _ _ => .bind (h.names params) fun _ _ =>
      .bind (h.stmts body) fun _ _ => .pure fun _ hb hp hid => by simp [Expr.traverse, hid, hp, hb]

theorem exprs (h : Renames Near f g f' g') : ∀ es : List SourceExpr,
    Together Near (Expr.traverseList slot nextLambda es) (Expr.traverseList slot nextLambda es)
      fun u es₁ es₂ =>
        Expr.traverseList (f u) (g u) es₁ = Expr.traverseList (f' u) (g' u) es₂
  | [] => .pure fun _ => rfl
  | e :: es =>
    .bind (h.expr e) fun _ _ => .bind (h.exprs es) fun _ _ => .pure fun _ hes he => by
      simp [Expr.traverseList, he, hes]

theorem mapEntries (h : Renames Near f g f' g') : ∀ es : List (String × SourceExpr),
    Together Near (Expr.traverseEntries slot nextLambda es)
      (Expr.traverseEntries slot nextLambda es)
      fun u es₁ es₂ =>
        Expr.traverseEntries (f u) (g u) es₁ = Expr.traverseEntries (f' u) (g' u) es₂
  | [] => .pure fun _ => rfl
  | (_, e) :: es =>
    .bind (h.expr e) fun _ _ => .bind (h.mapEntries es) fun _ _ => .pure fun _ hes he => by
      simp [Expr.traverseEntries, he, hes]

theorem stmt (h : Renames Near f g f' g') : ∀ s : SourceStmt,
    Together Near (s.traverse slot nextLambda) (s.traverse slot nextLambda)
      fun u s₁ s₂ => s₁.traverse (f u) (g u) = s₂.traverse (f' u) (g' u)
  | .text _ => .pure fun _ => rfl
  | .output _ value =>
    .bind (h.expr value) fun _ _ => .pure fun _ hv => by simp [Stmt.traverse, hv]
  | .extend _ => .pure fun _ => rfl
  | .include _ none => .pure fun _ => rfl
  | .include _ (some argument) =>
    .bind (h.expr argument) fun _ _ => .pure fun _ ha => by simp [Stmt.traverse, ha]
  | .block _ body =>
    .bind (h.stmts body) fun _ _ => .pure fun _ hb => by simp [Stmt.traverse, hb]
  | .content _ => .pure fun _ => rfl
  | .branch test yes no =>
    .bind (h.expr test) fun _ _ => .bind (h.stmts yes) fun _ _ => .bind (h.stmts no) fun _ _ =>
      .pure fun _ hn hy ht => by simp [Stmt.traverse, ht, hy, hn]
  | .loop x collection body =>
    .bind (h.slots x) fun _ _ => .bind (h.expr collection) fun _ _ =>
      .bind (h.stmts body) fun _ _ => .pure fun _ hb hc hx => by simp [Stmt.traverse, hx, hc, hb]
  | .switch subject arms =>
    .bind (h.expr subject) fun _ _ => .bind (h.switchArms arms) fun _ _ => .pure fun _ ha hs => by
      simp [Stmt.traverse, hs, ha]
  | .expr value =>
    .bind (h.expr value) fun _ _ => .pure fun _ hv => by simp [Stmt.traverse, hv]

theorem stmts (h : Renames Near f g f' g') : ∀ ss : List SourceStmt,
    Together Near (Stmt.traverseList slot nextLambda ss) (Stmt.traverseList slot nextLambda ss)
      fun u ss₁ ss₂ =>
        Stmt.traverseList (f u) (g u) ss₁ = Stmt.traverseList (f' u) (g' u) ss₂
  | [] => .pure fun _ => rfl
  | s :: ss =>
    .bind (h.stmt s) fun _ _ => .bind (h.stmts ss) fun _ _ => .pure fun _ hss hs => by
      simp [Stmt.traverseList, hs, hss]

theorem switchArms (h : Renames Near f g f' g') :
    ∀ arms : List (Option SourceExpr × List SourceStmt),
      Together Near (Stmt.traverseArms slot nextLambda arms)
        (Stmt.traverseArms slot nextLambda arms)
        fun u arms₁ arms₂ =>
          Stmt.traverseArms (f u) (g u) arms₁ = Stmt.traverseArms (f' u) (g' u) arms₂
  | [] => .pure fun _ => rfl
  | (none, body) :: arms =>
    .bind (h.stmts body) fun _ _ => .bind (h.switchArms arms) fun _ _ => .pure fun _ ha hb => by
      simp [Stmt.traverseArms, hb, ha]
  | (some value, body) :: arms =>
    .bind (h.expr value) fun _ _ => .bind (h.stmts body) fun _ _ =>
      .bind (h.switchArms arms) fun _ _ => .pure fun _ ha hb hv => by
        simp [Stmt.traverseArms, hv, hb, ha]

end

end Renames

structure After (base : List String) (k : Nat) (s t : Slots) : Prop where
  names : s.names = base ++ t.names.filter (· ∉ base)
  lambdas : s.lambdas = k + t.lambdas

def moved (base : List String) (u : Slots) (i : Nat) : Option Nat :=
  u.names[i]?.bind fun x => (base ++ u.names.filter (· ∉ base)).findIdx? (· == x)

namespace After

variable {base : List String} {k : Nat}

theorem together_slot (x : String) : Together (After base k) (slot x) (slot x) fun u i j =>
    (pure (some i) : Id (Option Nat)) = pure (moved base u j) := by
  intro s t h
  have hnames : (slot x s).2.names =
      base ++ (slot x t).2.names.filter (· ∉ base) := by
    have hmem : x ∈ s.names ↔ x ∈ base ∨ x ∈ t.names := by
      rw [h.names, List.mem_append, List.mem_filter]
      by_cases hx : x ∈ base <;> simp [hx]
    rw [names_slot, names_slot]
    by_cases hx : x ∈ t.names
    · rw [if_pos (hmem.2 (.inr hx)), if_pos hx, h.names]
    · by_cases hbase : x ∈ base <;> simp [hbase, hx, h.names]
  refine ⟨⟨hnames, ?_⟩, grows_slot x t, fun u hu => congrArg pure ?_⟩
  · rw [lambdas_slot, lambdas_slot, h.lambdas]
  · obtain ⟨more, hmore⟩ := hu.names
    obtain ⟨hj, hx, -⟩ := List.findIdx?_eq_some_iff_getElem.1 (findIdx?_slot x t)
    have hget : u.names[(slot x t).1]? = some x := by
      rw [← hmore, List.getElem?_append_left hj, List.getElem?_eq_getElem hj,
        LawfulBEq.eq_of_beq hx]
    unfold moved
    rw [hget, Option.bind_some, ← hmore, List.filter_append, ← List.append_assoc, ← hnames,
      List.findIdx?_append, findIdx?_slot]
    rfl

theorem together_nextLambda (id : Unit) :
    Together (After base k) (nextLambda id) (nextLambda id) fun _ i j =>
      (pure i : Id Nat) = pure (k + j) :=
  fun _ _ h => ⟨⟨h.names, congrArg (· + 1) h.lambdas⟩, ⟨List.prefix_rfl, Nat.le_succ _⟩,
    fun _ _ => congrArg pure h.lambdas⟩

theorem renames : Renames (After base k) (fun _ i => pure (some i)) (fun _ i => pure i)
    (fun u j => pure (moved base u j)) fun _ j => pure (k + j) :=
  ⟨together_slot, together_nextLambda⟩

end After

theorem renumbers {base : List String} {k : Nat} {s t : Slots} (h : After base k s t)
    (ss : List SourceStmt) :
    After base k (Stmt.traverseList slot nextLambda ss s).2
        (Stmt.traverseList slot nextLambda ss t).2 ∧
      Stmt.relabel some id (Stmt.traverseList slot nextLambda ss s).1 =
        Stmt.relabel (moved base (Stmt.traverseList slot nextLambda ss t).2) (k + ·)
          (Stmt.traverseList slot nextLambda ss t).1 := by
  obtain ⟨hafter, -, hright⟩ := After.renames.stmts ss s t h
  exact ⟨hafter, hright _ .rfl⟩

theorem renames_eq : Renames Eq (fun _ _ => pure ()) (fun u i => pure (decide (i < u.lambdas)))
    (fun _ _ => pure ()) fun _ _ => pure true where
  slots x := by
    rintro s _ rfl
    exact ⟨rfl, grows_slot x s, fun _ _ => rfl⟩
  lambdas _ := by
    rintro s _ rfl
    exact ⟨rfl, ⟨List.prefix_rfl, Nat.le_succ _⟩,
      fun u hu => congrArg pure (decide_eq_true hu.lambdas)⟩

theorem lambdasBelow (ss : List SourceStmt) (s : Slots) :
    Stmt.LambdasBelow (Stmt.traverseList slot nextLambda ss s).2.lambdas
      (Stmt.traverseList slot nextLambda ss s).1 :=
  (renames_eq.stmts ss s s rfl).2.2 _ .rfl

end Slots
end TextTemplate
