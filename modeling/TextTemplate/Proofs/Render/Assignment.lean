import TextTemplate.Render.Evaluate

/-! Assignments with an operator, beside plain assignments of the operation. The two differ in when
the old value of the variable is read: after the right side in the first, before it in the
second. -/

namespace TextTemplate
namespace Run

variable {σ : Type} {world : World σ} {deep : Deep (Run σ)} {frame x : Nat} {op : ArithmeticOp}
  {e : SlotExpr} {c : Context σ}

def conclude (frame x : Nat) (result : Except Error Value) : Run σ Value := do
  let v ← ofExcept result
  store frame x v
  pure v

theorem conclude_injective {result result' : Except Error Value}
    (h : conclude frame x result c = conclude frame x result' c) : result = result' := by
  have hends := congrArg Prod.fst h
  cases result with
  | ok v =>
    cases result' with
    | ok v' => exact congrArg _ (Except.ok.inj hends)
    | error _ => cases hends
  | error e =>
    cases result' with
    | ok _ => cases hends
    | error e' => exact congrArg _ (Halt.error.inj (Except.error.inj hends))

theorem eval_assign_op (c : Context σ) :
    eval world deep frame (.assign x (some op) e) c =
      match eval world deep frame e c with
      | (.ok v, c') => conclude frame x (Value.arithmetic op (c'.load frame x) v) c'
      | (.error h, c') => (.error h, c') := by
  simp only [eval]
  rw [bind_apply]
  rcases eval world deep frame e c with ⟨_ | v, c'⟩ <;> rfl

theorem eval_assign_binary (c : Context σ) :
    eval world deep frame (.assign x none (.binary (.arithmetic op) (.var x) e)) c =
      match eval world deep frame e c with
      | (.ok v, c') => conclude frame x (Value.arithmetic op (c.load frame x) v) c'
      | (.error h, c') => (.error h, c') := by
  simp only [eval, bind_assoc]
  show (eval world deep frame e >>= fun v =>
    conclude frame x (Value.arithmetic op (c.load frame x) v)) c = _
  rw [bind_apply]
  rcases eval world deep frame e c with ⟨_ | v, c'⟩ <;> rfl

/-- An assignment with an operator does what the plain assignment of the operation does exactly if
the operation gives the same on the value that the variable has after the right side as on the
one that it had before. -/
theorem eval_assign_op_eq_iff :
    eval world deep frame (.assign x (some op) e) c =
        eval world deep frame (.assign x none (.binary (.arithmetic op) (.var x) e)) c ↔
      ∀ v c', eval world deep frame e c = (.ok v, c') →
        Value.arithmetic op (c'.load frame x) v = Value.arithmetic op (c.load frame x) v := by
  rw [eval_assign_op, eval_assign_binary]
  rcases eval world deep frame e c with ⟨h | v, c'⟩
  · exact ⟨fun _ _ _ he => (nomatch he), fun _ => rfl⟩
  constructor
  · intro h v' c'' he
    obtain ⟨hv, rfl⟩ := Prod.mk.inj he
    obtain rfl := Except.ok.inj hv
    exact conclude_injective h
  · intro h
    exact congrArg (conclude frame x · c') (h v c' rfl)

/-- With 1 in the variable, adding to it the value of an assignment of 5 to it gives 10; the plain
assignment of the sum gives 6. -/
theorem right_side_assigned_before_sum :
    let world : World Unit := ⟨fun name s => (.ok ⟨name, [], []⟩, s), fun _ _ s => (.ok .null, s)⟩
    let c : Context Unit :=
      { Context.start {} 0 .null () with frames := #[#[.int 1]], running := [0] }
    let five : SlotExpr := .assign 0 none (.literal (.int 5))
    let value (e : SlotExpr) := (eval world (levels (m := Run Unit) world 9) 0 e c).1
    value (.assign 0 (some .add) five) = .ok (.int 10) ∧
      value (.assign 0 none (.binary (.arithmetic .add) (.var 0) five)) = .ok (.int 6) ∧
      value (.assign 0 (some .add) five) ≠
        value (.assign 0 none (.binary (.arithmetic .add) (.var 0) five)) := by
  intro world c five value
  have hsum : value (.assign 0 (some .add) five) = .ok (.int 10) := by rfl
  have hplain : value (.assign 0 none (.binary (.arithmetic .add) (.var 0) five)) =
    .ok (.int 6) := by rfl
  refine ⟨hsum, hplain, fun h => ?_⟩
  rw [hsum, hplain] at h
  exact absurd (Value.int.inj (Except.ok.inj h)) (by decide)

end Run
end TextTemplate
