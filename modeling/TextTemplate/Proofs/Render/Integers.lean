import TextTemplate.Proofs.Render.Assignment
import TextTemplate.Proofs.Value.Integers

/-! Integer operations where they are used: between two operands, and in counting and assigning.
Where an operation fails, nothing is stored: the context is as the operand has left it. -/

namespace TextTemplate
namespace Run

variable {σ : Type} {world : World σ} {deep : Deep (Run σ)} {frame x : Nat}

theorem conclude_apply (frame x : Nat) (result : Except Error Value) (c : Context σ) :
    conclude frame x result c =
      match result with
      | .ok v => (.ok v, c.store frame x v)
      | .error e => (.error (.error e), c) := by
  cases result <;> rfl

theorem eval_update (op : UpdateOp) (before : Bool) (c : Context σ) :
    eval world deep frame (.update op before x) c =
      match Value.arithmetic op.arithmetic (c.load frame x) (.int 1) with
      | .ok new => (.ok (if before then new else c.load frame x), c.store frame x new)
      | .error e => (.error (.error e), c) := by
  simp only [eval]
  show ((ofExcept (Value.arithmetic op.arithmetic (c.load frame x) (.int 1)) : Run σ Value) >>=
    fun new => store frame x new >>= fun _ =>
      pure (if before then new else c.load frame x)) c = _
  cases Value.arithmetic op.arithmetic (c.load frame x) (.int 1) <;> rfl

theorem arithmetic_int (op : ArithmeticOp) (a b : Int64) :
    Value.arithmetic op (.int a) (.int b) = Value.intArithmetic op a b := by
  cases op <;> rfl

theorem eval_update_error {op : UpdateOp} {before : Bool} {c c' : Context σ} {h : Halt}
    (heq : eval world deep frame (.update op before x) c = (.error h, c')) : c' = c := by
  rw [eval_update] at heq
  split at heq
  · cases heq
  · exact (congrArg Prod.snd heq).symm

theorem eval_assign_error {op : Option ArithmeticOp} {e : SlotExpr} {c c' : Context σ} {h : Halt}
    (heq : eval world deep frame (.assign x op e) c = (.error h, c')) :
    c' = (eval world deep frame e c).2 := by
  cases op with
  | none =>
    simp only [eval] at heq
    rw [bind_apply] at heq
    generalize eval world deep frame e c = s at heq ⊢
    obtain ⟨_ | v, c''⟩ := s
    · exact (congrArg Prod.snd heq).symm
    · cases heq
  | some op =>
    rw [eval_assign_op] at heq
    generalize eval world deep frame e c = s at heq ⊢
    obtain ⟨_ | v, c''⟩ := s
    · exact (congrArg Prod.snd heq).symm
    · simp only [conclude_apply] at heq
      split at heq
      · cases heq
      · exact (congrArg Prod.snd heq).symm

/-- Operations on integers give the exact result, or they fail: if they divide by zero, or if the
exact result (of a remainder, the exact quotient) is beyond 64 bits. So do negation, counting, and
assignments with an operator. An update or assignment that fails stores nothing. -/
theorem integers_exact_or_failing :
    (∀ op a b, ArithmeticOp.Ends op a b (Value.binary (.arithmetic op) (.int a) (.int b))) ∧
    (∀ a b q r : Int64,
      Value.binary (.arithmetic .div) (.int a) (.int b) = .ok (.int q) →
      Value.binary (.arithmetic .mod) (.int a) (.int b) = .ok (.int r) →
      a.toInt = q.toInt * b.toInt + r.toInt ∧ r.toInt.natAbs < b.toInt.natAbs ∧
        0 ≤ a.toInt * r.toInt) ∧
    (∀ a : Int64,
      (FitsInt64 (-a.toInt) →
        ∃ r : Int64, Value.unary .neg (.int a) = .ok (.int r) ∧ r.toInt = -a.toInt) ∧
      (¬ FitsInt64 (-a.toInt) →
        ∃ fault, Value.unary .neg (.int a) = .error (.invalidOperation fault))) ∧
    ∀ {σ : Type} (world : World σ) (deep : Deep (Run σ)) (frame x : Nat) (c : Context σ),
      (∀ op before a, c.load frame x = .int a →
        ∃ result, op.arithmetic.Ends a 1 result ∧
          eval world deep frame (.update op before x) c =
            match result with
            | .ok new => (.ok (if before then new else .int a), c.store frame x new)
            | .error e => (.error (.error e), c)) ∧
      (∀ op e b c' a, eval world deep frame e c = (.ok (.int b), c') →
        c'.load frame x = .int a →
        ∃ result, op.Ends a b result ∧
          eval world deep frame (.assign x (some op) e) c =
            match result with
            | .ok new => (.ok new, c'.store frame x new)
            | .error e => (.error (.error e), c')) ∧
      (∀ op before h c', eval world deep frame (.update op before x) c = (.error h, c') →
        c' = c) ∧
      ∀ op e h c', eval world deep frame (.assign x op e) c = (.error h, c') →
        c' = (eval world deep frame e c).2 := by
  have hbinary (op : ArithmeticOp) (a b : Int64) :
      Value.binary (.arithmetic op) (.int a) (.int b) = Value.intArithmetic op a b :=
    arithmetic_int op a b
  refine ⟨fun op a b => ?_, fun a b q r hq hr => ?_, Value.unary_neg_int, ?_⟩
  · rw [hbinary]
    exact Value.intArithmetic_ends op a b
  · rw [hbinary] at hq hr
    exact Value.quotient_remainder hq hr
  intro σ world deep frame x c
  refine ⟨fun op before a ha => ⟨_, Value.intArithmetic_ends op.arithmetic a 1, ?_⟩,
    fun op e b c' a he ha => ⟨_, Value.intArithmetic_ends op a b, ?_⟩,
    fun _ _ _ _ => eval_update_error, fun _ _ _ _ => eval_assign_error⟩
  · rw [eval_update, ha, arithmetic_int]
  · rw [eval_assign_op, he]
    simp only [conclude_apply, ha, arithmetic_int]

theorem integers_at_their_limits :
    let world : World Unit := ⟨fun name s => (.ok ⟨name, [], []⟩, s), fun _ _ s => (.ok .null, s)⟩
    let deep := levels (m := Run Unit) world 9
    let c : Context Unit :=
      { Context.start {} 0 .null () with frames := #[#[.int Int64.maxValue]] }
    let counted := eval world deep 0 (.update .inc true 0) c
    (Value.binary (.arithmetic .div) (.int (-7)) (.int 2) = .ok (.int (-3)) ∧
      Value.binary (.arithmetic .mod) (.int (-7)) (.int 2) = .ok (.int (-1)) ∧
      (-7 : Int64).toInt = (-3 : Int64).toInt * (2 : Int64).toInt + (-1 : Int64).toInt) ∧
    (¬ FitsInt64 (-Int64.minValue.toInt) ∧ ∃ fault,
      Value.unary .neg (.int Int64.minValue) = .error (.invalidOperation fault)) ∧
    c.load 0 0 = .int Int64.maxValue ∧
    counted.1 = .error (.error (.invalidOperation (.overflow .add Int64.maxValue 1))) ∧
    counted.2 = c ∧ counted.2.load 0 0 = .int Int64.maxValue := by
  intro world deep c counted
  obtain ⟨-, hdivision, hneg, hruns⟩ := integers_exact_or_failing
  have hdiv : Value.binary (.arithmetic .div) (.int (-7)) (.int 2) = .ok (.int (-3)) := rfl
  have hmod : Value.binary (.arithmetic .mod) (.int (-7)) (.int 2) = .ok (.int (-1)) := rfl
  have hleast : ¬ FitsInt64 (-Int64.minValue.toInt) := by decide
  have hend : counted.1 = .error (.error (.invalidOperation (.overflow .add Int64.maxValue 1))) :=
    rfl
  have hstays : counted.2 = c :=
    (hruns world deep 0 0 c).2.2.1 .inc true _ _ (Prod.ext hend rfl)
  refine ⟨⟨hdiv, hmod, (hdivision (-7) 2 (-3) (-1) hdiv hmod).1⟩,
    ⟨hleast, (hneg Int64.minValue).2 hleast⟩, rfl, hend, hstays, ?_⟩
  rw [hstays]
  rfl

end Run
end TextTemplate
