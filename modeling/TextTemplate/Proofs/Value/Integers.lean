import Mathlib.Algebra.Order.Ring.Int
import Mathlib.Data.Int.Basic
import Mathlib.Tactic.Linarith
import TextTemplate.Value.Operation

/-! Integer operations are exact or fail. What the exact result is, is said without division: the
quotient leaves a rest that is smaller than the divisor and has the sign of the dividend, and there
is one such quotient and one such rest. -/

namespace TextTemplate

/-- Whether a number is the exact result of an operation. A quotient is rounded toward zero: the
rest has the sign of the dividend. -/
def ArithmeticOp.Exact (op : ArithmeticOp) (a b r : Int) : Prop :=
  match op with
  | .add => r = a + b
  | .sub => r = a - b
  | .mul => r = a * b
  | .div => ∃ rest, a = r * b + rest ∧ rest.natAbs < b.natAbs ∧ 0 ≤ a * rest
  | .mod => ∃ quotient, a = quotient * b + r ∧ r.natAbs < b.natAbs ∧ 0 ≤ a * r

def ArithmeticOp.deciding : ArithmeticOp → ArithmeticOp
  | .mod => .div
  | op => op

def FitsInt64 (n : Int) : Prop := -2 ^ 63 ≤ n ∧ n < 2 ^ 63

instance : DecidablePred FitsInt64 := fun n =>
  inferInstanceAs (Decidable (-2 ^ 63 ≤ n ∧ n < 2 ^ 63))

theorem fitsInt64_iff_range {n : Int} :
    FitsInt64 n ↔ Int64.minValue.toInt ≤ n ∧ n ≤ Int64.maxValue.toInt := by
  rw [FitsInt64, Int64.toInt_minValue, Int64.toInt_maxValue, Int.le_sub_one_iff]

/-- Whether an operation has no result: it divides by zero, or its exact result, for a remainder
that of the division, is beyond 64 bits. -/
def ArithmeticOp.Fails (op : ArithmeticOp) (a b : Int64) : Prop :=
  (op = .div ∨ op = .mod) ∧ b = 0 ∨
    ∃ n, op.deciding.Exact a.toInt b.toInt n ∧ ¬ FitsInt64 n

inductive ArithmeticOp.Ends (op : ArithmeticOp) (a b : Int64) : Except Error Value → Prop
  | exact {r : Int64} : ¬ op.Fails a b → (∀ n, op.Exact a.toInt b.toInt n ↔ n = r.toInt) →
    Ends op a b (.ok (.int r))
  | fails {fault : OperationFault} : op.Fails a b → Ends op a b (.error (.invalidOperation fault))

section Division

variable {a b q q' m m' : Int}

theorem natAbs_sub_rest_lt (hm : m.natAbs < b.natAbs) (hm' : m'.natAbs < b.natAbs)
    (hs : 0 ≤ a * m) (hs' : 0 ≤ a * m') (ha : a ≠ 0) : (m - m').natAbs < b.natAbs := by
  rcases lt_or_gt_of_ne ha with ha | ha
  · have h : m ≤ 0 := nonpos_of_mul_nonneg_right hs ha
    have h' : m' ≤ 0 := nonpos_of_mul_nonneg_right hs' ha
    omega
  · have h : 0 ≤ m := nonneg_of_mul_nonneg_right hs ha
    have h' : 0 ≤ m' := nonneg_of_mul_nonneg_right hs' ha
    omega

theorem division_unique (h : a = q * b + m) (hm : m.natAbs < b.natAbs) (hs : 0 ≤ a * m)
    (h' : a = q' * b + m') (hm' : m'.natAbs < b.natAbs) (hs' : 0 ≤ a * m') : q = q' ∧ m = m' := by
  have hb : b ≠ 0 := by
    rintro rfl
    simp at hm
  have hmm : m = m' := by
    rcases eq_or_ne a 0 with rfl | ha
    · have hzero {q m : Int} (h : 0 = q * b + m) (hm : m.natAbs < b.natAbs) : m = 0 :=
        Int.eq_zero_of_dvd_of_natAbs_lt_natAbs ⟨-q, by linarith⟩ hm
      rw [hzero h hm, hzero h' hm']
    · have hdvd : b ∣ m - m' := ⟨q' - q, by linarith⟩
      have := Int.eq_zero_of_dvd_of_natAbs_lt_natAbs hdvd (natAbs_sub_rest_lt hm hm' hs hs' ha)
      omega
  subst hmm
  exact ⟨mul_right_cancel₀ hb (by linarith), rfl⟩

theorem exact_div_tdiv (a : Int) (hb : b ≠ 0) :
    a = a.tdiv b * b + a.tmod b ∧ (a.tmod b).natAbs < b.natAbs ∧ 0 ≤ a * a.tmod b := by
  refine ⟨(Int.tdiv_mul_add_tmod a b).symm, ?_, ?_⟩
  · rw [Int.natAbs_tmod]
    exact Nat.mod_lt _ (Int.natAbs_pos.2 hb)
  · rcases le_total 0 a with ha | ha
    · exact mul_nonneg ha (Int.tmod_nonneg b ha)
    · have := Int.tmod_nonneg b (Int.neg_nonneg_of_nonpos ha)
      rw [Int.neg_tmod] at this
      exact mul_nonneg_of_nonpos_of_nonpos ha (by linarith)

end Division

namespace Value

variable {op : ArithmeticOp} {a b : Int64}

theorem exact_iff {a b : Int} (hb : op = .div ∨ op = .mod → b ≠ 0) (n : Int) :
    op.Exact a b n ↔ n = exactResult op a b := by
  cases op with
  | add | sub | mul => exact Iff.rfl
  | div =>
    obtain ⟨h, hm, hs⟩ := exact_div_tdiv a (hb (.inl rfl))
    constructor
    · rintro ⟨m, h', hm', hs'⟩
      exact (division_unique h' hm' hs' h hm hs).1
    · rintro rfl
      exact ⟨_, h, hm, hs⟩
  | mod =>
    obtain ⟨h, hm, hs⟩ := exact_div_tdiv a (hb (.inr rfl))
    constructor
    · rintro ⟨q, h', hm', hs'⟩
      exact (division_unique h' hm' hs' h hm hs).2
    · rintro rfl
      exact ⟨_, h, hm, hs⟩

theorem int64?_of_fits {n : Int} (h : FitsInt64 n) :
    int64? n = some (Int64.ofInt n) ∧ (Int64.ofInt n).toInt = n :=
  ⟨if_pos (fitsInt64_iff_range.1 h), Int64.toInt_ofInt_of_le h.1 h.2⟩

theorem int64?_of_not_fits {n : Int} (h : ¬ FitsInt64 n) : int64? n = none :=
  if_neg (mt fitsInt64_iff_range.2 h)

theorem decisiveResult_eq (op : ArithmeticOp) (a b : Int) :
    decisiveResult op a b = exactResult op.deciding a b := by
  cases op <;> rfl

theorem fails_iff (hb : op = .div ∨ op = .mod → b ≠ 0) :
    op.Fails a b ↔ ¬ FitsInt64 (decisiveResult op a.toInt b.toInt) := by
  have hb' : op.deciding = .div ∨ op.deciding = .mod → b.toInt ≠ 0 := by
    intro h hzero
    refine hb ?_ (Int64.toInt_inj.1 hzero)
    revert h
    cases op <;> simp [ArithmeticOp.deciding]
  rw [ArithmeticOp.Fails, decisiveResult_eq]
  constructor
  · rintro (⟨hop, hzero⟩ | ⟨n, hn, hfits⟩)
    · exact absurd hzero (hb hop)
    · rwa [← (exact_iff hb' n).1 hn]
  · exact fun h => .inr ⟨_, (exact_iff hb' _).2 rfl, h⟩

theorem fitsInt64_exactResult (hb : op = .div ∨ op = .mod → b ≠ 0)
    (h : FitsInt64 (decisiveResult op a.toInt b.toInt)) :
    FitsInt64 (exactResult op a.toInt b.toInt) := by
  cases op with
  | mod =>
    have hne : b.toInt ≠ 0 := fun hzero => hb (.inr rfl) (Int64.toInt_inj.1 hzero)
    have hlt := (exact_div_tdiv a.toInt hne).2.1
    have hlo := b.le_toInt
    have hhi := b.toInt_lt
    show -2 ^ 63 ≤ a.toInt.tmod b.toInt ∧ a.toInt.tmod b.toInt < 2 ^ 63
    omega
  | _ => exact h

theorem intArithmetic_ends (op : ArithmeticOp) (a b : Int64) :
    op.Ends a b (intArithmetic op a b) := by
  unfold intArithmetic
  split
  · rename_i hzero
    exact .fails (.inl hzero)
  rename_i hnot
  have hb : op = .div ∨ op = .mod → b ≠ 0 := fun hop hzero => hnot ⟨hop, hzero⟩
  by_cases h : FitsInt64 (decisiveResult op a.toInt b.toInt)
  · obtain ⟨-, htoInt⟩ := int64?_of_fits (fitsInt64_exactResult hb h)
    rw [(int64?_of_fits h).1]
    refine .exact (fun hfails => (fails_iff hb).1 hfails h) fun n => ?_
    rw [htoInt]
    exact exact_iff (fun hop hzero => hb hop (Int64.toInt_inj.1 hzero)) n
  · rw [int64?_of_not_fits h]
    exact .fails ((fails_iff hb).2 h)

theorem quotient_remainder {q r : Int64} (hq : intArithmetic .div a b = .ok (.int q))
    (hr : intArithmetic .mod a b = .ok (.int r)) :
    a.toInt = q.toInt * b.toInt + r.toInt ∧ r.toInt.natAbs < b.toInt.natAbs ∧
      0 ≤ a.toInt * r.toInt := by
  have hdiv := intArithmetic_ends .div a b
  have hmod := intArithmetic_ends .mod a b
  rw [hq] at hdiv
  rw [hr] at hmod
  cases hdiv with
  | exact _ hdiv =>
    cases hmod with
    | exact _ hmod =>
      obtain ⟨m, h, hm, hs⟩ := (hdiv q.toInt).2 rfl
      obtain ⟨q', h', hm', hs'⟩ := (hmod r.toInt).2 rfl
      obtain ⟨rfl, -⟩ := division_unique h hm hs h' hm' hs'
      exact ⟨h', hm', hs'⟩

theorem unary_neg_int (a : Int64) :
    (FitsInt64 (-a.toInt) → ∃ r : Int64, unary .neg (.int a) = .ok (.int r) ∧
      r.toInt = -a.toInt) ∧
    (¬ FitsInt64 (-a.toInt) →
      ∃ fault, unary .neg (.int a) = .error (.invalidOperation fault)) := by
  constructor
  · intro h
    obtain ⟨hsome, htoInt⟩ := int64?_of_fits h
    exact ⟨_, by rw [unary, hsome], htoInt⟩
  · intro h
    exact ⟨_, by rw [unary, int64?_of_not_fits h]⟩

end Value
end TextTemplate
