import TextTemplate.Error
import TextTemplate.Value.Text
import TextTemplate.Value.Equality
import TextTemplate.Decimal.Binary

/-! What operators, member access and loops do with values. Integers are computed exactly, and a
result beyond 64 bits is an error. Operators yield null, truth values, numbers and texts, which
could stand as literals. -/

namespace TextTemplate.Value

def int64? (n : Int) : Option Int64 :=
  if Int64.minValue.toInt ≤ n ∧ n ≤ Int64.maxValue.toInt then some (Int64.ofInt n) else none

def exactResult (op : ArithmeticOp) (a b : Int) : Int :=
  match op with
  | .add => a + b
  | .sub => a - b
  | .mul => a * b
  | .div => a.tdiv b
  | .mod => a.tmod b

/-- The number whose range decides whether an operation overflows: a remainder overflows with its
quotient. -/
def decisiveResult (op : ArithmeticOp) (a b : Int) : Int :=
  match op with
  | .mod => a.tdiv b
  | op => exactResult op a b

def intArithmetic (op : ArithmeticOp) (a b : Int64) : Except Error Value :=
  if (op = .div ∨ op = .mod) ∧ b = 0 then .error (.invalidOperation .divisionByZero)
  else
    match int64? (decisiveResult op a.toInt b.toInt) with
    | some _ => .ok (.int (Int64.ofInt (exactResult op a.toInt b.toInt)))
    | none => .error (.invalidOperation (.overflow op a b))

def floatArithmetic (op : ArithmeticOp) (a b : Float) : Float :=
  match op with
  | .add => a + b
  | .sub => a - b
  | .mul => a * b
  | .div => a / b
  | .mod => Decimal.remainder a b

def undefinedBinary {α : Type} (op : BinaryOp) (lhs rhs : Value) : Except Error α :=
  .error (.invalidOperation (.undefinedBinary op lhs.describe rhs.describe))

def numberArithmetic (op : ArithmeticOp) (lhs rhs : Value) : Except Error Value :=
  match lhs, rhs with
  | .int a, .int b => intArithmetic op a b
  | lhs, rhs =>
    match lhs.asFloat?, rhs.asFloat? with
    | some a, some b => .ok (.float (floatArithmetic op a b))
    | _, _ => undefinedBinary (.arithmetic op) lhs rhs

def arithmetic (op : ArithmeticOp) (lhs rhs : Value) : Except Error Value :=
  match op, lhs, rhs with
  | .add, .string a, v => .ok (.string (a ++ v.text))
  | .add, v, .string b => .ok (.string (v.text ++ b))
  | op, lhs, rhs => numberArithmetic op lhs rhs

def compareFloats (a b : Float) : Option Ordering :=
  if a < b then some .lt else if b < a then some .gt else if a == b then some .eq else none

def order? (lhs rhs : Value) : Option Ordering :=
  match lhs, rhs with
  | .int a, .int b => some (compare a.toInt b.toInt)
  | .string a, .string b => some (if a < b then .lt else if b < a then .gt else .eq)
  | lhs, rhs =>
    match lhs.asFloat?, rhs.asFloat? with
    | some a, some b => compareFloats a b
    | _, _ => none

def holds (op : ComparisonOp) (o : Ordering) : Bool :=
  match op with
  | .lt => o.isLT
  | .le => o.isLE
  | .gt => o.isGT
  | .ge => o.isGE

def comparison (op : ComparisonOp) (lhs rhs : Value) : Except Error Value :=
  match order? lhs rhs with
  | some o => .ok (.bool (holds op o))
  | none => undefinedBinary (.comparison op) lhs rhs

def binary (op : BinaryOp) (lhs rhs : Value) : Except Error Value :=
  match op with
  | .arithmetic op => arithmetic op lhs rhs
  | .eq => .ok (.bool (lhs.equal rhs))
  | .ne => .ok (.bool (!lhs.equal rhs))
  | .comparison op => comparison op lhs rhs

def unary (op : UnaryOp) (v : Value) : Except Error Value :=
  match op, v with
  | .not, v => .ok (.bool (!v.test))
  | .plus, .int i => .ok (.int i)
  | .plus, .float x => .ok (.float x)
  | .neg, .int i =>
    match int64? (-i.toInt) with
    | some j => .ok (.int j)
    | none => .error (.invalidOperation (.negationOverflow i))
  | .neg, .float x => .ok (.float (-x))
  | op, v => .error (.invalidOperation (.undefinedUnary op v.describe))

def length (n : Nat) : Value :=
  .int (Int64.ofNat n)

def member? (v : Value) (name : String) : Option Value :=
  match v with
  | .map entries => Entries.find? name entries
  | .object _ _ members _ => Entries.find? name members
  | .string s => if name = "length" then some (length s.length) else none
  | .array items => if name = "length" then some (length items.length) else none
  | _ => none

def member (v : Value) (name : String) : Except Error Value :=
  match v.member? name with
  | some m => .ok m
  | none => .error (.memberNotFound name v.describe)

def elements (v : Value) : Except Error (List Value) :=
  match v with
  | .array items => .ok items
  | .map entries => .ok (entries.map fun e => .string e.1)
  | .string s => .ok (s.toList.map fun c => .string (String.singleton c))
  | v => .error (.invalidOperation (.notIterable v.describe))

variable {v : Value}

theorem exists_literal_of_numberArithmetic {op : ArithmeticOp} {a b : Value}
    (h : numberArithmetic op a b = .ok v) : ∃ l : Literal, v = l.value := by
  unfold numberArithmetic at h
  split at h
  · unfold intArithmetic at h
    split at h
    · cases h
    split at h
    · exact ⟨.int _, (Except.ok.inj h).symm⟩
    · cases h
  · split at h
    · exact ⟨.float _, (Except.ok.inj h).symm⟩
    · cases h

theorem exists_literal_of_arithmetic {op : ArithmeticOp} {a b : Value}
    (h : arithmetic op a b = .ok v) : ∃ l : Literal, v = l.value := by
  unfold arithmetic at h
  split at h
  · exact ⟨.string _, (Except.ok.inj h).symm⟩
  · exact ⟨.string _, (Except.ok.inj h).symm⟩
  · exact exists_literal_of_numberArithmetic h

theorem exists_literal_of_binary {op : BinaryOp} {a b : Value} (h : binary op a b = .ok v) :
    ∃ l : Literal, v = l.value := by
  cases op with
  | arithmetic op => exact exists_literal_of_arithmetic h
  | eq | ne => exact ⟨.bool _, (Except.ok.inj h).symm⟩
  | comparison op =>
    simp only [binary, comparison] at h
    split at h
    · exact ⟨.bool _, (Except.ok.inj h).symm⟩
    · cases h

theorem exists_literal_of_unary {op : UnaryOp} {a : Value} (h : unary op a = .ok v) :
    ∃ l : Literal, v = l.value := by
  unfold unary at h
  split at h
  · exact ⟨.bool _, (Except.ok.inj h).symm⟩
  · exact ⟨.int _, (Except.ok.inj h).symm⟩
  · exact ⟨.float _, (Except.ok.inj h).symm⟩
  · split at h
    · exact ⟨.int _, (Except.ok.inj h).symm⟩
    · cases h
  · exact ⟨.float _, (Except.ok.inj h).symm⟩
  · cases h

end TextTemplate.Value
