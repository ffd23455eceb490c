import TextTemplate.Value
import TextTemplate.Entries

/-! Equality of values. Numbers compare by what they stand for, maps by what is under each key,
and functions and objects of the host are equal only to themselves. -/

namespace TextTemplate.Value

/-- Two lambdas are the same if one expression created them with the same variables. -/
def sameClosure (a b : Closure) : Bool :=
  a.frame == b.frame && a.id == b.id

mutual

def equal : Value → Value → Bool
  | .null, .null => true
  | .bool a, .bool b => a == b
  | .int a, .int b => a == b
  | .int a, .float b => a.toFloat == b
  | .float a, .int b => a == b.toFloat
  | .float a, .float b => a == b
  | .string a, .string b => a == b
  | .array a, .array b => equalItems a b
  | .map a, .map b => a.length == b.length && equalUnder a b
  | .hostFunction f, .hostFunction g => f.id == g.id
  | .closure a, .closure b => sameClosure a b
  | .object a _ _ _, .object b _ _ _ => a == b
  | _, _ => false

def equalItems : List Value → List Value → Bool
  | [], [] => true
  | a :: as, b :: bs => equal a b && equalItems as bs
  | _, _ => false

def equalUnder : List (String × Value) → List (String × Value) → Bool
  | [], _ => true
  | (key, a) :: as, bs =>
    (match Entries.find? key bs with
      | some b => equal a b
      | none => false) && equalUnder as bs

end

end TextTemplate.Value
