import TextTemplate.Tree

/-! The values that templates compute with. -/

namespace TextTemplate

structure HostFunction where
  id : Nat
  name : String
  deriving Repr, DecidableEq

/-- The variables of one execution of a program: the number of the render, and that of the
execution within it. -/
structure FrameId where
  render : Nat
  index : Nat
  deriving Repr, DecidableEq

structure Closure where
  frame : FrameId
  id : Nat
  params : List Nat
  body : List SlotStmt

inductive Value where
  | null
  | bool (b : Bool)
  | int (i : Int64)
  | float (x : Float)
  | string (s : String)
  | array (items : List Value)
  /-- Values under distinct text keys, in the order of insertion. -/
  | map (entries : List (String × Value))
  | hostFunction (f : HostFunction)
  | closure (c : Closure)
  /-- A value of the host program that shows members only. Two are the same if they have the same
  number. -/
  | object (id : Nat) (typeName : String) (members : List (String × Value))
      (shown : Option String)

instance : Inhabited Value := ⟨.null⟩

def Literal.value : Literal → Value
  | .null => .null
  | .bool b => .bool b
  | .int i => .int i
  | .float x => .float x
  | .string s => .string s

namespace Value

def isNull : Value → Bool
  | .null => true
  | _ => false

def typeName : Value → String
  | .null => "null"
  | .bool _ => "boolean"
  | .int _ | .float _ => "number"
  | .string _ => "string"
  | .array _ => "array"
  | .map _ => "map"
  | .hostFunction _ | .closure _ => "function"
  | .object _ typeName _ _ => typeName

def describe : Value → String
  | .null => "null"
  | .object _ typeName _ _ => "object of type " ++ typeName
  | v => v.typeName ++ " value"

def asFloat? : Value → Option Float
  | .int i => some i.toFloat
  | .float x => some x
  | _ => none

def asString? : Value → Option String
  | .string s => some s
  | _ => none

/-- Whether a test passes. A text passes only if it is empty, an array or map only if it is not. -/
def test : Value → Bool
  | .null => false
  | .bool b => b
  | .string s => s.isEmpty
  | .array items => !items.isEmpty
  | .map entries => !entries.isEmpty
  | .int i => i != 0
  | .float x => x != 0
  | .hostFunction _ | .closure _ | .object .. => true

end Value
end TextTemplate
