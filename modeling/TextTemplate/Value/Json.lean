import TextTemplate.Value.Text
import TextTemplate.Json
import TextTemplate.Entries

/-! Values from JSON and back. A number that fits a signed 64-bit integer and is written as one is
an integer. -/

namespace TextTemplate.Value

def ofInt (i : Int) : Value :=
  if Int64.minValue.toInt ≤ i ∧ i ≤ Int64.maxValue.toInt then .int (Int64.ofInt i)
  else .float (Decimal.nearest (i < 0) i.natAbs 1)

mutual

def ofJson : Json → Value
  | .null => .null
  | .bool b => .bool b
  | .int i => ofInt i
  | .float x => .float x
  | .string s => .string s
  | .array items => .array (ofJsonItems items)
  | .object members => .map (Entries.ofList (ofJsonMembers members))

def ofJsonItems : List Json → List Value
  | [] => []
  | j :: js => ofJson j :: ofJsonItems js

def ofJsonMembers : List (String × Json) → List (String × Value)
  | [] => []
  | (key, j) :: ms => (key, ofJson j) :: ofJsonMembers ms

end

mutual

/-- The JSON of a value. Functions become null, objects of the host their text, and floats that
JSON cannot write become null. -/
def toJson : Value → Json
  | .null => .null
  | .bool b => .bool b
  | .int i => .int i.toInt
  | .float x => if x.isFinite then .float x else .null
  | .string s => .string s
  | .array items => .array (toJsonItems items)
  | .map entries => .object (toJsonEntries entries)
  | .hostFunction _ | .closure _ => .null
  | .object _ typeName _ shown => .string (objectText typeName shown)

def toJsonItems : List Value → List Json
  | [] => []
  | v :: vs => toJson v :: toJsonItems vs

def toJsonEntries : List (String × Value) → List (String × Json)
  | [] => []
  | (key, v) :: es => (key, toJson v) :: toJsonEntries es

end

end TextTemplate.Value
