import TextTemplate.Value
import TextTemplate.Decimal.FloatText

/-! The text of a value, as output statements print it. Null prints nothing, and the items of an
array are joined by commas. -/

namespace TextTemplate.Value

def objectText (typeName : String) (shown : Option String) : String :=
  shown.getD ("[object " ++ typeName ++ "]")

mutual

def text : Value → String
  | .null => ""
  | .bool b => if b then "true" else "false"
  | .int i => toString i.toInt
  | .float x => Decimal.floatText x
  | .string s => s
  | .array items => itemsText items
  | .map _ => "[object Map]"
  | .hostFunction _ | .closure _ => "[function]"
  | .object _ typeName _ shown => objectText typeName shown

def itemsText : List Value → String
  | [] => ""
  | v :: vs => v.text ++ laterText vs

def laterText : List Value → String
  | [] => ""
  | v :: vs => "," ++ v.text ++ laterText vs

end

end TextTemplate.Value
