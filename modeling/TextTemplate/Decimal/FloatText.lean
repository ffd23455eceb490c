import TextTemplate.Decimal.Shortest

/-! The text of a float: the shortest digits that read back, always positional, without a point
for a whole number. And the reverse: reading a decimal as the nearest float. -/

namespace TextTemplate.Decimal

def positional (d : Nat) (e : Int) : List Char :=
  let digits := Nat.toDigits 10 d
  if 0 ≤ e then digits ++ List.replicate e.toNat '0'
  else
    let places := (-e).toNat
    if places < digits.length then
      digits.take (digits.length - places) ++ '.' :: digits.drop (digits.length - places)
    else
      '0' :: '.' :: (List.replicate (places - digits.length) '0' ++ digits)

def Reading.text : Reading → String
  | .nan => "NaN"
  | .infinite negative => if negative then "-inf" else "inf"
  | .finite b =>
    let digits :=
      if b.mantissa = 0 then ['0']
      else
        let (d, e) := shortest b.mantissa b.exponent
        positional d e
    String.ofList (if b.negative then '-' :: digits else digits)

def floatText (x : Float) : String :=
  (Reading.ofFloat x).text

def readDigits (start : Nat) (digits : List Char) : Nat :=
  digits.foldl (fun n c => 10 * n + (c.toNat - '0'.toNat)) start

def ofDecimal (negative : Bool) (d : Nat) (e : Int) : Float :=
  if d = 0 then nearest negative 0 1
  else
    -- powers of ten beyond the reach of floats are not computed
    let k := e + digitCount d
    if 400 < k then nearest negative (Nat.pow 10 400) 1
    else if k < -400 then nearest negative 1 (Nat.pow 10 400)
    else nearest negative (d * Nat.pow 10 e.toNat) (Nat.pow 10 (-e).toNat)

def splitPoint (cs : List Char) : List Char × List Char × List Char :=
  let whole := cs.takeWhile Char.isDigit
  match cs.dropWhile Char.isDigit with
  | '.' :: rest => (whole, rest.takeWhile Char.isDigit, rest.dropWhile Char.isDigit)
  | rest => (whole, [], rest)

def readExponent : List Char → Option Int
  | '-' :: cs => if cs.isEmpty || !cs.all Char.isDigit then none else some (-(readDigits 0 cs))
  | '+' :: cs => if cs.isEmpty || !cs.all Char.isDigit then none else some (readDigits 0 cs)
  | cs => if cs.isEmpty || !cs.all Char.isDigit then none else some (readDigits 0 cs)

def readUnsigned (negative : Bool) (cs : List Char) : Option Float :=
  let name := String.ofList (cs.map Char.toLower)
  if name = "inf" || name = "infinity" then
    some (Float.ofBits (if negative then 0xfff0000000000000 else 0x7ff0000000000000))
  else if name = "nan" then some (Float.ofBits 0x7ff8000000000000)
  else
    let (whole, fraction, rest) := splitPoint cs
    if whole.isEmpty && fraction.isEmpty then none
    else
      let d := readDigits (readDigits 0 whole) fraction
      match rest with
      | [] => some (ofDecimal negative d (-fraction.length))
      | c :: more =>
        if c = 'e' || c = 'E' then
          (readExponent more).map fun e => ofDecimal negative d (e - fraction.length)
        else none

def readFloat (text : String) : Option Float :=
  match text.toList with
  | '-' :: cs => readUnsigned true cs
  | '+' :: cs => readUnsigned false cs
  | cs => readUnsigned false cs

end TextTemplate.Decimal
