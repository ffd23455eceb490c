import TextTemplate.Json
import TextTemplate.Decimal.FloatText

/-! Numbers in JSON text. A number without fraction and exponent that fits 64 bits is a whole
number. Any other is its leading digits, as many as fit 64 bits without sign, scaled by a power of
ten in floating point. -/

namespace TextTemplate.Json

/-- A number under way: its digits so far and the power of ten that they are to be scaled by. -/
structure Scaled where
  digits : Nat
  exponent : Int

def takeDigits (start : Nat) : List Char → Nat × Nat × List Char
  | [] => (start, 0, [])
  | c :: cs =>
    if c.isDigit then
      let next := 10 * start + (c.toNat - '0'.toNat)
      if Nat.pow 2 64 ≤ next then (start, 0, c :: cs)
      else
        let (n, count, rest) := takeDigits next cs
        (n, count + 1, rest)
    else (start, 0, c :: cs)

/-- Scales by a power of ten: one multiplication or division, or several divisions below the
least power. Nothing if the result is too large for a float. -/
def scale : Nat → Float → Int → Option Float
  | 0, x, _ => some x
  | n + 1, x, e =>
    if e.natAbs ≤ 308 then
      let power := Decimal.nearest false (Nat.pow 10 e.natAbs) 1
      if 0 ≤ e then
        let y := x * power
        if y.isInf then none else some y
      else some (x / power)
    else if x == 0 then some x
    else if 0 ≤ e then none
    else scale n (x / Decimal.nearest false (Nat.pow 10 308) 1) (e + 308)

def Scaled.toFloat (s : Scaled) (negative : Bool) : Option Float :=
  -- four divisions make any number of 64 bits zero
  (scale 4 (Decimal.nearest false s.digits 1) s.exponent).map fun x => if negative then -x else x

def readExponent (negative : Bool) (s : Scaled) (cs : List Char) : Option (Json × List Char) :=
  let (down, cs) :=
    match cs with
    | '-' :: rest => (true, rest)
    | '+' :: rest => (false, rest)
    | rest => (false, rest)
  let digits := cs.takeWhile Char.isDigit
  let rest := cs.dropWhile Char.isDigit
  let e := Decimal.readDigits 0 digits
  if digits.isEmpty then none
  else if Nat.pow 2 31 ≤ e then
    if s.digits ≠ 0 && !down then none
    else some (.float (if negative then -0.0 else 0.0), rest)
  else
    let exponent := if down then s.exponent - e else s.exponent + e
    (Scaled.toFloat { s with exponent } negative).map fun x => (.float x, rest)

def readScaled (negative : Bool) (s : Scaled) (cs : List Char) : Option (Json × List Char) :=
  match cs with
  | 'e' :: rest | 'E' :: rest => readExponent negative s rest
  | rest => (s.toFloat negative).map fun x => (.float x, rest)

def readFraction (negative : Bool) (s : Scaled) (cs : List Char) : Option (Json × List Char) :=
  if cs.head?.all fun c => !c.isDigit then none
  else
    let (digits, count, rest) := takeDigits s.digits cs
    readScaled negative ⟨digits, s.exponent - count⟩ (rest.dropWhile Char.isDigit)

def readUnsigned (negative : Bool) (cs : List Char) : Option (Json × List Char) :=
  let leadingZero := cs.head? == some '0' && (cs.drop 1).head?.any Char.isDigit
  if leadingZero || cs.head?.all (fun c => !c.isDigit) then none
  else
    let (digits, _, rest) := takeDigits 0 cs
    let skipped := rest.takeWhile Char.isDigit
    let s : Scaled := ⟨digits, skipped.length⟩
    match rest.drop skipped.length with
    | '.' :: rest => readFraction negative s rest
    | 'e' :: rest | 'E' :: rest => readExponent negative s rest
    | rest =>
      if !skipped.isEmpty then (s.toFloat negative).map fun x => (.float x, rest)
      else if !negative then some (.int digits, rest)
      else if digits = 0 || Nat.pow 2 63 < digits then
        (s.toFloat negative).map fun x => (.float x, rest)
      else some (.int (-digits), rest)

def readNumber : List Char → Option (Json × List Char)
  | '-' :: cs => readUnsigned true cs
  | cs => readUnsigned false cs

end TextTemplate.Json
