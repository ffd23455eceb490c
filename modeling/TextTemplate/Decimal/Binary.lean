/-! A float as a sign and a whole number times a power of two, read off its bits, the float nearest
to a ratio of whole numbers, and the exact remainder of two floats: what is left of the dividend
after taking away the divisor as often as it goes, with the sign of the dividend. -/

namespace TextTemplate.Decimal

/-- The number `mantissa · 2 ^ exponent`, negated if `negative`. -/
structure Binary where
  negative : Bool
  mantissa : Nat
  exponent : Int
  deriving Repr, DecidableEq

inductive Reading where
  | nan
  | infinite (negative : Bool)
  | finite (b : Binary)
  deriving Repr, DecidableEq

/-- A double has 52 stored fraction bits; the exponent field zero marks the numbers without a
leading one, and the largest marks the infinities and what is not a number. -/
def Reading.ofBits (bits : Nat) : Reading :=
  let negative : Bool := bits / Nat.pow 2 63 % 2 = 1
  let field : Nat := bits / Nat.pow 2 52 % Nat.pow 2 11
  let fraction : Nat := bits % Nat.pow 2 52
  if field = 2047 then
    if fraction = 0 then .infinite negative else .nan
  else if field = 0 then
    .finite ⟨negative, fraction, -1074⟩
  else
    .finite ⟨negative, fraction + Nat.pow 2 52, (field : Int) - 1075⟩

def Reading.ofFloat (x : Float) : Reading :=
  .ofBits x.toBits.toNat

/-- The quotient of `num` by `den · 2 ^ e`, as a whole number, a rest and what it is a rest of. -/
def quotientAt (num den : Nat) (e : Int) : Nat × Nat × Nat :=
  let n := num * Nat.pow 2 (-e).toNat
  let d := den * Nat.pow 2 e.toNat
  (n / d, n % d, d)

def roundEven (q r d : Nat) : Nat :=
  if 2 * r < d then q else if d < 2 * r then q + 1 else q + q % 2

def exponentFor (num den : Nat) : Int :=
  let guess := (num.log2 : Int) - den.log2 - 52
  let e := if (quotientAt num den guess).1 < Nat.pow 2 52 then guess - 1 else guess
  max e (-1074)

/-- The bits of the non-negative float nearest to `num / den`, of two equally near ones the even
one. -/
def nearestBits (num den : Nat) : Nat :=
  if num = 0 then 0
  else
    let e := exponentFor num den
    let (q, r, d) := quotientAt num den e
    let m := roundEven q r d
    let (m, e) := if m = Nat.pow 2 53 then (Nat.pow 2 52, e + 1) else (m, e)
    if 971 < e then 2047 * Nat.pow 2 52
    else if m < Nat.pow 2 52 then m
    else (e + 1075).toNat * Nat.pow 2 52 + (m - Nat.pow 2 52)

def nearest (negative : Bool) (num den : Nat) : Float :=
  let x := Float.ofBits (UInt64.ofNat (nearestBits num den))
  if negative then -x else x

def Binary.remainder (a b : Binary) : Float :=
  let low := min a.exponent b.exponent
  let x := a.mantissa * Nat.pow 2 (a.exponent - low).toNat
  let y := b.mantissa * Nat.pow 2 (b.exponent - low).toNat
  nearest a.negative (x % y * Nat.pow 2 low.toNat) (Nat.pow 2 (-low).toNat)

/-- What is not a number, an infinite dividend and a divisor zero leave no number; an infinite
divisor leaves the dividend. -/
def remainder (x y : Float) : Float :=
  match Reading.ofFloat x, Reading.ofFloat y with
  | .finite a, .finite b =>
    if b.mantissa = 0 then Float.ofBits 0x7ff8000000000000 else a.remainder b
  | .finite _, .infinite _ => x
  | _, _ => Float.ofBits 0x7ff8000000000000

end TextTemplate.Decimal
