import TextTemplate.Decimal.Binary

/-! The fewest decimal digits that read back as a given float: of the numbers with that many
digits inside the interval that rounds to the float, the nearest one. All arithmetic is exact. -/

namespace TextTemplate.Decimal

/-- A positive number `num / den` with the distances to the ends of the interval of numbers that
round to it, over the same denominator. -/
structure Rounding where
  num : Nat
  den : Nat
  below : Nat
  above : Nat
  closed : Bool
  deriving Repr

/-- The interval around `m · 2 ^ e` ends half way to the neighbours, and the lower neighbour is
twice as near when `m` is the least mantissa with all its bits. -/
def Rounding.ofBinary (m : Nat) (e : Int) : Rounding :=
  let up := Nat.pow 2 e.toNat
  { num := 4 * m * up
    den := 4 * Nat.pow 2 (-e).toNat
    below := (if m = Nat.pow 2 52 then 1 else 2) * up
    above := 2 * up
    closed := m % 2 == 0 }

def digitCount (n : Nat) : Nat :=
  (Nat.toDigits 10 n).length

def magnitude (num den : Nat) : Int :=
  if den ≤ num then digitCount (num / den)
  else
    let t := digitCount (den / num) - 1
    if num * Nat.pow 10 t < den then -t else 1 - t

namespace Rounding

def within (r : Rounding) (distance limit : Nat) : Bool :=
  if r.closed then distance ≤ limit else distance < limit

/-- The multiple of `10 ^ e` nearest to the number, a half going up, if one lies in the interval. -/
def onGrid (r : Rounding) (e : Int) : Option Nat :=
  let scale := Nat.pow 10 (-e).toNat
  let unit := r.den * Nat.pow 10 e.toNat
  let n := r.num * scale
  let d := n / unit
  let down := n - d * unit
  let up := (d + 1) * unit - n
  let lower := r.within down (r.below * scale)
  let upper := r.within up (r.above * scale)
  if lower && upper then some (if down < up then d else d + 1)
  else if lower then some d
  else if upper then some (d + 1)
  else none

end Rounding

def shortest (m : Nat) (e : Int) : Nat × Int :=
  let r := Rounding.ofBinary m e
  let k := magnitude r.num r.den
  -- seventeen digits always suffice
  let found := (List.range 17).findSome? fun (i : Nat) =>
    let x : Int := k - (i + 1 : Nat)
    (r.onGrid x).map fun d => (d, x, i + 1)
  match found with
  | some (d, x, n) => if d = Nat.pow 10 n then (1, x + (n : Int)) else (d, x)
  | none => (r.num / r.den, 0)

end TextTemplate.Decimal
