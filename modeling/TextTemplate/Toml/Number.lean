import TextTemplate.Toml.Text
import TextTemplate.Decimal.FloatText

/-! Numbers, dates and times in TOML text. Single underscores may stand between digits. -/

namespace TextTemplate.Toml

/-- Digits of a class; an underscore must have a digit on both sides. `acc` holds the digits
reversed. -/
def readDigitsAfter (isDigit : Char → Bool) (acc : List Char) : Reader (List Char)
  | '_' :: c :: cs => if isDigit c then readDigitsAfter isDigit (c :: acc) cs else none
  | ['_'] => none
  | c :: cs =>
    if isDigit c then readDigitsAfter isDigit (c :: acc) cs else some (acc.reverse, c :: cs)
  | [] => some (acc.reverse, [])

def readDigits (isDigit : Char → Bool) : Reader (List Char)
  | c :: cs => if isDigit c then readDigitsAfter isDigit [c] cs else none
  | [] => none

def takeSign : List Char → List Char × List Char
  | '-' :: cs => (['-'], cs)
  | '+' :: cs => (['+'], cs)
  | cs => ([], cs)

def readWhole : Reader (List Char)
  | '0' :: cs => some (['0'], cs)
  | cs => readDigits Char.isDigit cs

def readExponent : Reader (List Char)
  | c :: cs =>
    if c = 'e' || c = 'E' then do
      let (sign, cs) := takeSign cs
      let (digits, cs) ← readDigits Char.isDigit cs
      pure ('e' :: sign ++ digits, cs)
    else none
  | [] => none

def readScale : Reader (List Char)
  | '.' :: cs => do
    let (digits, cs) ← readDigits Char.isDigit cs
    match readExponent cs with
    | some (e, cs) => pure ('.' :: digits ++ e, cs)
    | none => pure ('.' :: digits, cs)
  | cs => readExponent cs

def readFloat : Reader Toml := fun cs => do
  let (sign, cs) := takeSign cs
  let (whole, cs) ← readWhole cs
  let (scale, cs) ← readScale cs
  let x ← Decimal.readFloat (String.ofList (sign ++ whole ++ scale))
  if x.isInf && 0 < x then none else pure (.float x, cs)

def readSpecial : Reader Toml := fun cs =>
  let (sign, cs) := takeSign cs
  let value (name : List Char) : Option Toml :=
    (Decimal.readFloat (String.ofList (sign ++ name))).map .float
  match cs with
  | 'i' :: 'n' :: 'f' :: cs => (value ['i', 'n', 'f']).map (·, cs)
  | 'n' :: 'a' :: 'n' :: cs => (value ['n', 'a', 'n']).map (·, cs)
  | _ => none

def integer? (i : Int) : Option Toml :=
  if -Int.pow 2 63 ≤ i ∧ i < Int.pow 2 63 then some (.integer i) else none

def numberOf (base : Nat) (digits : List Char) : Nat :=
  digits.foldl (fun n c => base * n + (Text.hexDigit? c).getD 0) 0

def readBased (base : Nat) : Reader Toml := fun cs => do
  let (digits, cs) ← readDigits (fun c => (Text.hexDigit? c).any (· < base)) cs
  let v ← integer? (numberOf base digits)
  pure (v, cs)

def readInteger : Reader Toml
  | '0' :: 'x' :: cs => readBased 16 cs
  | '0' :: 'o' :: cs => readBased 8 cs
  | '0' :: 'b' :: cs => readBased 2 cs
  | cs => do
    let (sign, cs) := takeSign cs
    let (digits, cs) ← readWhole cs
    let n : Int := numberOf 10 digits
    let v ← integer? (if sign = ['-'] then -n else n)
    pure (v, cs)

def readFixed (count low high : Nat) : Reader Nat := fun cs =>
  let digits := cs.take count
  let n := numberOf 10 digits
  if digits.length = count ∧ digits.all Char.isDigit ∧ low ≤ n ∧ n ≤ high then
    some (n, cs.drop count)
  else none

def dropChar? (c : Char) : List Char → Option (List Char)
  | c' :: cs => if c' = c then some cs else none
  | [] => none

def isLeapYear (year : Nat) : Bool :=
  year % 4 = 0 && (year % 100 ≠ 0 || year % 400 = 0)

def daysInMonth (year month : Nat) : Nat :=
  if month = 2 then (if isLeapYear year then 29 else 28)
  else if month = 4 ∨ month = 6 ∨ month = 9 ∨ month = 11 then 30
  else 31

def dropDate? (cs : List Char) : Option (List Char) := do
  let (year, cs) ← readFixed 4 0 9999 cs
  let cs ← dropChar? '-' cs
  let (month, cs) ← readFixed 2 1 12 cs
  let cs ← dropChar? '-' cs
  let (_, cs) ← readFixed 2 1 (daysInMonth year month) cs
  pure cs

def dropTime? (cs : List Char) : Option (List Char) := do
  let (_, cs) ← readFixed 2 0 23 cs
  let cs ← dropChar? ':' cs
  let (_, cs) ← readFixed 2 0 59 cs
  let cs ← dropChar? ':' cs
  -- a minute may have a leap second
  let (_, cs) ← readFixed 2 0 60 cs
  match cs with
  | '.' :: c :: rest => if c.isDigit then pure (rest.dropWhile Char.isDigit) else pure cs
  | _ => pure cs

def dropOffset? (cs : List Char) : Option (List Char) :=
  match cs with
  | 'Z' :: cs | 'z' :: cs => some cs
  | '+' :: rest | '-' :: rest => do
    let (_, rest) ← readFixed 2 0 23 rest
    let rest ← dropChar? ':' rest
    let (_, rest) ← readFixed 2 0 59 rest
    pure rest
  | _ => some cs

def dropDateTime? (cs : List Char) : Option (List Char) :=
  match dropDate? cs with
  | none => dropTime? cs
  | some cs =>
    match cs with
    | 'T' :: rest | 't' :: rest | ' ' :: rest =>
      match dropTime? rest with
      | some rest => dropOffset? rest
      | none => some cs
    | _ => some cs

def readDateTime : Reader Toml := fun cs =>
  (dropDateTime? cs).map fun rest =>
    (.dateTime (String.ofList (cs.take (cs.length - rest.length))), rest)

def readNumeric : Reader Toml := fun cs =>
  readDateTime cs <|> readFloat cs <|> readSpecial cs <|> readInteger cs

end TextTemplate.Toml
