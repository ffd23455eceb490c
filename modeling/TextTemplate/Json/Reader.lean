import TextTemplate.Json.Number
import TextTemplate.Entries
import TextTemplate.Text.CharClass
import TextTemplate.Text

/-! Reading JSON text. Of a key that stands more than once in an object the first place and the
last value count. Arrays and objects may nest 127 deep. -/

namespace TextTemplate.Json

def isSpace (c : Char) : Bool :=
  c = ' ' || c = '\t' || c = '\n' || c = '\r'

def skipSpace (cs : List Char) : List Char :=
  cs.dropWhile isSpace

def readUnit : List Char → Option (Nat × List Char)
  | a :: b :: c :: d :: rest => do
    let a ← Text.hexDigit? a
    let b ← Text.hexDigit? b
    let c ← Text.hexDigit? c
    let d ← Text.hexDigit? d
    pure (((a * 16 + b) * 16 + c) * 16 + d, rest)
  | _ => none

def readUnicode (cs : List Char) : Option (Char × List Char) := do
  let (u, rest) ← readUnit cs
  if 0xdc00 ≤ u ∧ u ≤ 0xdfff then none
  else if 0xd800 ≤ u ∧ u ≤ 0xdbff then
    match rest with
    | '\\' :: 'u' :: rest =>
      let (v, rest) ← readUnit rest
      if 0xdc00 ≤ v ∧ v ≤ 0xdfff then
        pure (Char.ofNat (0x10000 + (u - 0xd800) * 0x400 + (v - 0xdc00)), rest)
      else none
    | _ => none
  else pure (Char.ofNat u, rest)

def readEscape : List Char → Option (Char × List Char)
  | 'u' :: cs => readUnicode cs
  | c :: cs =>
    match c with
    | '"' => some ('"', cs)
    | '\\' => some ('\\', cs)
    | '/' => some ('/', cs)
    | 'b' => some ('\x08', cs)
    | 'f' => some ('\x0c', cs)
    | 'n' => some ('\n', cs)
    | 'r' => some ('\r', cs)
    | 't' => some ('\t', cs)
    | _ => none
  | [] => none

/-- A string after its opening quote; `acc` is what was read, reversed. Each step takes at least
one character, so `n` steps suffice for `n` characters. -/
def readString : Nat → List Char → List Char → Option (String × List Char)
  | 0, _, _ => none
  | n + 1, acc, cs =>
    match cs with
    | [] => none
    | '"' :: rest => some (String.ofList acc.reverse, rest)
    | '\\' :: rest =>
      match readEscape rest with
      | some (c, rest) => readString n (c :: acc) rest
      | none => none
    | c :: rest => if c.toNat < 0x20 then none else readString n (c :: acc) rest

def readScalar (cs : List Char) : Option (Json × List Char) :=
  match cs with
  | '"' :: rest => (readString (rest.length + 1) [] rest).map fun (s, rest) => (.string s, rest)
  | 'n' :: _ => (Text.dropWord? ['n', 'u', 'l', 'l'] cs).map (.null, ·)
  | 't' :: _ => (Text.dropWord? ['t', 'r', 'u', 'e'] cs).map (.bool true, ·)
  | 'f' :: _ => (Text.dropWord? ['f', 'a', 'l', 's', 'e'] cs).map (.bool false, ·)
  | _ => readNumber cs

def readItems (item : List Char → Option (Json × List Char)) :
    Nat → List Json → List Char → Option (List Json × List Char)
  | 0, _, _ => none
  | n + 1, acc, cs =>
    match skipSpace cs with
    | ']' :: rest => some (acc.reverse, rest)
    | ',' :: rest =>
      match item (skipSpace rest) with
      | some (j, rest) => readItems item n (j :: acc) rest
      | none => none
    | _ => none

def readMember (item : List Char → Option (Json × List Char)) (cs : List Char) :
    Option ((String × Json) × List Char) :=
  match cs with
  | '"' :: rest =>
    match readString (rest.length + 1) [] rest with
    | some (key, rest) =>
      match skipSpace rest with
      | ':' :: rest => (item (skipSpace rest)).map fun (j, rest) => ((key, j), rest)
      | _ => none
    | none => none
  | _ => none

def readMembers (item : List Char → Option (Json × List Char)) :
    Nat → List (String × Json) → List Char → Option (List (String × Json) × List Char)
  | 0, _, _ => none
  | n + 1, acc, cs =>
    match skipSpace cs with
    | '}' :: rest => some (acc.reverse, rest)
    | ',' :: rest =>
      match readMember item (skipSpace rest) with
      | some (m, rest) => readMembers item n (m :: acc) rest
      | none => none
    | _ => none

def readValue : (depth : Nat) → List Char → Option (Json × List Char)
  | 0, cs => readScalar cs
  | depth + 1, cs =>
    match cs with
    | '[' :: rest =>
      match skipSpace rest with
      | ']' :: rest => some (.array [], rest)
      | rest =>
        match readValue depth rest with
        | some (j, rest) =>
          (readItems (readValue depth) (rest.length + 1) [j] rest).map fun (js, rest) =>
            (.array js, rest)
        | none => none
    | '{' :: rest =>
      match skipSpace rest with
      | '}' :: rest => some (.object [], rest)
      | rest =>
        match readMember (readValue depth) rest with
        | some (m, rest) =>
          (readMembers (readValue depth) (rest.length + 1) [m] rest).map fun (ms, rest) =>
            (.object (Entries.ofList ms), rest)
        | none => none
    | _ => readScalar cs

def ofString? (text : String) : Option Json :=
  match readValue 127 (skipSpace text.toList) with
  | some (j, rest) => if (skipSpace rest).isEmpty then some j else none
  | none => none

end TextTemplate.Json
