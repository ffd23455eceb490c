import TextTemplate.Toml
import TextTemplate.Text.CharClass

/-! Blanks, comments, strings and keys of TOML text. Readers yield what they read and what
follows it. -/

namespace TextTemplate.Toml

abbrev Reader (α : Type) := List Char → Option (α × List Char)

def isBlank (c : Char) : Bool :=
  c = ' ' || c = '\t'

def skipBlanks (cs : List Char) : List Char :=
  cs.dropWhile isBlank

def isPlain (c : Char) : Bool :=
  c = '\t' || (0x20 ≤ c.toNat && c.toNat ≠ 0x7f)

def dropNewline? : List Char → Option (List Char)
  | '\n' :: cs => some cs
  | '\r' :: '\n' :: cs => some cs
  | _ => none

def dropComment : List Char → List Char
  | '#' :: cs => cs.dropWhile isPlain
  | cs => cs

def dropLineEnd? (cs : List Char) : Option (List Char) :=
  match dropComment (skipBlanks cs) with
  | [] => some []
  | cs => dropNewline? cs

def skipLines : Nat → List Char → List Char
  | 0, cs => cs
  | n + 1, cs =>
    match dropNewline? (dropComment (skipBlanks cs)) with
    | some cs => skipLines n cs
    | none => skipBlanks cs

def skipSpace (cs : List Char) : List Char :=
  skipLines cs.length cs

def hexNumber? (n : Nat) : List Char → Option Nat
  | [] => some n
  | c :: cs => (Text.hexDigit? c).bind fun d => hexNumber? (16 * n + d) cs

def readCodePoint (digits : Nat) : Reader Char := fun cs => do
  let n ← hexNumber? 0 (cs.take digits)
  if (cs.take digits).length = digits ∧ n.isValidChar then pure (Char.ofNat n, cs.drop digits)
  else none

def readEscape : Reader Char
  | 'b' :: cs => some ('\x08', cs)
  | 't' :: cs => some ('\t', cs)
  | 'n' :: cs => some ('\n', cs)
  | 'f' :: cs => some ('\x0c', cs)
  | 'r' :: cs => some ('\r', cs)
  | '"' :: cs => some ('"', cs)
  | '\\' :: cs => some ('\\', cs)
  | 'u' :: cs => readCodePoint 4 cs
  | 'U' :: cs => readCodePoint 8 cs
  | _ => none

/-- A string on one line after its opening quote; `acc` is what was read, reversed. Each step takes
a character at least, so `n` steps suffice for `n` characters. -/
def readLine (quote : Char) (escapes : Bool) : Nat → List Char → Reader String
  | 0, _, _ => none
  | n + 1, acc, cs =>
    match cs with
    | [] => none
    | c :: rest =>
      if c = quote then some (String.ofList acc.reverse, rest)
      else if escapes && c = '\\' then
        match readEscape rest with
        | some (c, rest) => readLine quote escapes n (c :: acc) rest
        | none => none
      else if isPlain c then readLine quote escapes n (c :: acc) rest
      else none

def skipBreaks : Nat → List Char → List Char
  | 0, cs => cs
  | n + 1, cs =>
    match dropNewline? (skipBlanks cs) with
    | some cs => skipBreaks n cs
    | none => skipBlanks cs

def dropContinuation? (cs : List Char) : Option (List Char) :=
  (dropNewline? (skipBlanks cs)).map fun cs => skipBreaks cs.length cs

def readLong (quote : Char) (escapes : Bool) : Nat → List Char → Reader String
  | 0, _, _ => none
  | n + 1, acc, cs =>
    match cs with
    | [] => none
    | c :: rest =>
      if c = quote then
        let count := (cs.takeWhile (· = quote)).length
        if count < 3 then readLong quote escapes n (c :: acc) rest
        else
          -- one or two quotes before the last three belong to the text
          let inside := min (count - 3) 2
          some (String.ofList (acc.reverse ++ List.replicate inside quote), cs.drop (inside + 3))
      else if escapes && c = '\\' then
        match dropContinuation? rest with
        | some rest => readLong quote escapes n acc rest
        | none =>
          match readEscape rest with
          | some (c, rest) => readLong quote escapes n (c :: acc) rest
          | none => none
      else
        match dropNewline? cs with
        | some rest => readLong quote escapes n ('\n' :: acc) rest
        | none => if isPlain c then readLong quote escapes n (c :: acc) rest else none

def dropFirstNewline (cs : List Char) : List Char :=
  (dropNewline? cs).getD cs

def readString : Reader String
  | '"' :: '"' :: '"' :: cs => readLong '"' true (cs.length + 1) [] (dropFirstNewline cs)
  | '\'' :: '\'' :: '\'' :: cs => readLong '\'' false (cs.length + 1) [] (dropFirstNewline cs)
  | '"' :: cs => readLine '"' true (cs.length + 1) [] cs
  | '\'' :: cs => readLine '\'' false (cs.length + 1) [] cs
  | _ => none

def isKeyChar (c : Char) : Bool :=
  c.isAlphanum || c = '_' || c = '-'

def readKeyPart : Reader String
  | '"' :: cs => readLine '"' true (cs.length + 1) [] cs
  | '\'' :: cs => readLine '\'' false (cs.length + 1) [] cs
  | cs =>
    let part := cs.takeWhile isKeyChar
    if part.isEmpty then none else some (String.ofList part, cs.drop part.length)

def readKey : Nat → Reader (List String)
  | 0, _ => none
  | n + 1, cs =>
    match readKeyPart (skipBlanks cs) with
    | none => none
    | some (part, rest) =>
      match skipBlanks rest with
      | '.' :: rest => (readKey n rest).map fun (parts, rest) => (part :: parts, rest)
      | rest => some ([part], rest)

end TextTemplate.Toml
