import TextTemplate.Toml.Draft
import TextTemplate.Toml.Number
import TextTemplate.Text

/-! Reading TOML text. Arrays and inline tables may nest 79 deep, and keys have at most 79
parts. -/

namespace TextTemplate.Toml

def nesting : Nat := 79

def readScalar : Reader Toml := fun cs =>
  match cs with
  | '"' :: _ | '\'' :: _ => (readString cs).map fun (s, rest) => (.string s, rest)
  | 't' :: _ => (Text.dropWord? ['t', 'r', 'u', 'e'] cs).map (.boolean true, ·)
  | 'f' :: _ => (Text.dropWord? ['f', 'a', 'l', 's', 'e'] cs).map (.boolean false, ·)
  | _ => readNumeric cs

def readItems (item : Reader Toml) : Nat → List Toml → Reader (List Toml)
  | 0, _, _ => none
  | n + 1, acc, cs =>
    match skipSpace cs with
    | ']' :: rest => some (acc.reverse, rest)
    | cs =>
      match item cs with
      | none => none
      | some (v, rest) =>
        match skipSpace rest with
        | ',' :: rest => readItems item n (v :: acc) rest
        | ']' :: rest => some ((v :: acc).reverse, rest)
        | _ => none

def readPair (item : Reader Toml) : Reader (List String × Toml) := fun cs =>
  match readKey nesting cs with
  | some (key, '=' :: rest) =>
    (item (skipBlanks rest)).map fun (v, rest) => ((key, v), rest)
  | _ => none

def addPair (pair : List String × Toml) (origin : Origin) (fields : Draft.Fields) :
    Option Draft.Fields :=
  Draft.addValue pair.1.dropLast (pair.1.getLastD "") pair.2 origin fields

def readPairs (item : Reader Toml) : Nat → Draft.Fields → Reader Draft.Fields
  | 0, _, _ => none
  | n + 1, fields, cs =>
    match readPair item cs with
    | none => none
    | some (pair, rest) =>
      match addPair pair .header fields, skipBlanks rest with
      | some fields, ',' :: rest => readPairs item n fields rest
      | some fields, '}' :: rest => some (fields, rest)
      | _, _ => none

def readValue : (depth : Nat) → Reader Toml
  | 0, cs => readScalar cs
  | depth + 1, cs =>
    match cs with
    | '[' :: rest =>
      (readItems (readValue depth) (rest.length + 1) [] rest).map fun (items, rest) =>
        (.array items, rest)
    | '{' :: rest =>
      match skipBlanks rest with
      | '}' :: rest => some (.table [], rest)
      | rest =>
        (readPairs (readValue depth) (rest.length + 1) [] rest).map fun (fields, rest) =>
          (.table (Draft.fieldsToToml fields), rest)
    | _ => readScalar cs

structure Document where
  fields : Draft.Fields
  header : List String

namespace Document

def empty : Document := ⟨[], []⟩

def add (pair : List String × Toml) (d : Document) : Option Document :=
  (Draft.atPath false (addPair pair) d.header .header d.fields).map fun fields =>
    { d with fields }

def openTable (key : List String) (d : Document) : Option Document :=
  (Draft.openTable key.dropLast (key.getLastD "") d.fields).map fun fields => ⟨fields, key⟩

def openElement (key : List String) (d : Document) : Option Document :=
  (Draft.openElement key.dropLast (key.getLastD "") d.fields).map fun fields => ⟨fields, key⟩

def readEntry (d : Document) : Reader Document
  | '[' :: '[' :: cs =>
    match readKey nesting cs with
    | some (key, ']' :: ']' :: rest) => (d.openElement key).map (·, rest)
    | _ => none
  | '[' :: cs =>
    match readKey nesting cs with
    | some (key, ']' :: rest) => (d.openTable key).map (·, rest)
    | _ => none
  | cs =>
    match readPair (readValue nesting) cs with
    | some (pair, rest) => (d.add pair).map (·, rest)
    | none => none

def readLines : Nat → Document → List Char → Option Document
  | n, d, cs =>
    match skipSpace cs with
    | [] => some d
    | cs =>
      if dropComment cs = [] then some d
      else
        match n with
        | 0 => none
        | n + 1 =>
          match d.readEntry cs with
          | none => none
          | some (d, rest) =>
            match dropLineEnd? rest with
            | some rest => readLines n d rest
            | none => none

end Document

def dropByteOrderMark : List Char → List Char
  | '\uFEFF' :: cs => cs
  | cs => cs

def ofString? (text : String) : Option Toml :=
  let cs := dropByteOrderMark text.toList
  (Document.readLines cs.length .empty cs).map fun d => .table (Draft.fieldsToToml d.fields)

end TextTemplate.Toml
