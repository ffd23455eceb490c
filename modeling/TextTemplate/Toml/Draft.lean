import TextTemplate.Toml
import TextTemplate.Entries

/-! Tables while a document is read. Headers and dotted keys lead to tables that may not exist yet,
and a table may be opened again only in ways that depend on how it came about. -/

namespace TextTemplate.Toml

inductive Origin where
  /-- It has a header of its own, or is the whole document. -/
  | header
  /-- A header of a table inside it made it. -/
  | passage
  /-- A dotted key made it. -/
  | dottedKey
  deriving Repr, DecidableEq

inductive Draft where
  | value (v : Toml)
  | table (origin : Origin) (entries : List (String × Draft))
  /-- Tables under one repeated header, of which the last can be added to. -/
  | tables (elements : List (List (String × Draft)))

namespace Draft

abbrev Fields := List (String × Draft)

mutual

def toToml : Draft → Toml
  | .value v => v
  | .table _ entries => .table (fieldsToToml entries)
  | .tables elements => .array (elementsToToml elements)

def fieldsToToml : List (String × Draft) → List (String × Toml)
  | [] => []
  | (key, d) :: entries => (key, d.toToml) :: fieldsToToml entries

def elementsToToml : List (List (String × Draft)) → List Toml
  | [] => []
  | entries :: elements => .table (fieldsToToml entries) :: elementsToToml elements

end

def onLast (f : Fields → Option Fields) : List Fields → Option (List Fields)
  | [] => none
  | [fields] => (f fields).map fun fields => [fields]
  | fields :: rest => (onLast f rest).map fun rest => fields :: rest

/-- Changes the table that a path leads to, and makes the tables on the way that are missing. The
path is part of a dotted key or of a header; a dotted key does not lead into tables with headers of
their own, and nothing leads into values. -/
def atPath (dotted : Bool) (f : Origin → Fields → Option Fields) :
    List String → Origin → Fields → Option Fields
  | [], origin, fields => f origin fields
  | key :: path, _, fields =>
    match Entries.find? key fields with
    | none => do
      let origin := if dotted then Origin.dottedKey else Origin.passage
      let inner ← atPath dotted f path origin []
      pure (Entries.insert key (.table origin inner) fields)
    | some (.value _) => none
    | some (.tables elements) => do
      let elements ← onLast (atPath dotted f path .header) elements
      pure (Entries.insert key (.tables elements) fields)
    | some (.table origin inner) =>
      if dotted && origin == .header then none
      else do
        let inner ← atPath dotted f path origin inner
        pure (Entries.insert key (.table origin inner) fields)

def addValue (path : List String) (key : String) (v : Toml) : Origin → Fields → Option Fields :=
  atPath true (fun origin fields =>
    -- a dotted key adds to a table that dotted keys made, a plain one to any other
    if (origin == .dottedKey) == path.isEmpty then none
    else if (Entries.find? key fields).isSome then none
    else some (Entries.insert key (.value v) fields)) path

def openTable (path : List String) (key : String) : Fields → Option Fields :=
  atPath false (fun _ fields =>
    match Entries.find? key fields with
    | none => some (Entries.insert key (.table .header []) fields)
    | some (.table .passage inner) => some (Entries.insert key (.table .header inner) fields)
    | some _ => none) path .header

def openElement (path : List String) (key : String) : Fields → Option Fields :=
  atPath false (fun _ fields =>
    match Entries.find? key fields with
    | none => some (Entries.insert key (.tables [[]]) fields)
    | some (.tables elements) => some (Entries.insert key (.tables (elements ++ [[]])) fields)
    | some _ => none) path .header

end Draft
end TextTemplate.Toml
