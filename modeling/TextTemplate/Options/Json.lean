import TextTemplate.Options
import TextTemplate.Json
import TextTemplate.Entries

/-! Options from JSON: an object with any of the fields, or an array of the first of them in
order. Fields left out have their defaults, and fields that options do not have are ignored. -/

namespace TextTemplate

def ExtendMode.ofJson? : Json → Option ExtendMode
  | .string s => ofName? s
  | .object [(s, .null)] => ofName? s
  | _ => none

namespace Options

def sizeOfJson? (j : Json) : Option Nat :=
  match j.int? with
  | some i => if 0 ≤ i ∧ i < Int.pow 2 64 then some i.toNat else none
  | none => none

def fieldNames : List String :=
  ["open", "close", "ext", "cache", "cache_size", "max_depth", "extend"]

def ofMembers? (members : List (String × Json)) : Option Options := do
  let defaults : Options := {}
  let opening ← Entries.readOr Json.string? defaults.opening "open" members
  let closing ← Entries.readOr Json.string? defaults.closing "close" members
  let ext ← Entries.readOr Json.string? defaults.ext "ext" members
  let cache ← Entries.readOr Json.bool? defaults.cache "cache" members
  let cacheSize ← Entries.readOr sizeOfJson? defaults.cacheSize "cache_size" members
  let maxDepth ← Entries.readOr sizeOfJson? defaults.maxDepth "max_depth" members
  let extend ← Entries.readOr ExtendMode.ofJson? defaults.extend "extend" members
  pure { opening, closing, ext, cache, cacheSize, maxDepth, extend }

def ofJson? : Json → Option Options
  | .object members => ofMembers? members
  | .array items =>
    if items.length ≤ fieldNames.length then ofMembers? (fieldNames.zip items) else none
  | _ => none

end Options
end TextTemplate
