import TextTemplate.Options
import TextTemplate.Entries
import TextTemplate.Toml

/-! The configuration of a project. Every field may be left out, and fields that the configuration
does not have are ignored. -/

namespace TextTemplate

structure EngineConfig where
  root : String := "."
  ext : String := ""
  opening : String := "<%"
  closing : String := "%>"
  cache : Bool := true
  maxDepth : Option Nat := none
  extend : ExtendMode := .eager
  deriving Repr, DecidableEq

structure RenderConfig where
  data : Option String := none
  output : Option String := none
  deriving Repr, DecidableEq

structure Config where
  engine : EngineConfig := {}
  render : RenderConfig := {}
  deriving Repr, DecidableEq

def EngineConfig.options (c : EngineConfig) : Options :=
  let defaults : Options := {}
  { opening := c.opening, closing := c.closing, ext := c.ext, cache := c.cache,
    maxDepth := c.maxDepth.getD defaults.maxDepth, extend := c.extend }

namespace Config

/-- The fields of a section: a table, an array of the first fields in order, or, as a date has no
field of a section, a date. -/
def section? (names : List String) : Toml → Option (List (String × Toml))
  | .table entries => some entries
  | .array items => some (names.zip items)
  | .dateTime _ => some []
  | _ => none

def extendMode? : Toml → Option ExtendMode
  | .string name => ExtendMode.ofName? name
  | .table [(name, v)] => if v.isEmptyContainer then ExtendMode.ofName? name else none
  | _ => none

def engineOfToml? (t : Toml) : Option EngineConfig := do
  let fields ← section? ["root", "ext", "open", "close", "cache", "max_depth", "extend"] t
  let defaults : EngineConfig := {}
  let root ← Entries.readOr Toml.string? defaults.root "root" fields
  let ext ← Entries.readOr Toml.string? defaults.ext "ext" fields
  let opening ← Entries.readOr Toml.string? defaults.opening "open" fields
  let closing ← Entries.readOr Toml.string? defaults.closing "close" fields
  let cache ← Entries.readOr Toml.boolean? defaults.cache "cache" fields
  let maxDepth ← Entries.readOr (fun v => v.size?.map some) defaults.maxDepth "max_depth" fields
  let extend ← Entries.readOr extendMode? defaults.extend "extend" fields
  pure { root, ext, opening, closing, cache, maxDepth, extend }

def renderOfToml? (t : Toml) : Option RenderConfig := do
  let fields ← section? ["data", "output"] t
  let data ← Entries.readOr (fun v => v.string?.map some) none "data" fields
  let output ← Entries.readOr (fun v => v.string?.map some) none "output" fields
  match t with
  | .array (_ :: _ :: _) => pure { data, output }
  | .array _ => none
  | _ => pure { data, output }

def ofToml? (t : Toml) : Option Config := do
  let fields ← section? ["engine", "render"] t
  let engine ← Entries.readOr engineOfToml? {} "engine" fields
  let render ← Entries.readOr renderOfToml? {} "render" fields
  pure { engine, render }

end Config
end TextTemplate
