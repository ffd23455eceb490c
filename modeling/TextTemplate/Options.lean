import TextTemplate.Error
import TextTemplate.Token

/-! Options of an engine. -/

namespace TextTemplate

inductive ExtendMode where
  | eager
  /-- Renders the layout after the extending template, whose own text becomes a block of it. -/
  | deferred
  deriving Repr, DecidableEq

namespace ExtendMode

def name : ExtendMode → String
  | .eager => "eager"
  | .deferred => "deferred"

def ofName? (s : String) : Option ExtendMode :=
  if s = "eager" then some .eager else if s = "deferred" then some .deferred else none

end ExtendMode

structure Options where
  opening : String := "<%"
  closing : String := "%>"
  ext : String := ""
  cache : Bool := true
  cacheSize : Nat := 256
  /-- How deep templates, blocks and lambda calls may nest. -/
  maxDepth : Nat := 64
  extend : ExtendMode := .eager
  deriving Repr, DecidableEq

namespace Options

def delimiters (o : Options) : Except OptionsFault Delimiters :=
  -- of several faults the first one counts
  match Delimiters.ofStrings? o.opening o.closing with
  | none => .error .emptyDelimiter
  | some d =>
    if o.opening = o.closing then .error (.equalDelimiters o.opening)
    else if o.maxDepth = 0 then .error .noDepth
    else if o.cache ∧ o.cacheSize = 0 then .error .noCacheSize
    else .ok d

def validate (o : Options) : Except Error Unit :=
  match o.delimiters with
  | .ok _ => .ok ()
  | .error fault => .error (.invalidOptions fault)

end Options
end TextTemplate
