import TextTemplate.Project
import TextTemplate.Options

/-! The command line: what its arguments ask for. General options stand before or after the name
of the command, and one after the name counts for more. An option whose value is an argument of its
own is set when the next option or operand comes; one that stands right before the name of a
command is set after the arguments of the command, so that a call for help there comes first. -/

namespace TextTemplate

inductive Command where
  | render (request : RenderRequest) (watch : Bool)
  | check (templates : List String)
  deriving Repr, DecidableEq

structure Overrides where
  root : Option String
  ext : Option String
  opening : Option String
  closing : Option String
  extend : Option ExtendMode
  deriving Repr, DecidableEq

namespace CommandLine

inductive Level where
  | top | render | check
  deriving Repr, DecidableEq

inductive Topic where
  | program | render | check | help
  deriving Repr, DecidableEq

def Level.topic : Level → Topic
  | .top => .program
  | .render => .render
  | .check => .check

inductive Setting where
  | logLevel | config | root | ext | opening | closing | extend | data | output
  deriving Repr, DecidableEq

namespace Setting

def all : List Setting :=
  [.logLevel, .config, .root, .ext, .opening, .closing, .extend, .data, .output]

def name : Setting → String
  | .logLevel => "log-level"
  | .config => "config"
  | .root => "root"
  | .ext => "ext"
  | .opening => "open"
  | .closing => "close"
  | .extend => "extend"
  | .data => "data"
  | .output => "output"

def allowedAt (l : Level) : Setting → Bool
  | .data | .output => l == .render
  | _ => true

def accepts (value : String) : Setting → Bool
  | .config | .data | .output => !value.isEmpty
  | .extend => (ExtendMode.ofName? value).isSome
  | _ => true

def ofLong? (l : Level) (name : String) : Option Setting :=
  all.find? fun s => s.name == name && s.allowedAt l

def ofShort? (l : Level) (c : Char) : Option Setting :=
  if c = 'd' then (if l == .render then some .data else none)
  else if c = 'o' then (if l == .render then some .output else none)
  else none

end Setting

inductive Stop where
  | help (topic : Topic)
  | version
  | misuse
  deriving Repr, DecidableEq

structure Given where
  settings : List (Setting × String) := []
  /-- The last option whose value was an argument of its own, until it is set. -/
  held : Option (Setting × String) := none
  watch : Bool := false
  positional : List String := []

namespace Given

def set (setting : Setting) (value : String) (g : Given) : Except Stop Given :=
  if g.settings.any (·.1 == setting) || !setting.accepts value then .error .misuse
  else .ok { g with settings := (setting, value) :: g.settings }

def settle (g : Given) : Except Stop Given :=
  match g.held with
  | none => .ok g
  | some (setting, value) => { g with held := none }.set setting value

end Given

structure State where
  level : Level := .top
  before : Given := {}
  given : Given := {}
  plain : Bool := false

namespace State

def set (setting : Setting) (value : String) (s : State) : Except Stop State :=
  (s.given.set setting value).map fun given => { s with given }

def hold (setting : Setting) (value : String) (s : State) : State :=
  { s with given := { s.given with held := some (setting, value) } }

def settle (s : State) : Except Stop State :=
  s.given.settle.map fun given => { s with given }

def settleBefore (s : State) : Except Stop State :=
  s.before.settle.map fun before => { s with before }

def setWatch (s : State) : Except Stop State :=
  if s.given.watch || s.level ≠ .render then .error .misuse
  else .ok { s with given := { s.given with watch := true } }

def takePositional (value : String) (s : State) : Except Stop State :=
  let given := { s.given with positional := s.given.positional ++ [value] }
  match s.level with
  | .top => .error .misuse
  | .render => if s.given.positional.isEmpty then .ok { s with given } else .error .misuse
  | .check => .ok { s with given }

end State

inductive Flags where
  | long (name : String) (value : Option String)
  | short (letters : List Char)

inductive Argument where
  | terminator
  | flags (flags : Flags)
  | other

def splitEquals (cs : List Char) : String × Option String :=
  let name := cs.takeWhile (· ≠ '=')
  (String.ofList name,
    if name.length < cs.length then some (String.ofList (cs.drop (name.length + 1))) else none)

def Argument.ofString (text : String) : Argument :=
  match text.toList with
  | ['-', '-'] => .terminator
  | '-' :: '-' :: cs => let (name, value) := splitEquals cs; .flags (.long name value)
  | '-' :: c :: cs => .flags (.short (c :: cs))
  | _ => .other

def isValue (text : String) : Bool :=
  match Argument.ofString text with
  | .other => true
  | _ => false

/-- What options in one argument lead to: they are all read, or one takes the argument that comes
next as its value. -/
inductive Step where
  | done (s : State)
  | value (setting : Setting) (s : State)

def takeLetters : List Char → State → Except Stop Step
  | [], s => .ok (.done s)
  | c :: cs, s =>
    match Setting.ofShort? s.level c with
    | some setting =>
      match cs with
      | [] => .ok (.value setting s)
      | '=' :: cs => (s.set setting (String.ofList cs)).map .done
      | cs => (s.set setting (String.ofList cs)).map .done
    | none =>
      if c = 'h' then .error (.help s.level.topic)
      else if c = 'V' ∧ s.level = .top then .error .version
      else if c = 'w' then s.setWatch.bind (takeLetters cs)
      else .error .misuse

def takeLong (name : String) (value : Option String) (s : State) : Except Stop Step :=
  match Setting.ofLong? s.level name, value with
  | some setting, some value => (s.set setting value).map .done
  | some setting, none => .ok (.value setting s)
  | none, some _ => .error .misuse
  | none, none =>
    if name = "help" then .error (.help s.level.topic)
    else if name = "version" ∧ s.level = .top then .error .version
    else if name = "watch" then s.setWatch.map .done
    else .error .misuse

def Flags.take : Flags → State → Except Stop Step
  | .long name value => takeLong name value
  | .short letters => takeLetters letters

def helpOn : List String → Stop
  | [] => .help .program
  | ["help"] => .help .help
  | ["render"] => .help .render
  | ["check"] => .help .check
  | _ => .misuse

def readArguments : List String → State → Except Stop State
  | [], s => s.settle.bind State.settleBefore
  | arg :: args, s =>
    if s.plain then (s.takePositional arg).bind (readArguments args)
    else
      match Argument.ofString arg with
      | .terminator => readArguments args { s with plain := true }
      | .other =>
        if s.level ≠ .top then (s.takePositional arg).bind (readArguments args)
        else if arg = "render" then readArguments args { level := .render, before := s.given }
        else if arg = "check" then readArguments args { level := .check, before := s.given }
        else if arg = "help" then .error (helpOn args)
        else .error .misuse
      | .flags flags =>
        match s.settle.bind flags.take, args with
        | .error stop, _ => .error stop
        | .ok (.done s), args => readArguments args s
        | .ok (.value _ _), [] => .error .misuse
        | .ok (.value setting s), v :: args =>
          if isValue v then readArguments args (s.hold setting v) else .error .misuse

namespace State

/-- The value of an option; one after the name of the command counts for more. -/
def setting? (s : State) (setting : Setting) : Option String :=
  s.given.settings.lookup setting <|> s.before.settings.lookup setting

def overrides (s : State) : Overrides where
  root := s.setting? .root
  ext := s.setting? .ext
  opening := s.setting? .opening
  closing := s.setting? .closing
  extend := (s.setting? .extend).bind ExtendMode.ofName?

def command? (s : State) : Option Command :=
  match s.level, s.given.positional with
  | .render, [template] =>
    let request : RenderRequest :=
      { template, data := (s.setting? .data).map FilePath.mk,
        output := (s.setting? .output).map FilePath.mk }
    some (.render request s.given.watch)
  | .check, template :: templates => some (.check (template :: templates))
  | _, _ => none

end State

end CommandLine

structure Invocation where
  command : Command
  config : FilePath
  overrides : Overrides
  deriving Repr, DecidableEq

namespace Invocation

open CommandLine

def ofArguments (args : List String) : Except Stop Invocation := do
  let s ← readArguments args {}
  match s.command? with
  | none => .error .misuse
  | some command =>
    .ok { command, config := ⟨(s.setting? .config).getD Config.fileName⟩, overrides := s.overrides }

end Invocation
end TextTemplate
