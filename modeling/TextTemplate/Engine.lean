import TextTemplate.Cache
import TextTemplate.Compile
import TextTemplate.Library
import TextTemplate.Render.Evaluate

/-! The template engine: it loads templates from a library, compiles them, keeps compiled
programs in a cache under the canonical paths of their templates, and renders. Templates may call
functions of the host program, some of which share a cell that holds one value. -/

namespace TextTemplate

def HostFunction.call (f : HostFunction) (args : List Value) (cell : Value) :
    Except Error Value × Value :=
  let first := args.head?.getD .null
  match f.name with
  | "args" => (.ok (.array args), cell)
  | "count" => (.ok (.int (Int64.ofNat args.length)), cell)
  | "first" => (.ok first, cell)
  | "upper" => (.ok (.string (String.ofList (first.text.toList.map Char.toUpper))), cell)
  | "store" => (.ok .null, first)
  | "recall" => (.ok cell, cell)
  | _ => (.error (.invalidOperation (.host "native failure")), cell)

structure Engine where
  library : Library
  cache : Cache Program
  options : Options
  delimiters : Delimiters

namespace Engine

def make? (library : Library) (cache : Cache Program) (options : Options) :
    Except Error Engine :=
  match options.delimiters with
  | .ok delimiters => .ok { library, cache, options, delimiters }
  | .error fault => .error (.invalidOptions fault)

def ofOptions? (library : Library) (options : Options) : Except Error Engine :=
  make? library (if options.cache then .ofCapacity options.cacheSize else .none) options

def ofCacheSize? (library : Library) (cacheSize : Nat) : Except Error Engine :=
  ofOptions? library { cacheSize }

def templateName (e : Engine) (name : String) : String :=
  TemplateDirectory.withExtension e.options.ext name

def compile (e : Engine) (name source : String) : Except Error Program :=
  TextTemplate.compile e.delimiters name source

def key (e : Engine) (name : String) : Except Error String :=
  e.library.resolvedPath (e.templateName name)

def load (e : Engine) (name : String) : Except Error Program × Engine :=
  let name := e.templateName name
  match e.library.resolve name with
  | .error err => (.error err, e)
  | .ok resource =>
    match e.compile name resource.source with
    | .error err => (.error err, e)
    | .ok p =>
      (.ok p, if e.options.cache then { e with cache := e.cache.insert resource.path p } else e)

def get (e : Engine) (name : String) : Except Error Program × Engine :=
  if e.options.cache then
    match e.key name with
    | .error err => (.error err, e)
    | .ok key =>
      match e.cache.find? key with
      | some p => (.ok p, { e with cache := e.cache.touch key })
      | none => e.load name
  else e.load name

def invalidate (e : Engine) (name : String) : Except Error Unit × Engine :=
  match e.key name with
  | .error err => (.error err, e)
  | .ok key => (.ok (), { e with cache := e.cache.erase key })

def clearCache (e : Engine) : Engine :=
  { e with cache := e.cache.clear }

def isCached (e : Engine) (name : String) : Bool :=
  match e.key name with
  | .error _ => false
  | .ok key => e.cache.contains key

end Engine

structure Session where
  engine : Engine
  /-- What the host functions answer. They share a cell, which may change with every call. -/
  host : HostFunction → List Value → Value → Except Error Value × Value := HostFunction.call
  cell : Value := .null
  renders : Nat := 0

namespace Session

def world : World Session where
  load name s :=
    let (r, engine) := s.engine.get name
    (r, { s with engine })
  call f args s :=
    let (r, cell) := s.host f args s.cell
    (r, { s with cell })

def start (s : Session) (options : Options) (self : Value) : Context Session :=
  Context.start options s.renders self { s with renders := s.renders + 1 }

def run (s : Session) (p : Program) (data : Value) : Except Error String × Session :=
  let (r, c) := (s.start s.engine.options .null).execute world p data
  (r.map fun () => c.output, c.world)

def render (s : Session) (name : String) (data : Value) : Except Error String × Session :=
  match s.engine.get name with
  | (.error err, engine) => (.error err, { s with engine })
  | (.ok p, engine) => { s with engine }.run p data

def renderSource (s : Session) (name source : String) (data : Value) :
    Except Error String × Session :=
  match s.engine.compile name source with
  | .error err => (.error err, s)
  | .ok p => s.run p data

def mapEngine (s : Session) (f : Engine → Engine) : Session :=
  { s with engine := f s.engine }

end Session
end TextTemplate
