import TextTemplate.Config
import TextTemplate.Engine
import TextTemplate.Json.Reader
import TextTemplate.Toml.Reader
import TextTemplate.Value.Json

/-! A project: a directory with templates, perhaps a configuration, data files and output files. Its
templates are rendered, or checked whether they compile. -/

namespace TextTemplate

inductive Failure where
  | config
  | json
  | file (fault : FileFault)
  | data (path : String) (fault : FileFault)
  | templates (failed total : Nat)
  | engine (e : Error)
  deriving Repr, DecidableEq

def Failure.message : Failure → String
  | .config => "the configuration cannot be read as TOML"
  | .json => "the data cannot be read as JSON"
  | .file fault => fault.message
  | .data path fault => "Cannot read data file '" ++ path ++ "': " ++ fault.message
  | .templates failed total =>
    toString failed ++ " of " ++ toString total ++ " template(s) failed to compile"
  | .engine e => e.message

namespace Config

def fileName : String := "ect.toml"

def parse (text : String) : Except Failure Config :=
  match (Toml.ofString? text).bind ofToml? with
  | none => .error .config
  | some c => (c.engine.options.validate.map fun () => c).mapError .engine

def load (files : FileTree) (path : FilePath) : Except Failure Config :=
  if !files.fileExists path then .ok {}
  else
    match files.read path with
    | .ok text => parse text
    | .error fault => .error (.file fault)

def openEngine (c : Config) (files : FileTree) : Except Failure Engine :=
  let library := Library.directory ⟨⟨c.engine.root⟩, ""⟩ files
  (Engine.ofOptions? library c.engine.options).mapError .engine

end Config

def loadData (files : FileTree) (path : Option FilePath) : Except Failure Value :=
  match path with
  | none => .ok .null
  | some path =>
    match files.read path with
    | .error fault => .error (.data path.text fault)
    | .ok text =>
      match Json.ofString? text with
      | some j => .ok (Value.ofJson j)
      | none => .error .json

/-- Writes a text to a file, and makes the directories on the way, unless the file holds the text
already. Says whether it was written. -/
def writeIfChanged (files : FileTree) (path : FilePath) (text : String) :
    Except Failure Bool × FileTree :=
  if (files.read path).toOption == some text then (.ok false, files)
  else
    match files.writeDeep path text.toUTF8 with
    | (.ok (), files) => (.ok true, files)
    | (.error fault, files) => (.error (.file fault), files)

structure RenderRequest where
  template : String
  data : Option FilePath := none
  output : Option FilePath := none
  deriving Repr, DecidableEq

structure Rendering where
  result : Except Failure Unit
  printed : String
  files : FileTree

def Config.renderText (c : Config) (files : FileTree) (r : RenderRequest) :
    Except Failure String := do
  let engine ← c.openEngine files
  let data ← loadData files (r.data <|> c.render.data.map FilePath.mk)
  let s : Session := { engine }
  (s.render r.template data).1.mapError .engine

def Config.renderTemplate (c : Config) (files : FileTree) (r : RenderRequest) : Rendering :=
  match c.renderText files r with
  | .error failure => ⟨.error failure, "", files⟩
  | .ok text =>
    match r.output <|> c.render.output.map FilePath.mk with
    | none => ⟨.ok (), text, files⟩
    | some path =>
      let (result, files) := writeIfChanged files path text
      ⟨result.map fun _ => (), "", files⟩

structure CheckReport where
  passed : List String
  failed : List (String × Error)
  deriving Repr, DecidableEq

namespace CheckReport

def empty : CheckReport := ⟨[], []⟩

def add (name : String) (outcome : Except Error Program) (r : CheckReport) : CheckReport :=
  match outcome with
  | .ok _ => { r with passed := r.passed ++ [name] }
  | .error e => { r with failed := r.failed ++ [(name, e)] }

def failureText (name : String) (e : Error) : String :=
  "FAILED " ++ name ++ "\n" ++
    match e with
    | .compileFailed _ reports => String.join (reports.map fun r => r.text ++ "\n")
    | e => e.message ++ "\n"

def text (r : CheckReport) : String :=
  String.join (r.passed.map fun name => "ok " ++ name ++ "\n")
    ++ String.join (r.failed.map fun f => failureText f.1 f.2)

def verdict (r : CheckReport) : Except Failure Unit :=
  if r.failed.isEmpty then .ok ()
  else .error (.templates r.failed.length (r.passed.length + r.failed.length))

end CheckReport

def Engine.check (e : Engine) (names : List String) : CheckReport :=
  (names.foldl (fun (report, e) name =>
    let (outcome, e) := e.get name
    (report.add name outcome, e)) (CheckReport.empty, e)).1

def Config.check (c : Config) (files : FileTree) (names : List String) :
    Except Failure CheckReport :=
  (c.openEngine files).map fun e => e.check names

end TextTemplate
