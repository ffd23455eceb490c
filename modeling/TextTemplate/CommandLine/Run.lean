import TextTemplate.CommandLine.Help
import TextTemplate.Project

/-! Running a command over a tree of files. -/

namespace TextTemplate

def Overrides.apply (o : Overrides) (c : Config) : Config :=
  { c with
    engine :=
      { c.engine with
        root := o.root.getD c.engine.root, ext := o.ext.getD c.engine.ext,
        opening := o.opening.getD c.engine.opening, closing := o.closing.getD c.engine.closing,
        extend := o.extend.getD c.engine.extend } }

namespace CommandLine

structure Completion where
  code : Nat
  stdout : String
  stderr : String
  files : FileTree

namespace Completion

def ofResult (printed : String) (files : FileTree) : Except Failure Unit → Completion
  | .ok () => ⟨0, printed, "", files⟩
  | .error failure => ⟨1, printed, "Error: " ++ failure.message ++ "\n", files⟩

end Completion

/-- Runs a command of a project. A template is rendered once; to render it again when files change
is left to the caller. -/
def perform (c : Config) (files : FileTree) : Command → Completion
  | .render request _ =>
    let r := c.renderTemplate files request
    .ofResult r.printed r.files r.result
  | .check names =>
    match c.check files names with
    | .ok report => .ofResult report.text files report.verdict
    | .error failure => .ofResult "" files (.error failure)

def run (args : List String) (files : FileTree) : Completion :=
  match Invocation.ofArguments args with
  | .error .version => ⟨0, versionText, "", files⟩
  | .error (.help topic) => ⟨0, helpText topic, "", files⟩
  | .error .misuse => ⟨2, "", misuseText, files⟩
  | .ok i =>
    match Config.load files i.config with
    | .ok c => perform (i.overrides.apply c) files i.command
    | .error failure => .ofResult "" files (.error failure)

end CommandLine
end TextTemplate
