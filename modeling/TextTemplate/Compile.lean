import TextTemplate.Token.Scanner
import TextTemplate.Grammar.Statement
import TextTemplate.Tree.Traverse
import TextTemplate.Error

/-! Compiling a template text: its tokens, the tree that they spell, and the program of the tree.
All that is wrong with a template is reported at once. -/

namespace TextTemplate

def readTemplate (delimiters : Delimiters) (source : String) :
    Except (List Problem) (List SourceStmt) :=
  Grammar.read (Scanner.ofString delimiters source).tokens

def compile (delimiters : Delimiters) (name source : String) : Except Error Program :=
  match readTemplate delimiters source with
  | .ok tree => .ok (Program.ofTree name tree)
  | .error problems => .error (.compileFailed name (problems.map (Problem.report name source)))

theorem readTemplate_of_compile {delimiters : Delimiters} {name source : String} {p : Program}
    (h : compile delimiters name source = .ok p) :
    ∃ tree, readTemplate delimiters source = .ok tree ∧ p = Program.ofTree name tree := by
  unfold compile at h
  split at h
  · rename_i tree hread
    exact ⟨tree, hread, (Except.ok.inj h).symm⟩
  · cases h

end TextTemplate
