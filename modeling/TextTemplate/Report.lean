import TextTemplate.Position
import TextTemplate.Text

/-! Reports of what is wrong with a template: where, what, and the lines around it with a caret
under the column. -/

namespace TextTemplate

structure Excerpt where
  lines : List (Nat × String)
  position : Position
  deriving Repr, DecidableEq

namespace Excerpt

def number (n : Nat) : List String → List (Nat × String)
  | [] => []
  | l :: ls => (n, l) :: number (n + 1) ls

def ofSource (source : String) (p : Position) : Excerpt :=
  let first := max (p.line - 3) 1
  let last := p.line + 3
  ⟨(number 1 (Text.lines source)).filter fun l => first ≤ l.1 && l.1 ≤ last, p⟩

def lineLabel (n : Nat) : List Char :=
  let digits := Nat.toDigits 10 n
  List.replicate (4 - digits.length) ' ' ++ digits

def lineText (n : Nat) (line : String) : List Char :=
  lineLabel n ++ " | ".toList ++ line.toList ++ ['\n']

def caretText (column : Nat) : List Char :=
  "     | ".toList ++ List.replicate (column - 1) ' ' ++ "^\n".toList

def chars (e : Excerpt) : List Char :=
  e.lines.flatMap fun (n, line) =>
    lineText n line ++ if n = e.position.line then caretText e.position.column else []

def text (e : Excerpt) : String :=
  String.ofList e.chars

end Excerpt

structure Report where
  template : String
  position : Position
  message : String
  excerpt : Option Excerpt
  deriving Repr, DecidableEq

namespace Report

def withSource (r : Report) (source : String) : Report :=
  { r with excerpt := some (Excerpt.ofSource source r.position) }

def text (r : Report) : String :=
  r.template ++ ":" ++ toString r.position.line ++ ":" ++ toString r.position.column ++ ": "
    ++ r.message ++ (match r.excerpt with
      | some e => "\n" ++ e.text
      | none => "")

def listText (rs : List Report) : String :=
  "\n".intercalate (rs.map text)

end Report
end TextTemplate
