import TextTemplate.Token
import TextTemplate.Report

/-! What can be wrong with the tokens of a template, and the words for it. -/

namespace TextTemplate

inductive Expected where
  | endOfConstruct | templateName | loopVariable | inWord | armOrEnd | colon
  | argumentEnd | itemEnd | entryEnd | memberName | expression | mapKey | closingBrace
  deriving Repr, DecidableEq

def Expected.text : Expected → String
  | .endOfConstruct => "'end'"
  | .templateName => "template name string"
  | .loopVariable => "loop variable"
  | .inWord => "'in'"
  | .armOrEnd => "'when', 'else' or 'end'"
  | .colon => "':'"
  | .argumentEnd => "',' or ')'"
  | .itemEnd => "',' or ']'"
  | .entryEnd => "',' or '\x7d'"
  | .memberName => "member name"
  | .expression => "expression"
  | .mapKey => "map key"
  | .closingBrace => "'\x7d'"

def maxNesting : Nat := 128

inductive Fault where
  | unclosed (opened : Position) (closing : String)
  | invalidToken (content : String)
  | expected (what : Expected) (found : Lexeme)
  | unexpected (found : Lexeme)
  | duplicateElse
  | keyWithoutColon (key : String)
  | emptyParentheses
  | lambdaParameters
  | assignmentTarget
  | updateTarget
  | tooDeep
  deriving Repr, DecidableEq

namespace Fault

/-- A token that does not fit. Tokens that are wrong in themselves report that instead. -/
def misplaced (what : Expected) (t : Token) : Fault :=
  match t.lexeme with
  | .unclosed closing => .unclosed t.position closing
  | .invalid content => .invalidToken content
  | l => .expected what l

def message : Fault → String
  | .unclosed opened closing => Lexeme.unclosedMessage opened closing
  | .invalidToken content => "invalid token '" ++ content ++ "'"
  | .expected what found => what.text ++ " expected, found " ++ found.describe
  | .unexpected found => "unexpected " ++ found.describe
  | .duplicateElse => "duplicate 'else' in switch"
  | .keyWithoutColon key => "':' expected after map key '" ++ key ++ "'"
  | .emptyParentheses => "empty parenthesized expression"
  | .lambdaParameters => "lambda parameters must be plain identifiers"
  | .assignmentTarget => "invalid assignment target; only variables can be assigned"
  | .updateTarget => "'++' and '--' can only be applied to variables"
  | .tooDeep => "nested too deeply (limit " ++ toString maxNesting ++ ")"

end Fault

structure Problem where
  position : Position
  fault : Fault
  deriving Repr, DecidableEq

namespace Problem

def report (template source : String) (p : Problem) : Report :=
  Report.withSource ⟨template, p.position, p.fault.message, none⟩ source

end Problem
end TextTemplate
