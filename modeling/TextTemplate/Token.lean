import TextTemplate.Position

/-! Tokens of a template: literal text outside script regions, and inside them output markers,
keywords, names, literals and operators. A token knows the position of its first character. -/

namespace TextTemplate

structure Delimiters where
  opening : List Char
  closing : List Char
  opening_ne_nil : opening ≠ []
  closing_ne_nil : closing ≠ []

namespace Delimiters

def default : Delimiters :=
  ⟨['<', '%'], ['%', '>'], by decide, by decide⟩

instance : Inhabited Delimiters := ⟨default⟩

def ofStrings? (opening closing : String) : Option Delimiters :=
  if h : opening.toList ≠ [] ∧ closing.toList ≠ [] then
    some ⟨opening.toList, closing.toList, h.1, h.2⟩
  else none

end Delimiters

inductive Keyword where
  | include_ | content | extend | block | if_ | else_ | for_ | in_ | switch | when_ | end_
  | null | true_ | false_
  deriving Repr, DecidableEq

namespace Keyword

def all : List Keyword :=
  [.include_, .content, .extend, .block, .if_, .else_, .for_, .in_, .switch, .when_, .end_,
    .null, .true_, .false_]

def spelling : Keyword → String
  | .include_ => "include"
  | .content => "content"
  | .extend => "extend"
  | .block => "block"
  | .if_ => "if"
  | .else_ => "else"
  | .for_ => "for"
  | .in_ => "in"
  | .switch => "switch"
  | .when_ => "when"
  | .end_ => "end"
  | .null => "null"
  | .true_ => "true"
  | .false_ => "false"

def ofString? (s : String) : Option Keyword :=
  all.find? fun k => k.spelling == s

end Keyword

inductive Symbol where
  | at | dot | questionDot | comma | lbrace | rbrace | lbracket | rbracket | lparen | rparen
  | add | sub | mul | div | mod
  | addAssign | subAssign | mulAssign | divAssign | modAssign
  | inc | dec | assign | eq | ne | gt | lt | ge | le
  | question | doubleQuestion | colon | not | and | or | arrow
  deriving Repr, DecidableEq

namespace Symbol

def spelling : Symbol → String
  | .at => "@"
  | .dot => "."
  | .questionDot => "?."
  | .comma => ","
  | .lbrace => "\x7b"
  | .rbrace => "\x7d"
  | .lbracket => "["
  | .rbracket => "]"
  | .lparen => "("
  | .rparen => ")"
  | .add => "+"
  | .sub => "-"
  | .mul => "*"
  | .div => "/"
  | .mod => "%"
  | .addAssign => "+="
  | .subAssign => "-="
  | .mulAssign => "*="
  | .divAssign => "/="
  | .modAssign => "%="
  | .inc => "++"
  | .dec => "--"
  | .assign => "="
  | .eq => "=="
  | .ne => "!="
  | .gt => ">"
  | .lt => "<"
  | .ge => ">="
  | .le => "<="
  | .question => "?"
  | .doubleQuestion => "??"
  | .colon => ":"
  | .not => "!"
  | .and => "&&"
  | .or => "||"
  | .arrow => "->"

/-- Every spelling that is read as an operator, the longer ones first. -/
def table : List (List Char × Symbol) :=
  [(['=', '=', '='], .eq), (['!', '=', '='], .ne),
    (['?', '.'], .questionDot), (['+', '='], .addAssign), (['-', '='], .subAssign),
    (['*', '='], .mulAssign), (['/', '='], .divAssign), (['%', '='], .modAssign),
    (['+', '+'], .inc), (['-', '-'], .dec), (['=', '='], .eq), (['!', '='], .ne),
    (['<', '='], .le), (['>', '='], .ge), (['?', '?'], .doubleQuestion), (['&', '&'], .and),
    (['|', '|'], .or), (['-', '>'], .arrow), (['=', '>'], .arrow),
    (['@'], .at), (['.'], .dot), ([','], .comma), (['{'], .lbrace), (['}'], .rbrace),
    (['['], .lbracket), ([']'], .rbracket), (['('], .lparen), ([')'], .rparen),
    (['+'], .add), (['-'], .sub), (['*'], .mul), (['/'], .div), (['%'], .mod),
    (['='], .assign), (['<'], .lt), (['>'], .gt), (['?'], .question), ([':'], .colon),
    (['!'], .not)]

def longest? (cs : List Char) : Option (List Char × Symbol) :=
  table.find? fun entry => entry.1.isPrefixOf cs

end Symbol

inductive Lexeme where
  | text (content : String)
  /-- `=` right after the opening delimiter: print with escaping. -/
  | escapeMark
  /-- `-` right after the opening delimiter: print as it is. -/
  | rawMark
  | keyword (k : Keyword)
  | name (n : String)
  | string (content : String)
  | number (digits : String)
  | symbol (s : Symbol)
  | invalid (content : String)
  | unclosed (closing : String)
  | endOfInput
  deriving Repr, DecidableEq

structure Token where
  lexeme : Lexeme
  position : Position
  deriving Repr, DecidableEq

namespace Lexeme

def kindText : Lexeme → String
  | .text _ => "text"
  | .escapeMark => "'='"
  | .rawMark => "'-'"
  | .keyword k => "'" ++ k.spelling ++ "'"
  | .name _ => "identifier"
  | .string _ => "string"
  | .number _ => "number"
  | .symbol s => "'" ++ s.spelling ++ "'"
  | .invalid _ => "invalid token"
  | .unclosed _ => "unclosed script"
  | .endOfInput => "end of input"

def describe (l : Lexeme) : String :=
  match l with
  | .name s | .string s | .number s | .invalid s => l.kindText ++ " '" ++ s ++ "'"
  | _ => l.kindText

def word? : Lexeme → Option String
  | .name n => some n
  | .keyword k => some k.spelling
  | _ => none

def unclosedMessage (p : Position) (closing : String) : String :=
  "script opened at line " ++ toString p.line ++ ", column " ++ toString p.column
    ++ " is not closed (missing '" ++ closing ++ "')"

end Lexeme

namespace Token

def payload (t : Token) : Option String :=
  match t.lexeme with
  | .text s | .name s | .string s | .number s | .invalid s => some s
  | .keyword k => some k.spelling
  | .unclosed closing => some (Lexeme.unclosedMessage t.position closing)
  | .escapeMark | .rawMark | .symbol _ | .endOfInput => none

def describe (t : Token) : String :=
  t.lexeme.describe

def endOfInput (p : Position) : Token :=
  ⟨.endOfInput, p⟩

end Token
end TextTemplate
