import TextTemplate.Token.Scanner

/-! A reader of tokens that can take back the token it returned last, one at a time. -/

namespace TextTemplate

structure TokenCursor where
  scanner : Scanner
  /-- The token returned last, if it was not taken back since. -/
  last : Option Token
  pushed : Option Token

namespace TokenCursor

inductive Misuse where
  | occupied
  | nothingConsumed
  deriving Repr, DecidableEq

def Misuse.message : Misuse → String
  | .occupied => "lexer pushback slot already occupied"
  | .nothingConsumed => "lexer pushback without a consumed token"

def ofString (delimiters : Delimiters) (source : String) : TokenCursor :=
  ⟨Scanner.ofString delimiters source, none, none⟩

def next (c : TokenCursor) : Token × TokenCursor :=
  match c.pushed with
  | some t => (t, { c with last := some t, pushed := none })
  | none =>
    let (t, scanner) := c.scanner.next
    (t, ⟨scanner, some t, none⟩)

def pushBack (c : TokenCursor) : Except Misuse TokenCursor :=
  match c.pushed, c.last with
  | some _, _ => .error .occupied
  | none, none => .error .nothingConsumed
  | none, some t => .ok { c with last := none, pushed := some t }

def peek (c : TokenCursor) : Token × TokenCursor :=
  let (t, c) := c.next
  (t, { c with last := none, pushed := some t })

def position (c : TokenCursor) : Position :=
  c.scanner.position

def rest (c : TokenCursor) : List Token × TokenCursor :=
  let (t, c) := c.next
  if t.lexeme = .endOfInput then ([t], c)
  else
    let later := c.scanner.tokens
    (t :: later, ⟨c.scanner.exhaust, later.getLast?, none⟩)

end TokenCursor
end TextTemplate
