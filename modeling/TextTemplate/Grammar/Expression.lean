import TextTemplate.Grammar.Basic
import TextTemplate.Decimal.FloatText

/-! Reading expressions. From the loosest to the tightest: assignment and conditional, which
associate to the right; `&&`, `||` and `??` at one level; equality; comparison; addition;
multiplication, which associate to the left; prefix operators; postfix operators; calls and member
access; primary expressions. -/

namespace TextTemplate.Grammar

/-- The readers of one more level of nesting. -/
structure Deeper where
  statements : Reader (List SourceStmt)
  assignment : Reader SourceExpr
  unary : Reader SourceExpr

/-- A number without point that fits 64 bits is an integer, any other a float. -/
def numberLiteral (digits : String) : Literal :=
  let n := Decimal.readDigits 0 digits.toList
  if digits.toList.all Char.isDigit && n < Nat.pow 2 63 then .int (Int64.ofNat n)
  else .float ((Decimal.readFloat digits).getD (0 / 0))

def assignmentOp? : Lexeme → Option (Option ArithmeticOp)
  | .symbol .assign => some none
  | .symbol .addAssign => some (some .add)
  | .symbol .subAssign => some (some .sub)
  | .symbol .mulAssign => some (some .mul)
  | .symbol .divAssign => some (some .div)
  | .symbol .modAssign => some (some .mod)
  | _ => none

def logicalOp? : Lexeme → Option (SourceExpr → SourceExpr → SourceExpr)
  | .symbol .and => some (.logical .and)
  | .symbol .or => some (.logical .or)
  | .symbol .doubleQuestion => some (.logical .coalesce)
  | _ => none

def equalityOp? : Lexeme → Option (SourceExpr → SourceExpr → SourceExpr)
  | .symbol .eq => some (.binary .eq)
  | .symbol .ne => some (.binary .ne)
  | _ => none

def comparisonOp? : Lexeme → Option (SourceExpr → SourceExpr → SourceExpr)
  | .symbol .lt => some (.binary (.comparison .lt))
  | .symbol .le => some (.binary (.comparison .le))
  | .symbol .gt => some (.binary (.comparison .gt))
  | .symbol .ge => some (.binary (.comparison .ge))
  | _ => none

def additiveOp? : Lexeme → Option (SourceExpr → SourceExpr → SourceExpr)
  | .symbol .add => some (.binary (.arithmetic .add))
  | .symbol .sub => some (.binary (.arithmetic .sub))
  | _ => none

def multiplicativeOp? : Lexeme → Option (SourceExpr → SourceExpr → SourceExpr)
  | .symbol .mul => some (.binary (.arithmetic .mul))
  | .symbol .div => some (.binary (.arithmetic .div))
  | .symbol .mod => some (.binary (.arithmetic .mod))
  | _ => none

def unaryOp? : Lexeme → Option UnaryOp
  | .symbol .add => some .plus
  | .symbol .sub => some .neg
  | .symbol .not => some .not
  | _ => none

def updateOp? : Lexeme → Option UpdateOp
  | .symbol .inc => some .inc
  | .symbol .dec => some .dec
  | _ => none

def updateOf (op : UpdateOp) (before : Bool) : SourceExpr → Reader SourceExpr
  | .var x => pure (.update op before x)
  | _ => fail .updateTarget

def parameters? : List SourceExpr → Option (List String)
  | [] => some []
  | .var x :: es => (parameters? es).map (x :: ·)
  | _ :: _ => none

def key? : Lexeme → Option String
  | .string key => some key
  | l => l.word?

def mapEntry (deeper : Deeper) : Reader (String × SourceExpr) := do
  match key? (← current).lexeme with
  | none => unexpected .mapKey
  | some key =>
    if ← nextIsColon then
      advance
      advance
      pure (key, ← deeper.assignment)
    else fail (.keyWithoutColon key)
where
  nextIsColon : Reader Bool :=
    .peek fun s => s.upcoming.head?.any fun t => t.lexeme == .symbol .colon

def lambdaBody (deeper : Deeper) : Reader (List SourceStmt) := do
  if ← atSymbol .lbrace then
    advance
    let body ← inBraces deeper.statements
    if ← atSymbol .rbrace then
      advance
      pure body
    else unexpected .closingBrace
  else
    let body ← deeper.statements
    expectEnd
    pure body

def parenthesized (deeper : Deeper) : Reader SourceExpr := do
  advance
  let items ← separated deeper.assignment .rparen .argumentEnd
  if ← atSymbol .arrow then
    match parameters? items with
    | some params =>
      advance
      pure (.lambda () params (← lambdaBody deeper))
    | none => fail .lambdaParameters
  else
    match items with
    | [] => fail .emptyParentheses
    | [e] => pure e
    | items => pure (.sequence items)

def primary (deeper : Deeper) : Reader SourceExpr := do
  match (← current).lexeme with
  | .keyword .null => advance; pure (.literal .null)
  | .keyword .true_ => advance; pure (.literal (.bool true))
  | .keyword .false_ => advance; pure (.literal (.bool false))
  | .string s => advance; pure (.literal (.string s))
  | .number digits => advance; pure (.literal (numberLiteral digits))
  | .name x => advance; pure (.var x)
  | .symbol .at => advance; pure (.selfMember (← memberName))
  | .symbol .lparen => parenthesized deeper
  | .symbol .lbracket => advance; pure (.array (← separated deeper.assignment .rbracket .itemEnd))
  | .symbol .lbrace => advance; pure (.map (← separated (mapEntry deeper) .rbrace .entryEnd))
  | _ => unexpected .expression

def callPass (deeper : Deeper) (e : SourceExpr) : Reader (SourceExpr ⊕ SourceExpr) := do
  match (← current).lexeme with
  | .symbol .lparen =>
    advance
    pure (.inl (.call e (← separated deeper.assignment .rparen .argumentEnd)))
  | .symbol .dot => advance; pure (.inl (.member e (← memberName) false))
  | .symbol .questionDot => advance; pure (.inl (.member e (← memberName) true))
  | _ => pure (.inr e)

def callMember (deeper : Deeper) : Reader SourceExpr := do
  repeatUntil (callPass deeper) (← primary deeper)

def postfixed (deeper : Deeper) : Reader SourceExpr := do
  let operand ← callMember deeper
  match updateOp? (← current).lexeme with
  | some op =>
    let e ← updateOf op false operand
    advance
    pure e
  | none => pure operand

def unary (deeper : Deeper) : Reader SourceExpr := do
  let l := (← current).lexeme
  match unaryOp? l, updateOp? l with
  | some op, _ => advance; pure (.unary op (← deeper.unary))
  | none, some op => advance; updateOf op true (← deeper.unary)
  | none, none => postfixed deeper

def multiplicative (deeper : Deeper) : Reader SourceExpr :=
  leftAssociative (unary deeper) multiplicativeOp?

def additive (deeper : Deeper) : Reader SourceExpr :=
  leftAssociative (multiplicative deeper) additiveOp?

def comparison (deeper : Deeper) : Reader SourceExpr :=
  leftAssociative (additive deeper) comparisonOp?

def equality (deeper : Deeper) : Reader SourceExpr :=
  leftAssociative (comparison deeper) equalityOp?

def logical (deeper : Deeper) : Reader SourceExpr :=
  leftAssociative (equality deeper) logicalOp?

def conditional (deeper : Deeper) : Reader SourceExpr := do
  let test ← logical deeper
  if ← atSymbol .question then
    advance
    let yes ← deeper.assignment
    if ← atSymbol .colon then
      advance
      pure (.conditional test yes (← deeper.assignment))
    else unexpected .colon
  else pure test

def assignment (deeper : Deeper) : Reader SourceExpr := do
  let start := (← current).position
  let lhs ← conditional deeper
  match assignmentOp? (← current).lexeme with
  | none => pure lhs
  | some op =>
    match lhs with
    | .var x => advance; pure (.assign x op (← deeper.assignment))
    | _ => failAt start .assignmentTarget

end TextTemplate.Grammar
