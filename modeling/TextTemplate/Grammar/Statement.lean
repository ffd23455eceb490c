import TextTemplate.Grammar.Expression
import TextTemplate.Text.CharClass

/-! Reading statements. A list of statements ends where no statement can begin: at the words that
close or divide a construct, at the brace that closes a lambda body, and at the end of the
template. -/

namespace TextTemplate.Grammar

def extendStatement : Reader SourceStmt := do
  advance
  pure (.extend (← templateName))

def includeStatement (deeper : Deeper) : Reader SourceStmt := do
  advance
  let name ← templateName
  if ← atSymbol .comma then
    advance
    pure (.include name (some (← deeper.assignment)))
  else pure (.include name none)

def blockStatement (deeper : Deeper) : Reader SourceStmt := do
  advance
  let name ← blockName
  skipColon
  let body ← deeper.statements
  expectEnd
  pure (.block name body)

def contentStatement : Reader SourceStmt := do
  advance
  pure (.content (← blockName))

def outputStatement (deeper : Deeper) (escape : Bool) : Reader SourceStmt := do
  advance
  pure (.output escape (← deeper.assignment))

/-- What `r?` holds, or nothing; what it lacks was reported when it was read. -/
def found {α : Type} (r? : Option α) : Reader α := ⟨fun s => (r?, s), .refl⟩

def elseBranch (deeper : Deeper) : Reader (List SourceStmt) := do
  if ← atKeyword .else_ then
    advance
    skipColon
    deeper.statements
  else pure []

def branchStatement (deeper : Deeper) : Reader SourceStmt := do
  advance
  let test? ← optional deeper.assignment
  skipColon
  let yes ← deeper.statements
  let no ← elseBranch deeper
  expectEnd
  pure (.branch (← found test?) yes no)

def loopHead (deeper : Deeper) : Reader (String × SourceExpr) := do
  match (← current).lexeme with
  | .name x =>
    advance
    if ← atKeyword .in_ then
      advance
      pure (x, ← deeper.assignment)
    else unexpected .inWord
  | _ => unexpected .loopVariable

def loopStatement (deeper : Deeper) : Reader SourceStmt := do
  advance
  let head? ← optional (loopHead deeper)
  skipColon
  let body ← deeper.statements
  expectEnd
  let (x, collection) ← found head?
  pure (.loop x collection body)

structure Arms where
  arms : List (Option SourceExpr × List SourceStmt)
  complete : Bool

def Arms.hasElse (a : Arms) : Bool :=
  a.arms.any fun arm => arm.1.isNone

def whenArm (deeper : Deeper) (read : Arms) : Reader Arms := do
  advance
  let value? ← optional deeper.assignment
  skipColon
  let body ← deeper.statements
  match value? with
  | some value => pure { read with arms := (some value, body) :: read.arms }
  | none => pure { read with complete := false }

def elseArm (deeper : Deeper) (read : Arms) : Reader Arms := do
  if read.hasElse then note .duplicateElse
  advance
  skipColon
  let body ← deeper.statements
  if read.hasElse then pure { read with complete := false }
  else pure { read with arms := (none, body) :: read.arms }

def armPass (deeper : Deeper) (read : Arms) : Reader (Arms ⊕ Arms) := do
  match (← current).lexeme with
  | .text t =>
    -- blank text before the first arm is layout
    if read.arms.isEmpty && Text.isBlankText t then
      advance
      pure (.inl read)
    else unexpected .armOrEnd
  | .keyword .when_ => pure (.inl (← whenArm deeper read))
  | .keyword .else_ => pure (.inl (← elseArm deeper read))
  | .keyword .end_ => advance; pure (.inr read)
  | _ => unexpected .armOrEnd

def switchArms (deeper : Deeper) : Reader Arms :=
  repeatUntil (armPass deeper) ⟨[], true⟩

def switchStatement (deeper : Deeper) : Reader SourceStmt := do
  advance
  let subject? ← optional deeper.assignment
  skipColon
  let read ← switchArms deeper
  let subject ← found subject?
  if read.complete then pure (.switch subject read.arms.reverse) else found none

def statement (deeper : Deeper) : Reader SourceStmt := do
  match (← current).lexeme with
  | .keyword .extend => extendStatement
  | .keyword .block => blockStatement deeper
  | .keyword .content => contentStatement
  | .keyword .include_ => includeStatement deeper
  | .escapeMark => outputStatement deeper true
  | .rawMark => outputStatement deeper false
  | .keyword .for_ => loopStatement deeper
  | .keyword .switch => switchStatement deeper
  | .keyword .if_ => branchStatement deeper
  | _ => pure (.expr (← deeper.assignment))

def endsStatements (inBraces : Bool) : Lexeme → Bool
  | .endOfInput => true
  | .keyword .else_ | .keyword .end_ | .keyword .in_ | .keyword .when_ => true
  | .symbol .rbrace => inBraces
  | _ => false

def braced : Reader Bool := .peek fun s => 0 < s.braces

def statementPass (deeper : Deeper) (read : List SourceStmt) :
    Reader (List SourceStmt ⊕ List SourceStmt) := do
  let l := (← current).lexeme
  if endsStatements (← braced) l then pure (.inr read.reverse)
  else
    match l with
    | .text t =>
      advance
      pure (.inl (if t.isEmpty then read else .text t :: read))
    | _ =>
      match ← optional (statement deeper) with
      | some s => pure (.inl (s :: read))
      -- what could not be read is left out; its problem is on record
      | none => pure (.inl read)

def statementList (deeper : Deeper) : Reader (List SourceStmt) :=
  repeatUntil (statementPass deeper) []

def nestedStatements (r : Reader (List SourceStmt)) : Reader (List SourceStmt) := do
  pure ((← optional (nested r)).getD [])

def levels : Nat → Deeper
  | 0 =>
    { statements := nestedStatements giveUp
      assignment := giveUp
      unary := giveUp }
  | n + 1 =>
    let deeper := levels n
    { statements := nestedStatements (statementList deeper)
      assignment := nested (assignment deeper)
      unary := nested (unary deeper) }

def templatePass (read : List SourceStmt) : Reader (List SourceStmt ⊕ List SourceStmt) := do
  let read := read ++ (← (levels maxNesting).statements)
  match (← current).lexeme with
  | .endOfInput => pure (.inr read)
  | l =>
    skipOver (.unexpected l)
    pure (.inl read)

def template : Reader (List SourceStmt) :=
  repeatUntil templatePass []

def read (tokens : List Token) : Except (List Problem) (List SourceStmt) :=
  match template.run (.ofTokens tokens) with
  | (some tree, s) => if s.problems.isEmpty then .ok tree else .error s.problems
  | (none, s) => .error s.problems

end TextTemplate.Grammar
