import TextTemplate.Tree

/-! Walking over a tree in the order in which it is written, with an action for each variable and
each lambda expression on the way, and the numbering of both by such a walk. Each name has one slot
for the whole template, in the order of first occurrence, and lambda expressions are numbered in the
order in which they stand. -/

namespace TextTemplate

variable {ν ν' ι ι' : Type}

section Traverse

variable {m : Type → Type} [Monad m] (f : ν → m ν') (g : ι → m ι')

def traverseNames : List ν → m (List ν')
  | [] => pure []
  | x :: xs => do
    let x ← f x
    let xs ← traverseNames xs
    pure (x :: xs)

mutual

def Expr.traverse : Expr ν ι → m (Expr ν' ι')
  | .literal value => pure (.literal value)
  | .var x => do pure (.var (← f x))
  | .selfMember name => pure (.selfMember name)
  | .member target name optional => do pure (.member (← target.traverse) name optional)
  | .call callee args => do
    let callee ← callee.traverse
    let args ← Expr.traverseList args
    pure (.call callee args)
  | .array items => do pure (.array (← Expr.traverseList items))
  | .map entries => do pure (.map (← Expr.traverseEntries entries))
  | .unary op operand => do pure (.unary op (← operand.traverse))
  | .update op before x => do pure (.update op before (← f x))
  | .binary op lhs rhs => do
    let lhs ← lhs.traverse
    let rhs ← rhs.traverse
    pure (.binary op lhs rhs)
  | .logical op lhs rhs => do
    let lhs ← lhs.traverse
    let rhs ← rhs.traverse
    pure (.logical op lhs rhs)
  | .conditional test yes no => do
    let test ← test.traverse
    let yes ← yes.traverse
    let no ← no.traverse
    pure (.conditional test yes no)
  | .assign x op value => do
    let x ← f x
    let value ← value.traverse
    pure (.assign x op value)
  | .sequence items => do pure (.sequence (← Expr.traverseList items))
  | .lambda id params body => do
    let id ← g id
    let params ← traverseNames f params
    let body ← Stmt.traverseList body
    pure (.lambda id params body)

def Expr.traverseList : List (Expr ν ι) → m (List (Expr ν' ι'))
  | [] => pure []
  | e :: es => do
    let e ← e.traverse
    let es ← Expr.traverseList es
    pure (e :: es)

def Expr.traverseEntries : List (String × Expr ν ι) → m (List (String × Expr ν' ι'))
  | [] => pure []
  | (key, e) :: es => do
    let e ← e.traverse
    let es ← Expr.traverseEntries es
    pure ((key, e) :: es)

def Stmt.traverse : Stmt ν ι → m (Stmt ν' ι')
  | .text content => pure (.text content)
  | .output escape value => do pure (.output escape (← value.traverse))
  | .extend layout => pure (.extend layout)
  | .include name none => pure (.include name none)
  | .include name (some argument) => do pure (.include name (some (← argument.traverse)))
  | .block name body => do pure (.block name (← Stmt.traverseList body))
  | .content name => pure (.content name)
  | .branch test yes no => do
    let test ← test.traverse
    let yes ← Stmt.traverseList yes
    let no ← Stmt.traverseList no
    pure (.branch test yes no)
  | .loop x collection body => do
    let x ← f x
    let collection ← collection.traverse
    let body ← Stmt.traverseList body
    pure (.loop x collection body)
  | .switch subject arms => do
    let subject ← subject.traverse
    let arms ← Stmt.traverseArms arms
    pure (.switch subject arms)
  | .expr value => do pure (.expr (← value.traverse))

def Stmt.traverseList : List (Stmt ν ι) → m (List (Stmt ν' ι'))
  | [] => pure []
  | s :: ss => do
    let s ← s.traverse
    let ss ← Stmt.traverseList ss
    pure (s :: ss)

def Stmt.traverseArms : List (Option (Expr ν ι) × List (Stmt ν ι)) →
    m (List (Option (Expr ν' ι') × List (Stmt ν' ι')))
  | [] => pure []
  | (none, body) :: arms => do
    let body ← Stmt.traverseList body
    let arms ← Stmt.traverseArms arms
    pure ((none, body) :: arms)
  | (some value, body) :: arms => do
    let value ← value.traverse
    let body ← Stmt.traverseList body
    let arms ← Stmt.traverseArms arms
    pure ((some value, body) :: arms)

end

end Traverse

structure Slots where
  names : List String
  lambdas : Nat
  deriving Repr, DecidableEq

namespace Slots

def empty : Slots := ⟨[], 0⟩

def slot (name : String) : StateM Slots Nat := fun s =>
  match s.names.findIdx? (· == name) with
  | some i => (i, s)
  | none => (s.names.length, { s with names := s.names ++ [name] })

def nextLambda (_ : Unit) : StateM Slots Nat := fun s =>
  (s.lambdas, { s with lambdas := s.lambdas + 1 })

end Slots

def Program.ofTree (name : String) (tree : List SourceStmt) : Program :=
  let (body, slots) := Stmt.traverseList Slots.slot Slots.nextLambda tree Slots.empty
  { name, body, slots := slots.names }

end TextTemplate
