import TextTemplate.Render.Run
import TextTemplate.Value.Operation
import TextTemplate.Text.CharClass

/-! Executing programs. Statements and expressions are walked as they stand; whatever a template,
a block or a lambda call nests goes one level deeper, and the context allows as many levels as its
depth limit leaves. -/

namespace TextTemplate

/-- What runs one level deeper: statements over the variables of an execution, and programs. -/
structure Deep (m : Type → Type) where
  body : Nat → List SlotStmt → m Value
  program : Program → m Unit

namespace Run

variable {σ : Type} {m : Type → Type} [MonadRender σ m] (world : World σ) (deep : Deep m)

def includeTemplate (name : String) (argument : Value) : m Unit := do
  let program ← withWorld (world.load name)
  inside name
    (if argument.isNull then deep.program program else withSelf argument (deep.program program))

def extend (layout : String) : m Unit := do
  match ← get Context.extendMode with
  | .eager => includeTemplate world deep layout .null
  | .deferred => update fun c => { c with pendingLayout := some layout }

def callBlock (name : String) : m Unit := do
  let block ← get fun c => c.block name
  inside name do
    match block with
    | .compiled body frame => forEffect (deep.body frame body)
    | .text content => update fun c => c.append content

def callClosure (f : Closure) (args : List Value) : m Value := do
  if !(← get fun c => c.keeps f.frame) then fail (.invalidInvocation .finished)
  else if args.length ≠ f.params.length then
    fail (.invalidInvocation (.argumentCount f.params.length args.length))
  else
    -- the parameters are variables of the execution that created the lambda, and get their old
    -- values back
    inside "lambda" (binding f.frame.index f.params args (deep.body f.frame.index f.body))

def call (callee : Value) (args : List Value) : m Value :=
  match callee with
  | .hostFunction f => withWorld (world.call f args)
  | .closure f => callClosure deep f args
  | v => fail (.invalidInvocation (.notCallable v.describe))

variable (frame : Nat)

mutual

def eval : SlotExpr → m Value
  | .literal value => pure value.value
  | .var x => load frame x
  | .selfMember name => do ofExcept ((← get Context.self).member name)
  | .member target name optional => do
    let v ← eval target
    if optional && v.isNull then pure .null else ofExcept (v.member name)
  | .call callee args => do
    let f ← eval callee
    let args ← evalAll args
    call world deep f args
  | .array items => do pure (.array (← evalAll items))
  | .map entries => do pure (.map (← evalEntries [] entries))
  | .unary op operand => do ofExcept (Value.unary op (← eval operand))
  | .update op before x => do
    let old ← load frame x
    let new ← ofExcept (Value.arithmetic op.arithmetic old (.int 1))
    store frame x new
    pure (if before then new else old)
  | .binary op lhs rhs => do
    let a ← eval lhs
    let b ← eval rhs
    ofExcept (Value.binary op a b)
  | .logical .and lhs rhs => do
    if (← eval lhs).test then pure (.bool (← eval rhs).test) else pure (.bool false)
  | .logical .or lhs rhs => do
    if (← eval lhs).test then pure (.bool true) else pure (.bool (← eval rhs).test)
  | .logical .coalesce lhs rhs => do
    let v ← eval lhs
    if v.isNull then eval rhs else pure v
  | .conditional test yes no => do
    if (← eval test).test then eval yes else eval no
  | .assign x none value => do
    let v ← eval value
    store frame x v
    pure v
  | .assign x (some op) value => do
    let v ← eval value
    let v ← ofExcept (Value.arithmetic op (← load frame x) v)
    store frame x v
    pure v
  | .sequence items => do pure ((← evalAll items).getLast?.getD .null)
  | .lambda id params body => do
    let render ← get Context.render
    pure (.closure ⟨⟨render, frame⟩, id, params, body⟩)

def evalAll : List SlotExpr → m (List Value)
  | [] => pure []
  | e :: es => do
    let v ← eval e
    let vs ← evalAll es
    pure (v :: vs)

def evalEntries (entries : List (String × Value)) :
    List (String × SlotExpr) → m (List (String × Value))
  | [] => pure entries
  | (key, e) :: es => do
    let v ← eval e
    evalEntries (Entries.insert key v entries) es

/-- Executes a statement. Only an expression has a value other than null. -/
def exec : SlotStmt → m Value
  | .text content => do
    update fun c => c.append content
    pure .null
  | .output escape value => do
    let v ← eval value
    update fun c => c.print escape v
    pure .null
  | .extend layout => do
    extend world deep layout
    pure .null
  | .include name none => do
    includeTemplate world deep name .null
    pure .null
  | .include name (some argument) => do
    let v ← eval argument
    includeTemplate world deep name v
    pure .null
  | .block name body => do
    update fun c => c.define name (.compiled body frame)
    pure .null
  | .content name => do
    callBlock deep name
    pure .null
  | .branch test yes no => do
    let v ← eval test
    if v.test then forEffect (execAll .null yes) else forEffect (execAll .null no)
    pure .null
  | .loop x collection body => do
    let v ← eval collection
    let items ← ofExcept v.elements
    forEach (fun item => do
      store frame x item
      forEffect (execAll .null body)) items
    pure .null
  | .switch subject arms => do
    let v ← eval subject
    if !(← execMatching v arms) then execElse arms
    pure .null
  | .expr value => eval value

/-- Executes statements in order; the value is that of the last one, or `last` if there is none. -/
def execAll (last : Value) : List SlotStmt → m Value
  | [] => pure last
  | s :: ss => do
    let v ← exec s
    execAll v ss

def execMatching (subject : Value) :
    List (Option SlotExpr × List SlotStmt) → m Bool
  | [] => pure false
  | (none, _) :: arms => execMatching subject arms
  | (some e, body) :: arms => do
    let v ← eval e
    if v.equal subject then
      forEffect (execAll .null body)
      pure true
    else execMatching subject arms

def execElse : List (Option SlotExpr × List SlotStmt) → m Unit
  | [] => pure ()
  | (none, body) :: _ => forEffect (execAll .null body)
  | (some _, _) :: arms => execElse arms

end

def runBody (body : List SlotStmt) : m Value :=
  holding frame (execAll world deep frame .null body)

def runProgram (p : Program) : m Unit := do
  let frame ← get fun c => c.frames.size
  update fun c => (c.newFrame p.slots.length).2
  forEffect (runBody world deep frame p.body)

/-- Executes a program as a template, and then the layout that it asked for. -/
def renderProgram (p : Program) : m Unit := do
  let rendered ← captured (runProgram world deep p)
  match rendered.layout with
  | none => update fun c => c.append rendered.text
  | some layout =>
    -- the text printed becomes the default block, unless it is blank and there is one already
    update fun c =>
      if Text.isBlankText rendered.text && c.hasBlock defaultBlock then c
      else c.define defaultBlock (.text rendered.text)
    includeTemplate world deep layout .null

def levels : Nat → Deep m
  | 0 => ⟨fun _ _ => outOfLevels, fun _ => outOfLevels⟩
  | n + 1 =>
    ⟨fun f body => runBody world (levels n) f body, fun p => renderProgram world (levels n) p⟩

def leveled {α : Type} (r : Deep m → m α) : m α := do
  r (levels world (← get fun c => c.maxDepth - c.depth))

theorem leveled_apply {α : Type} (r : Deep (Run σ) → Run σ α) (c : Context σ) :
    leveled world r c = r (levels world (c.maxDepth - c.depth)) c := rfl

end Run

namespace Context

variable {σ α : Type} (world : World σ)

def outcome (c : Context σ) (r : Deep (Run σ) → Run σ α) : Except Error α × Context σ :=
  match Run.leveled world r c with
  | (.ok a, c) => (.ok a, c)
  | (.error (.error e), c) => (.error e, c)
  -- the levels never run out before the depth limit is hit
  | (.error .outOfLevels, c) => (.error (.recursionLimit "" c.maxDepth), c)

def callBlock (c : Context σ) (name : String) : Except Error Unit × Context σ :=
  c.outcome world fun deep => Run.callBlock deep name

def includeTemplate (c : Context σ) (name : String) (argument : Value) :
    Except Error Unit × Context σ :=
  c.outcome world fun deep => Run.includeTemplate world deep name argument

def extend (c : Context σ) (layout : String) : Except Error Unit × Context σ :=
  c.outcome world fun deep => Run.extend world deep layout

def call (c : Context σ) (callee : Value) (args : List Value) : Except Error Value × Context σ :=
  c.outcome world fun deep => Run.call world deep callee args

def renderProgram (c : Context σ) (p : Program) : Except Error Unit × Context σ :=
  c.outcome world fun deep => Run.renderProgram world deep p

def execute (c : Context σ) (p : Program) (self : Value) : Except Error Unit × Context σ :=
  c.outcome world fun deep => Run.withSelf self (Run.renderProgram world deep p)

end Context
end TextTemplate
