import TextTemplate.Options
import TextTemplate.Value.Text
import TextTemplate.Entries
import TextTemplate.Text

/-! The state of one render: what was printed, the self value, the registered blocks, and the
variables of every execution of a program. -/

namespace TextTemplate

inductive Block where
  /-- Statements that use the variables of the execution that registered them. -/
  | compiled (body : List SlotStmt) (frame : Nat)
  | text (content : String)

namespace Block

def empty : Block := .text ""

def usesFrame (frame : Nat) : Block → Bool
  | .compiled _ f => f == frame
  | .text _ => false

end Block

/-- What a render needs of its surroundings, whose state is `σ`: programs by template name, and
calls of host functions. -/
structure World (σ : Type) where
  load : String → σ → Except Error Program × σ
  call : HostFunction → List Value → σ → Except Error Value × σ

structure Context (σ : Type) where
  output : String
  self : Value
  blocks : List (String × Block)
  depth : Nat
  maxDepth : Nat
  extendMode : ExtendMode
  pendingLayout : Option String
  render : Nat
  frames : Array (Array Value)
  running : List Nat
  world : σ

namespace Context

variable {σ : Type}

def start (options : Options) (render : Nat) (self : Value) (world : σ) : Context σ :=
  { output := "", self, blocks := [], depth := 0, maxDepth := options.maxDepth,
    extendMode := options.extend, pendingLayout := none, render, frames := #[], running := [],
    world }

def append (c : Context σ) (text : String) : Context σ :=
  { c with output := c.output ++ text }

def print (c : Context σ) (escape : Bool) (v : Value) : Context σ :=
  c.append (if escape then Text.escapeHtml v.text else v.text)

def define (c : Context σ) (name : String) (b : Block) : Context σ :=
  { c with blocks := Entries.insert name b c.blocks }

def block (c : Context σ) (name : String) : Block :=
  (Entries.find? name c.blocks).getD .empty

def hasBlock (c : Context σ) (name : String) : Bool :=
  (Entries.find? name c.blocks).isSome

def load (c : Context σ) (frame slot : Nat) : Value :=
  (c.frames[frame]? >>= fun vars => vars[slot]?).getD .null

def store (c : Context σ) (frame slot : Nat) (v : Value) : Context σ :=
  { c with frames := c.frames.modify frame fun vars => vars.setIfInBounds slot v }

def newFrame (c : Context σ) (slots : Nat) : Nat × Context σ :=
  (c.frames.size, { c with frames := c.frames.push (Array.replicate slots .null) })

/-- The context of a template of its own: what was printed is set aside, and no layout is asked
for. -/
def aside (c : Context σ) : Context σ :=
  { c with output := "", pendingLayout := none }

def resume (c c' : Context σ) : Context σ :=
  { c' with output := c.output, pendingLayout := c.pendingLayout }

def hold (frame : Nat) (c : Context σ) : Context σ :=
  { c with running := frame :: c.running }

def release (c c' : Context σ) : Context σ :=
  { c' with running := c.running }

/-- Whether the variables of an execution are still there: while something that uses them is under
way, or registered as a block. -/
def keeps (c : Context σ) (frame : FrameId) : Bool :=
  frame.render == c.render &&
    (c.running.contains frame.index || c.blocks.any fun b => b.2.usesFrame frame.index)

end Context
end TextTemplate
