/-! Syntax trees of templates. They are generic in what stands for a variable and in what tells
lambda expressions apart: a tree as written has names and nothing, a compiled one has the numbers
of variable slots and of lambdas. -/

namespace TextTemplate

inductive Literal where
  | null
  | bool (b : Bool)
  | int (i : Int64)
  | float (x : Float)
  | string (s : String)

inductive UnaryOp where
  | plus | neg | not
  deriving Repr, DecidableEq

inductive ArithmeticOp where
  | add | sub | mul | div | mod
  deriving Repr, DecidableEq

inductive ComparisonOp where
  | lt | le | gt | ge
  deriving Repr, DecidableEq

inductive BinaryOp where
  | arithmetic (op : ArithmeticOp)
  | eq
  | ne
  | comparison (op : ComparisonOp)
  deriving Repr, DecidableEq

inductive LogicalOp where
  | and | or | coalesce
  deriving Repr, DecidableEq

inductive UpdateOp where
  | inc | dec
  deriving Repr, DecidableEq

namespace UnaryOp

def spelling : UnaryOp → String
  | .plus => "+"
  | .neg => "-"
  | .not => "!"

end UnaryOp

namespace ArithmeticOp

def spelling : ArithmeticOp → String
  | .add => "+"
  | .sub => "-"
  | .mul => "*"
  | .div => "/"
  | .mod => "%"

end ArithmeticOp

namespace ComparisonOp

def spelling : ComparisonOp → String
  | .lt => "<"
  | .le => "<="
  | .gt => ">"
  | .ge => ">="

end ComparisonOp

namespace BinaryOp

def spelling : BinaryOp → String
  | .arithmetic op => op.spelling
  | .eq => "=="
  | .ne => "!="
  | .comparison op => op.spelling

end BinaryOp

namespace UpdateOp

def arithmetic : UpdateOp → ArithmeticOp
  | .inc => .add
  | .dec => .sub

end UpdateOp

mutual

/-- Expressions over variables `ν`, with lambdas told apart by `ι`. -/
inductive Expr (ν ι : Type) where
  | literal (value : Literal)
  | var (x : ν)
  | selfMember (name : String)
  /-- A member of a value; an optional access to a member of null is null. -/
  | member (target : Expr ν ι) (name : String) (optional : Bool)
  | call (callee : Expr ν ι) (args : List (Expr ν ι))
  | array (items : List (Expr ν ι))
  | map (entries : List (String × Expr ν ι))
  | unary (op : UnaryOp) (operand : Expr ν ι)
  | update (op : UpdateOp) (before : Bool) (x : ν)
  | binary (op : BinaryOp) (lhs rhs : Expr ν ι)
  | logical (op : LogicalOp) (lhs rhs : Expr ν ι)
  | conditional (test yes no : Expr ν ι)
  | assign (x : ν) (op : Option ArithmeticOp) (value : Expr ν ι)
  | sequence (items : List (Expr ν ι))
  | lambda (id : ι) (params : List ν) (body : List (Stmt ν ι))

inductive Stmt (ν ι : Type) where
  | text (content : String)
  | output (escape : Bool) (value : Expr ν ι)
  | extend (layout : String)
  | include (name : String) (argument : Option (Expr ν ι))
  /-- Registers `body` under a name when executed. -/
  | block (name : String) (body : List (Stmt ν ι))
  | content (name : String)
  | branch (test : Expr ν ι) (yes no : List (Stmt ν ι))
  | loop (x : ν) (collection : Expr ν ι) (body : List (Stmt ν ι))
  /-- The arms in source order; an arm without value is the one taken if no other is. -/
  | switch (subject : Expr ν ι) (arms : List (Option (Expr ν ι) × List (Stmt ν ι)))
  | expr (value : Expr ν ι)

end

def defaultBlock : String := "content"

abbrev SourceExpr := Expr String Unit

abbrev SourceStmt := Stmt String Unit

abbrev SlotExpr := Expr Nat Nat

abbrev SlotStmt := Stmt Nat Nat

structure Program where
  name : String
  body : List SlotStmt
  slots : List String

namespace Program

def slot? (p : Program) (name : String) : Option Nat :=
  p.slots.findIdx? (· == name)

end Program
end TextTemplate
