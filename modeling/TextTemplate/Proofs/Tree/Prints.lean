import TextTemplate.Proofs.Tree.Variables

/-! What the statements of a tree print: texts as they stand, and values. As with variables, there
is a list of all of it, and a predicate along the tree that says the same. -/

namespace TextTemplate

inductive Print where
  | text (content : String)
  | value (escape : Bool)
  deriving Repr, DecidableEq

variable {ν ι : Type}

mutual

def Expr.prints : Expr ν ι → List Print
  | .literal _ => []
  | .var _ => []
  | .selfMember _ => []
  | .member target _ _ => target.prints
  | .call callee args => callee.prints ++ Expr.printsList args
  | .array items => Expr.printsList items
  | .map entries => Expr.printsEntries entries
  | .unary _ operand => operand.prints
  | .update _ _ _ => []
  | .binary _ lhs rhs => lhs.prints ++ rhs.prints
  | .logical _ lhs rhs => lhs.prints ++ rhs.prints
  | .conditional test yes no => test.prints ++ (yes.prints ++ no.prints)
  | .assign _ _ value => value.prints
  | .sequence items => Expr.printsList items
  | .lambda _ _ body => Stmt.printsList body

def Expr.printsList : List (Expr ν ι) → List Print
  | [] => []
  | e :: es => e.prints ++ Expr.printsList es

def Expr.printsEntries : List (String × Expr ν ι) → List Print
  | [] => []
  | (_, e) :: es => e.prints ++ Expr.printsEntries es

def Stmt.prints : Stmt ν ι → List Print
  | .text content => [.text content]
  | .output escape value => .value escape :: value.prints
  | .extend _ => []
  | .include _ none => []
  | .include _ (some argument) => argument.prints
  | .block _ body => Stmt.printsList body
  | .content _ => []
  | .branch test yes no => test.prints ++ (Stmt.printsList yes ++ Stmt.printsList no)
  | .loop _ collection body => collection.prints ++ Stmt.printsList body
  | .switch subject arms => subject.prints ++ Stmt.printsArms arms
  | .expr value => value.prints

def Stmt.printsList : List (Stmt ν ι) → List Print
  | [] => []
  | s :: ss => s.prints ++ Stmt.printsList ss

def Stmt.printsArms : List (Option (Expr ν ι) × List (Stmt ν ι)) → List Print
  | [] => []
  | (none, body) :: arms => Stmt.printsList body ++ Stmt.printsArms arms
  | (some value, body) :: arms => value.prints ++ (Stmt.printsList body ++ Stmt.printsArms arms)

end

section Fits

variable (p : ν → Prop) (q : Print → Prop)

mutual

def Expr.Fits : Expr ν ι → Prop
  | .literal _ => True
  | .var x => p x
  | .selfMember _ => True
  | .member target _ _ => target.Fits
  | .call callee args => callee.Fits ∧ Expr.FitsList args
  | .array items => Expr.FitsList items
  | .map entries => Expr.FitsEntries entries
  | .unary _ operand => operand.Fits
  | .update _ _ x => p x
  | .binary _ lhs rhs => lhs.Fits ∧ rhs.Fits
  | .logical _ lhs rhs => lhs.Fits ∧ rhs.Fits
  | .conditional test yes no => test.Fits ∧ yes.Fits ∧ no.Fits
  | .assign x _ value => p x ∧ value.Fits
  | .sequence items => Expr.FitsList items
  | .lambda _ params body => (∀ x ∈ params, p x) ∧ Stmt.FitsList body

def Expr.FitsList : List (Expr ν ι) → Prop
  | [] => True
  | e :: es => e.Fits ∧ Expr.FitsList es

def Expr.FitsEntries : List (String × Expr ν ι) → Prop
  | [] => True
  | (_, e) :: es => e.Fits ∧ Expr.FitsEntries es

def Stmt.Fits : Stmt ν ι → Prop
  | .text content => q (.text content)
  | .output escape value => q (.value escape) ∧ value.Fits
  | .extend _ => True
  | .include _ none => True
  | .include _ (some argument) => argument.Fits
  | .block _ body => Stmt.FitsList body
  | .content _ => True
  | .branch test yes no => test.Fits ∧ Stmt.FitsList yes ∧ Stmt.FitsList no
  | .loop x collection body => p x ∧ collection.Fits ∧ Stmt.FitsList body
  | .switch subject arms => subject.Fits ∧ Stmt.FitsArms arms
  | .expr value => value.Fits

def Stmt.FitsList : List (Stmt ν ι) → Prop
  | [] => True
  | s :: ss => s.Fits ∧ Stmt.FitsList ss

def Stmt.FitsArms : List (Option (Expr ν ι) × List (Stmt ν ι)) → Prop
  | [] => True
  | (none, body) :: arms => Stmt.FitsList body ∧ Stmt.FitsArms arms
  | (some value, body) :: arms => value.Fits ∧ Stmt.FitsList body ∧ Stmt.FitsArms arms

end

end Fits

namespace Prints

variable {p : ν → Prop} {q : Print → Prop}

theorem and_iff {fits fits' uses uses' : Prop} {out out' : List Print}
    (h : fits ↔ uses ∧ ∀ a ∈ out, q a) (h' : fits' ↔ uses' ∧ ∀ a ∈ out', q a) :
    fits ∧ fits' ↔ (uses ∧ uses') ∧ ∀ a ∈ out ++ out', q a := by
  rw [h, h', List.forall_mem_append, and_and_and_comm]

theorem silent_iff {uses : Prop} : uses ↔ uses ∧ ∀ a ∈ ([] : List Print), q a :=
  (and_iff_left fun _ ha => nomatch ha).symm

theorem and_left_iff {before fits uses : Prop} {out : List Print}
    (h : fits ↔ uses ∧ ∀ a ∈ out, q a) : before ∧ fits ↔ (before ∧ uses) ∧ ∀ a ∈ out, q a := by
  rw [h, and_assoc]

mutual

theorem expr : ∀ e : Expr ν ι, e.Fits p q ↔ e.Over p ∧ ∀ a ∈ e.prints, q a
  | .literal _ => silent_iff
  | .var _ => silent_iff
  | .selfMember _ => silent_iff
  | .member target _ _ => expr target
  | .call callee args => and_iff (expr callee) (exprs args)
  | .array items => exprs items
  | .map entries => mapEntries entries
  | .unary _ operand => expr operand
  | .update _ _ _ => silent_iff
  | .binary _ lhs rhs => and_iff (expr lhs) (expr rhs)
  | .logical _ lhs rhs => and_iff (expr lhs) (expr rhs)
  | .conditional test yes no => and_iff (expr test) (and_iff (expr yes) (expr no))
  | .assign _ _ value => and_left_iff (expr value)
  | .sequence items => exprs items
  | .lambda _ _ body => and_left_iff (stmts body)

theorem exprs : ∀ es : List (Expr ν ι),
    Expr.FitsList p q es ↔ Expr.OverList p es ∧ ∀ a ∈ Expr.printsList es, q a
  | [] => silent_iff
  | e :: es => and_iff (expr e) (exprs es)

theorem mapEntries : ∀ es : List (String × Expr ν ι),
    Expr.FitsEntries p q es ↔ Expr.OverEntries p es ∧ ∀ a ∈ Expr.printsEntries es, q a
  | [] => silent_iff
  | (_, e) :: es => and_iff (expr e) (mapEntries es)

theorem stmt : ∀ s : Stmt ν ι, s.Fits p q ↔ s.Over p ∧ ∀ a ∈ s.prints, q a
  | .text content => by
    simp [Stmt.Fits, Stmt.Over, Stmt.prints]
  | .output escape value => by
    simp [Stmt.Fits, Stmt.Over, Stmt.prints, expr value, and_left_comm]
  | .extend _ => silent_iff
  | .include _ none => silent_iff
  | .include _ (some argument) => expr argument
  | .block _ body => stmts body
  | .content _ => silent_iff
  | .branch test yes no => and_iff (expr test) (and_iff (stmts yes) (stmts no))
  | .loop _ collection body => and_left_iff (and_iff (expr collection) (stmts body))
  | .switch subject arms => and_iff (expr subject) (switchArms arms)
  | .expr value => expr value

theorem stmts : ∀ ss : List (Stmt ν ι),
    Stmt.FitsList p q ss ↔ Stmt.OverList p ss ∧ ∀ a ∈ Stmt.printsList ss, q a
  | [] => silent_iff
  | s :: ss => and_iff (stmt s) (stmts ss)

theorem switchArms : ∀ arms : List (Option (Expr ν ι) × List (Stmt ν ι)),
    Stmt.FitsArms p q arms ↔ Stmt.OverArms p arms ∧ ∀ a ∈ Stmt.printsArms arms, q a
  | [] => silent_iff
  | (none, body) :: arms => and_iff (stmts body) (switchArms arms)
  | (some value, body) :: arms =>
    and_iff (expr value) (and_iff (stmts body) (switchArms arms))

end

end Prints

theorem Stmt.fitsList_iff {p : ν → Prop} {q : Print → Prop} (ss : List (Stmt ν ι)) :
    FitsList p q ss ↔ OverList p ss ∧ ∀ a ∈ printsList ss, q a :=
  Prints.stmts ss

end TextTemplate
