import TextTemplate.Proofs.Grammar.Derivation
import TextTemplate.Proofs.Token.Spelling

/-! Printing trees as templates. Parentheses stand only where an expression is looser than the place
where it stands. Statements are set apart by breaks, at which a script region ends and another one
begins, since a statement could otherwise run on into the next one. -/

namespace TextTemplate

def Expr.level : SourceExpr → Grammar.Level
  | .literal _ | .var _ | .selfMember _ | .array _ | .map _ | .sequence _ | .lambda .. => .primary
  | .member .. | .call .. => .call
  | .update _ before _ => if before then .unary else .postfixed
  | .unary .. => .unary
  | .binary op _ _ => (Grammar.Operator.binary op).level
  | .logical op _ _ => (Grammar.Operator.logical op).level
  | .conditional .. => .conditional
  | .assign .. => .assignment

def Stmt.isText : SourceStmt → Bool
  | .text _ => true
  | _ => false

namespace Grammar

structure Style where
  /-- A text stands for the breaks next to it. -/
  tight : Bool
  /-- The bodies of lambdas stand in braces. -/
  braces : Bool
  /-- The loosest level that the branches of a conditional have without parentheses. -/
  branch : Level

def fit (level : Level) (e : SourceExpr) (ls : List Lexeme) : List Lexeme :=
  if level.rank ≤ e.level.rank then ls else .symbol .lparen :: ls ++ [.symbol .rparen]

def literalLexeme : Literal → Lexeme
  | .null => .keyword .null
  | .bool true => .keyword .true_
  | .bool false => .keyword .false_
  | .int i => .number (Nat.repr i.toInt.toNat)
  | .float x => .number (Decimal.floatText x)
  | .string s => .string s

namespace Style

variable (style : Style)

def edge (s? : Option SourceStmt) : List Lexeme :=
  if style.tight && s?.any Stmt.isText then [] else [.text ""]

def between (s : SourceStmt) : List SourceStmt → List Lexeme
  | [] => []
  | s' :: _ => if style.tight && (s.isText || s'.isText) then [] else [.text ""]

def surround (ss : List SourceStmt) (ls : List Lexeme) : List Lexeme :=
  style.edge ss.head? ++ ls ++ style.edge ss.getLast?

def lambda (params : List String) (body : List Lexeme) : List Lexeme :=
  .symbol .lparen :: bareNames params ++ .symbol .rparen :: .symbol .arrow ::
    if style.braces then .symbol .lbrace :: body ++ [.symbol .rbrace]
    else body ++ [.keyword .end_]

mutual

def expr : SourceExpr → List Lexeme
  | .literal value => [literalLexeme value]
  | .var x => [.name x]
  | .selfMember name => [.symbol .at, .ofWord name]
  | .member target name optional =>
    fit .call target (expr target) ++ [.symbol (accessSymbol optional), .ofWord name]
  | .call callee args =>
    fit .call callee (expr callee) ++ .symbol .lparen :: exprs args ++ [.symbol .rparen]
  | .array items => .symbol .lbracket :: exprs items ++ [.symbol .rbracket]
  | .map items => .symbol .lbrace :: entries items ++ [.symbol .rbrace]
  | .unary op operand => .symbol (unarySymbol op) :: fit .unary operand (expr operand)
  | .update op before x =>
    if before then [.symbol (updateSymbol op), .name x] else [.name x, .symbol (updateSymbol op)]
  | .binary op lhs rhs =>
    fit (Operator.binary op).level lhs (expr lhs) ++ .symbol (Operator.binary op).symbol
      :: fit (Operator.binary op).level.tighter rhs (expr rhs)
  | .logical op lhs rhs =>
    fit (Operator.logical op).level lhs (expr lhs) ++ .symbol (Operator.logical op).symbol
      :: fit (Operator.logical op).level.tighter rhs (expr rhs)
  | .conditional test yes no =>
    fit .logical test (expr test) ++ .symbol .question :: fit style.branch yes (expr yes)
      ++ .symbol .colon :: fit style.branch no (expr no)
  | .assign x op value => .name x :: .symbol (assignSymbol op) :: expr value
  | .sequence items => .symbol .lparen :: exprs items ++ [.symbol .rparen]
  | .lambda _ params body => style.lambda params (style.surround body (stmts body))

def exprs : List SourceExpr → List Lexeme
  | [] => []
  | e :: es => expr e ++ if es.isEmpty then [] else .symbol .comma :: exprs es

def entries : List (String × SourceExpr) → List Lexeme
  | [] => []
  | (key, e) :: es =>
    .string key :: .symbol .colon :: expr e ++
      if es.isEmpty then [] else .symbol .comma :: entries es

def stmt : SourceStmt → List Lexeme
  | .text t => [.text t]
  | .output escape value => outputMark escape :: expr value
  | .extend layout => [.keyword .extend, .string layout]
  | .include name none => [.keyword .include_, .string name]
  | .include name (some argument) =>
    .keyword .include_ :: .string name :: .symbol .comma :: expr argument
  | .block name body =>
    .keyword .block :: .string name :: style.surround body (stmts body) ++ [.keyword .end_]
  | .content name => [.keyword .content, .string name]
  | .branch test yes no =>
    .keyword .if_ :: expr test ++ style.surround yes (stmts yes)
      ++ (if no.isEmpty then [] else .keyword .else_ :: style.surround no (stmts no))
      ++ [.keyword .end_]
  | .loop x collection body =>
    .keyword .for_ :: .name x :: .keyword .in_ :: expr collection
      ++ style.surround body (stmts body) ++ [.keyword .end_]
  | .switch subject arms => .keyword .switch :: expr subject ++ switchArms arms ++ [.keyword .end_]
  | .expr value => expr value

def stmts : List SourceStmt → List Lexeme
  | [] => []
  | s :: ss => stmt s ++ style.between s ss ++ stmts ss

def switchArms : List (Option SourceExpr × List SourceStmt) → List Lexeme
  | [] => []
  | (some value, body) :: arms =>
    .keyword .when_ :: expr value ++ style.surround body (stmts body) ++ switchArms arms
  | (none, body) :: arms =>
    .keyword .else_ :: style.surround body (stmts body) ++ switchArms arms

end

def print (tree : List SourceStmt) : String :=
  match style.edge tree.head? ++ style.stmts tree with
  | .text t :: ls => spell t ls
  | ls => spell "" ls

end Style
end Grammar

def quotable (s : String) : Bool :=
  (Text.cutAt Delimiters.default.closing s.toList).isNone

def Literal.printable : Literal → Bool
  | .null | .bool _ => true
  | .int i => 0 ≤ i.toInt
  | .float _ => false
  | .string s => quotable s

mutual

/-- Whether a printed expression stands for itself: its variables are names, its members are words,
its sequences have more than one item, and its constants are printable. -/
def Expr.printable : SourceExpr → Bool
  | .literal value => value.printable
  | .var x => Lexeme.isName x
  | .selfMember name => Lexeme.isWord name
  | .member target name _ => target.printable && Lexeme.isWord name
  | .call callee args => callee.printable && Expr.printableAll args
  | .array items => Expr.printableAll items
  | .map entries => Expr.printableEntries entries
  | .unary _ operand => operand.printable
  | .update _ _ x => Lexeme.isName x
  | .binary _ lhs rhs => lhs.printable && rhs.printable
  | .logical _ lhs rhs => lhs.printable && rhs.printable
  | .conditional test yes no => test.printable && yes.printable && no.printable
  | .assign x _ value => Lexeme.isName x && value.printable
  | .sequence items => 2 ≤ items.length && Expr.printableAll items
  | .lambda _ params body => params.all Lexeme.isName && Stmt.printableAll body

def Expr.printableAll : List SourceExpr → Bool
  | [] => true
  | e :: es => e.printable && Expr.printableAll es

def Expr.printableEntries : List (String × SourceExpr) → Bool
  | [] => true
  | (key, e) :: es => quotable key && e.printable && Expr.printableEntries es

/-- The same of a statement: its texts are neither empty nor hold an opening delimiter, and at most
one arm of a switch is for all other values. -/
def Stmt.printable : SourceStmt → Bool
  | .text t => t ≠ "" && (Text.cutAt Delimiters.default.opening t.toList).isNone
  | .output _ value => value.printable
  | .extend layout => quotable layout
  | .include name none => quotable name
  | .include name (some argument) => quotable name && argument.printable
  | .block name body => quotable name && Stmt.printableAll body
  | .content name => quotable name
  | .branch test yes no => test.printable && Stmt.printableAll yes && Stmt.printableAll no
  | .loop x collection body => Lexeme.isName x && collection.printable && Stmt.printableAll body
  | .switch subject arms => subject.printable && Stmt.printableArms arms
  | .expr value => value.printable

def Stmt.printableAll : List SourceStmt → Bool
  | [] => true
  | s :: ss => s.printable && Stmt.printableAll ss

def Stmt.printableArms : List (Option SourceExpr × List SourceStmt) → Bool
  | [] => true
  | (some value, body) :: arms =>
    value.printable && Stmt.printableAll body && Stmt.printableArms arms
  | (none, body) :: arms =>
    Stmt.printableAll body && Stmt.printableArms arms && arms.all fun arm => arm.1.isSome

end

namespace Grammar

theorem Derives.loosest {g : Rules} {level : Level} {e : SourceExpr} {ls : List Lexeme}
    (h : Derives g ls (.expr level e)) : Derives g ls (.expr .assignment e) :=
  h.loosen (Nat.zero_le _)

theorem Derives.fit {g : Rules} {e : SourceExpr} {ls : List Lexeme}
    (h : Derives g ls (.expr e.level e)) (level : Level) :
    Derives g (fit level e ls) (.expr level e) := by
  unfold Grammar.fit
  split
  · rename_i hle
    exact h.loosen hle
  · exact h.loosest.parens.loosen level.rank_le

theorem numberLiteral_repr {i : Int64} (h : 0 ≤ i.toInt) :
    numberLiteral (Nat.repr i.toInt.toNat) = .int i := by
  have hread : Decimal.readDigits 0 (Nat.toDigits 10 i.toInt.toNat) = i.toInt.toNat :=
    Nat.ofDigitChars_ten_toDigits
  have hall : (Nat.toDigits 10 i.toInt.toNat).all Char.isDigit = true := by
    rw [List.all_eq_true]
    exact fun c hc => Nat.isDigit_of_mem_toDigits (by decide) (by decide) hc
  have hlt : i.toInt.toNat < Nat.pow 2 63 := by
    have hi := i.toInt_lt
    rw [Nat.pow_eq]
    omega
  have hback : Int64.ofNat i.toInt.toNat = i := by
    rw [← Int64.ofInt_eq_ofNat, Int.toNat_of_nonneg h, Int64.ofInt_toInt]
  unfold numberLiteral
  simp only [Nat.toList_repr, hread, hall, hlt, hback, decide_true, Bool.and_self, if_true]

theorem constant?_literalLexeme {value : Literal} (h : value.printable = true) :
    constant? (literalLexeme value) = some value := by
  cases value with
  | null => rfl
  | bool b => cases b <;> rfl
  | int i =>
    simp only [Literal.printable, decide_eq_true_eq] at h
    exact congrArg some (numberLiteral_repr h)
  | float x => cases h
  | string s => rfl

theorem word?_ofWord (w : String) : (Lexeme.ofWord w).word? = some w := by
  unfold Lexeme.ofWord
  split
  · rename_i k hk
    have hspelling := List.find?_some (p := fun k : Keyword => k.spelling == w) hk
    exact congrArg some (beq_iff_eq.1 hspelling)
  · rfl

theorem derives_bareNames {g : Rules} : ∀ xs : List String,
    Derives g (bareNames xs) (.exprs (xs.map .var))
  | [] => .noExprs
  | [_] => .oneExpr (Derives.var.loosen (by decide))
  | _ :: x :: xs => .moreExprs (Derives.var.loosen (by decide)) (derives_bareNames (x :: xs))

namespace Style

variable {style : Style}

theorem text_stmts {s : SourceStmt} (hs : s.isText = true) (ss : List SourceStmt) :
    ∃ t ls, style.stmts (s :: ss) = .text t :: ls := by
  cases s with
  | text t => exact ⟨t, _, by rw [stmts, stmt, List.append_assoc, List.singleton_append]⟩
  | _ => cases hs

theorem text_edge (ss : List SourceStmt) :
    ∃ t ls, style.edge ss.head? ++ style.stmts ss = .text t :: ls := by
  unfold edge
  split
  · rename_i h
    cases ss with
    | nil => simp at h
    | cons s ss =>
      simp only [Bool.and_eq_true, List.head?_cons, Option.any_some] at h
      exact text_stmts h.2 ss
  · exact ⟨_, _, rfl⟩

theorem broken_surround (ss : List SourceStmt) : Broken (style.surround ss (style.stmts ss)) := by
  obtain ⟨t, ls, h⟩ := text_edge ss
  rw [surround, h]
  trivial

theorem broken_between {s : SourceStmt} (hs : s.isText = false) (ss : List SourceStmt)
    {ls : List Lexeme} (hls : Broken ls) : Broken (style.between s ss ++ style.stmts ss ++ ls) := by
  cases ss with
  | nil => exact hls
  | cons s' ss =>
    simp only [between]
    split
    · rename_i h
      simp only [hs, Bool.false_or, Bool.and_eq_true] at h
      obtain ⟨t, ls', h⟩ := text_stmts h.2 ss
      rw [List.nil_append, h]
      trivial
    · trivial

theorem derives_edge {g : Rules} {s? : Option SourceStmt} {ls : List Lexeme}
    {ss : List SourceStmt} (h : Derives g ls (.stmts ss)) :
    Derives g (style.edge s? ++ ls) (.stmts ss) := by
  unfold edge
  split
  · exact h
  · exact h.emptyText

theorem derives_between {g : Rules} {s : SourceStmt} {ss ss' : List SourceStmt}
    {ls : List Lexeme} (h : Derives g ls (.stmts ss')) :
    Derives g (style.between s ss ++ ls) (.stmts ss') := by
  unfold between
  split
  · exact h
  · split
    · exact h
    · exact h.emptyText

theorem derives_surround {g : Rules} {ss : List SourceStmt}
    (h : ∀ tail, Derives g tail (.stmts []) → Broken tail →
      Derives g (style.stmts ss ++ tail) (.stmts ss)) :
    Derives g (style.surround ss (style.stmts ss)) (.stmts ss) := by
  have hedge : Derives g (style.edge ss.getLast?) (.stmts []) := by
    simpa using derives_edge .noStmts
  have hbroken : Broken (style.edge ss.getLast?) := by
    unfold edge
    split <;> trivial
  unfold surround
  rw [List.append_assoc]
  exact derives_edge (h _ hedge hbroken)

theorem derives_lambda {params : List String} {body : List SourceStmt} {ls : List Lexeme}
    (h : Derives .unambiguous ls (.stmts body)) (broken : Broken ls) :
    Derives .unambiguous (style.lambda params ls) (.expr .primary (.lambda () params body)) := by
  unfold lambda
  split
  · have hbraced := Derives.bracedLambda (derives_bareNames params) (fun _ => rfl) h
    simpa using hbraced
  · have hplain := Derives.lambda (derives_bareNames params) (fun _ => rfl) h fun _ => broken
    simpa using hplain

mutual

theorem derives_expr : ∀ e : SourceExpr, e.printable = true →
    Derives .unambiguous (style.expr e) (.expr e.level e)
  | .literal value, h => .constant (constant?_literalLexeme h)
  | .var _, _ => .var
  | .selfMember name, _ => .selfMember (word?_ofWord name)
  | .member target name _, h => by
    simp only [Expr.printable, Bool.and_eq_true] at h
    have htarget := (derives_expr target h.1).fit .call
    exact .member htarget (word?_ofWord name)
  | .call callee args, h => by
    simp only [Expr.printable, Bool.and_eq_true] at h
    have hcallee := (derives_expr callee h.1).fit .call
    exact .call hcallee (derives_exprs args h.2)
  | .array items, h => .array (derives_exprs items h)
  | .map items, h => .map (derives_entries items h)
  | .unary _ operand, h => .unary ((derives_expr operand h).fit .unary)
  | .update op true x, _ => .update .var
  | .update op false x, _ => .updated .var
  | .binary op lhs rhs, h => by
    simp only [Expr.printable, Bool.and_eq_true] at h
    -- all operators associate to the left, so only the right operand must be tighter
    have hlhs := (derives_expr lhs h.1).fit (Operator.binary op).level
    have hrhs := (derives_expr rhs h.2).fit (Operator.binary op).level.tighter
    exact .operator (.binary op) hlhs hrhs
  | .logical op lhs rhs, h => by
    simp only [Expr.printable, Bool.and_eq_true] at h
    have hlhs := (derives_expr lhs h.1).fit (Operator.logical op).level
    have hrhs := (derives_expr rhs h.2).fit (Operator.logical op).level.tighter
    exact .operator (.logical op) hlhs hrhs
  | .conditional test yes no, h => by
    simp only [Expr.printable, Bool.and_eq_true] at h
    have htest := (derives_expr test h.1.1).fit .logical
    have hyes := ((derives_expr yes h.1.2).fit style.branch).loosest
    have hno := ((derives_expr no h.2).fit style.branch).loosest
    exact .conditional htest hyes hno
  | .assign x op value, h => by
    simp only [Expr.printable, Bool.and_eq_true] at h
    have hvalue := (derives_expr value h.2).loosest
    exact @Derives.assign _ [.name x] _ x op value .var hvalue
  | .sequence items, h => by
    simp only [Expr.printable, Bool.and_eq_true, decide_eq_true_eq] at h
    have hitems := derives_exprs items h.2
    match items, h.1, hitems with
    | _ :: _ :: _, _, hitems => exact .sequence hitems
  | .lambda () params body, h => by
    simp only [Expr.printable, Bool.and_eq_true] at h
    have hbody := derives_surround (derives_stmts body h.2)
    exact derives_lambda hbody (broken_surround body)

theorem derives_exprs : ∀ es : List SourceExpr, Expr.printableAll es = true →
    Derives .unambiguous (style.exprs es) (.exprs es)
  | [], _ => .noExprs
  | [e], h => by
    simp only [Expr.printableAll, Bool.and_eq_true] at h
    have he := Derives.oneExpr (derives_expr e h.1).loosest
    simpa [exprs] using he
  | e :: e' :: es, h => by
    rw [Expr.printableAll, Bool.and_eq_true] at h
    exact .moreExprs (derives_expr e h.1).loosest (derives_exprs (e' :: es) h.2)

theorem derives_entries : ∀ es : List (String × SourceExpr), Expr.printableEntries es = true →
    Derives .unambiguous (style.entries es) (.entries es)
  | [], _ => .noEntries
  | [(key, e)], h => by
    simp only [Expr.printableEntries, Bool.and_eq_true] at h
    have he := (derives_expr e h.1.2).loosest
    simpa [entries] using Derives.oneEntry (l := .string key) rfl he
  | (key, e) :: entry :: es, h => by
    rw [Expr.printableEntries, Bool.and_eq_true, Bool.and_eq_true] at h
    have he := (derives_expr e h.1.2).loosest
    exact .moreEntries (l := .string key) rfl he (derives_entries (entry :: es) h.2)

theorem derives_stmt : ∀ s : SourceStmt, s.printable = true → s.isText = false →
    Derives .unambiguous (style.stmt s) (.stmt s)
  | .output escape value, h, _ => .output (derives_expr value h).loosest
  | .extend layout, _, _ => .extend
  | .include name none, _, _ => .includeAlone
  | .include name (some argument), h, _ => by
    simp only [Stmt.printable, Bool.and_eq_true] at h
    exact .includeWith (derives_expr argument h.2).loosest
  | .block name body, h, _ => by
    simp only [Stmt.printable, Bool.and_eq_true] at h
    have hbody := derives_surround (derives_stmts body h.2)
    simpa [stmt] using Derives.block (.inl rfl) (.inl rfl) hbody fun _ => broken_surround body
  | .content name, _, _ => .content (.inl rfl)
  | .branch test yes no, h, _ => by
    simp only [Stmt.printable, Bool.and_eq_true] at h
    have htest := (derives_expr test h.1.1).loosest
    have hyes := derives_surround (derives_stmts yes h.1.2)
    have hno := derives_surround (derives_stmts no h.2)
    cases no with
    | nil =>
      simpa [stmt] using htest.branch (.inl rfl) hyes fun _ => broken_surround yes
    | cons s ss =>
      simpa [stmt] using htest.branches (.inl rfl) hyes (fun _ => broken_surround yes) (.inl rfl)
        hno fun _ => broken_surround (s :: ss)
  | .loop x collection body, h, _ => by
    simp only [Stmt.printable, Bool.and_eq_true] at h
    have hcollection := (derives_expr collection h.1.2).loosest
    have hbody := derives_surround (derives_stmts body h.2)
    simpa [stmt] using hcollection.loop (x := x) (.inl rfl) hbody fun _ => broken_surround body
  | .switch subject arms, h, _ => by
    simp only [Stmt.printable, Bool.and_eq_true] at h
    have hsubject := (derives_expr subject h.1).loosest
    have harms := derives_arms arms h.2
    simpa [stmt] using hsubject.switch (.inl rfl) (show Layout [] from nofun) harms
  | .expr value, h, _ => .expr (derives_expr value h).loosest

/-- What follows the statements is part of their list, since the last of them may need the break
after it to end. -/
theorem derives_stmts : ∀ ss : List SourceStmt, Stmt.printableAll ss = true →
    ∀ tail, Derives .unambiguous tail (.stmts []) → Broken tail →
      Derives .unambiguous (style.stmts ss ++ tail) (.stmts ss)
  | [], _, _, htail, _ => htail
  | s :: ss, h, tail, htail, broken => by
    simp only [Stmt.printableAll, Bool.and_eq_true] at h
    have hrest : Derives .unambiguous (style.between s ss ++ (style.stmts ss ++ tail))
        (.stmts ss) :=
      derives_between (derives_stmts ss h.2 tail htail broken)
    rw [stmts, List.append_assoc, List.append_assoc]
    -- a text keeps itself apart, any other statement is followed by one
    cases hs : s.isText with
    | true =>
      cases s with
      | text t =>
        simp only [Stmt.printable, Bool.and_eq_true, decide_eq_true_eq] at h
        exact .text h.1.1 hrest
      | _ => cases hs
    | false =>
      refine .moreStmts (derives_stmt s h.1 hs) hrest fun _ => ?_
      rw [← List.append_assoc]
      exact broken_between hs ss broken

theorem derives_arms : ∀ arms : List (Option SourceExpr × List SourceStmt),
    Stmt.printableArms arms = true → Derives .unambiguous (style.switchArms arms) (.arms arms)
  | [], _ => .noArms
  | (some value, body) :: arms, h => by
    simp only [Stmt.printableArms, Bool.and_eq_true] at h
    have hvalue := (derives_expr value h.1.1).loosest
    have hbody := derives_surround (derives_stmts body h.1.2)
    have harms := derives_arms arms h.2
    simpa [switchArms] using
      hvalue.whenArm (.inl rfl) hbody (fun _ => broken_surround body) harms
  | (none, body) :: arms, h => by
    simp only [Stmt.printableArms, Bool.and_eq_true, List.all_eq_true] at h
    have hbody := derives_surround (derives_stmts body h.1.1)
    have harms := derives_arms arms h.1.2
    simpa [switchArms] using
      Derives.elseArm (.inl rfl) hbody (fun _ => broken_surround body) harms h.2

end

end Style

section Spellable

variable {fresh : Bool} {ls : List Lexeme}

theorem apart_of_quotable {s : String} (h : quotable s = true) : Text.Apart '%' '>' s.toList :=
  Text.cutAt_eq_none.1 (Option.isNone_iff_eq_none.1 h)

theorem spellable_symbol {x : Symbol} (h : Spellable false ls) :
    Spellable fresh (.symbol x :: ls) :=
  .cons trivial rfl h

theorem spellable_keyword {k : Keyword} (h : Spellable false ls) :
    Spellable fresh (.keyword k :: ls) :=
  .cons trivial rfl h

theorem spellable_name {x : String} (hx : Lexeme.isName x = true) (h : Spellable false ls) :
    Spellable fresh (.name x :: ls) :=
  .cons hx rfl h

theorem spellable_string {s : String} (hs : quotable s = true) (h : Spellable false ls) :
    Spellable fresh (.string s :: ls) :=
  .cons (apart_of_quotable hs) rfl h

theorem spellable_word {w : String} (hw : Lexeme.isWord w = true) :
    Spellable fresh [Lexeme.ofWord w] := by
  unfold Lexeme.ofWord
  split
  · exact spellable_keyword trivial
  · rename_i hk
    exact spellable_name (by simp [Lexeme.isName, hw, hk]) trivial

theorem spellable_literal {value : Literal} (h : value.printable = true) :
    Spellable fresh [literalLexeme value] := by
  cases value with
  | null => exact spellable_keyword trivial
  | bool b => cases b <;> exact spellable_keyword trivial
  | int i =>
    have hdigits : Lexeme.Spellable (.number (Nat.repr i.toInt.toNat)) := by
      refine ⟨by simp, List.all_eq_true.2 fun c hc => ?_⟩
      rw [Nat.toList_repr] at hc
      exact Nat.isDigit_of_mem_toDigits (by decide) (by decide) hc
    exact .cons hdigits rfl trivial
  | float x => cases h
  | string s => exact spellable_string h trivial

theorem spellable_bareNames {xs : List String} (h : xs.all Lexeme.isName = true) :
    Spellable false (bareNames xs) := by
  induction xs with
  | nil => trivial
  | cons x xs ih =>
    simp only [List.all_cons, Bool.and_eq_true] at h
    cases xs with
    | nil => exact spellable_name h.1 trivial
    | cons x' xs => exact spellable_name h.1 (spellable_symbol (ih h.2))

theorem spellable_fit {level : Level} {e : SourceExpr} (h : Spellable false ls) :
    Spellable false (fit level e ls) := by
  unfold fit
  split
  · exact h
  · exact spellable_symbol (h.append (spellable_symbol trivial))

namespace Style

variable {style : Style}

theorem spellable_between {s : SourceStmt} {ss : List SourceStmt}
    (h : Spellable true (style.stmts ss)) :
    Spellable s.isText (style.between s ss ++ style.stmts ss) := by
  cases ss with
  | nil => trivial
  | cons s' ss =>
    simp only [between]
    split
    · rename_i hs
      cases hst : s.isText with
      | true => exact h
      | false =>
        simp only [hst, Bool.false_or, Bool.and_eq_true] at hs
        obtain ⟨t, ls, htext⟩ := @text_stmts style s' hs.2 ss
        rw [htext] at h
        rw [List.nil_append, htext]
        exact ⟨nofun, h.2⟩
    · exact ⟨nofun, .nil, h⟩

theorem spellable_edge_stmts {ss : List SourceStmt} (h : Spellable true (style.stmts ss)) :
    Spellable false (style.edge ss.head? ++ style.stmts ss) := by
  obtain ⟨t, ls, htext⟩ := @text_edge style ss
  have hfirst : Spellable true (style.edge ss.head? ++ style.stmts ss) := by
    unfold edge
    split
    · exact h
    · exact ⟨nofun, .nil, h⟩
  rw [htext] at hfirst ⊢
  exact ⟨nofun, hfirst.2⟩

theorem spellable_surround {ss : List SourceStmt} (h : Spellable true (style.stmts ss)) :
    Spellable false (style.surround ss (style.stmts ss)) := by
  have hend : Spellable false (style.edge ss.getLast?) := by
    unfold edge
    split
    · trivial
    · exact ⟨nofun, .nil, trivial⟩
  exact (spellable_edge_stmts h).append hend

theorem spellable_lambda {params : List String} (hparams : params.all Lexeme.isName = true)
    (h : Spellable false ls) : Spellable false (style.lambda params ls) := by
  refine spellable_symbol ((spellable_bareNames hparams).append ?_)
  refine spellable_symbol (spellable_symbol ?_)
  split
  · exact spellable_symbol (h.append (spellable_symbol trivial))
  · exact h.append (spellable_keyword trivial)

mutual

theorem spellable_expr : ∀ e : SourceExpr, e.printable = true → Spellable false (style.expr e)
  | .literal value, h => spellable_literal h
  | .var _, h => spellable_name h trivial
  | .selfMember name, h => spellable_symbol (spellable_word h)
  | .member target name _, h => by
    simp only [Expr.printable, Bool.and_eq_true] at h
    have htarget := spellable_expr target h.1
    exact (spellable_fit htarget).append (spellable_symbol (spellable_word h.2))
  | .call callee args, h => by
    simp only [Expr.printable, Bool.and_eq_true] at h
    have hcallee := spellable_expr callee h.1
    have hargs := spellable_exprs args h.2
    refine ((spellable_fit hcallee).append ?_).append (spellable_symbol trivial)
    exact spellable_symbol hargs
  | .array items, h =>
    spellable_symbol ((spellable_exprs items h).append (spellable_symbol trivial))
  | .map items, h =>
    spellable_symbol ((spellable_entries items h).append (spellable_symbol trivial))
  | .unary _ operand, h => spellable_symbol (spellable_fit (spellable_expr operand h))
  | .update _ true _, h => spellable_symbol (spellable_name h trivial)
  | .update _ false _, h => spellable_name h (spellable_symbol trivial)
  | .binary _ lhs rhs, h => by
    simp only [Expr.printable, Bool.and_eq_true] at h
    have hlhs := spellable_expr lhs h.1
    have hrhs := spellable_expr rhs h.2
    exact (spellable_fit hlhs).append (spellable_symbol (spellable_fit hrhs))
  | .logical _ lhs rhs, h => by
    simp only [Expr.printable, Bool.and_eq_true] at h
    have hlhs := spellable_expr lhs h.1
    have hrhs := spellable_expr rhs h.2
    exact (spellable_fit hlhs).append (spellable_symbol (spellable_fit hrhs))
  | .conditional test yes no, h => by
    simp only [Expr.printable, Bool.and_eq_true] at h
    have htest := spellable_expr test h.1.1
    have hyes := spellable_expr yes h.1.2
    have hno := spellable_expr no h.2
    refine ((spellable_fit htest).append ?_).append (spellable_symbol (spellable_fit hno))
    exact spellable_symbol (spellable_fit hyes)
  | .assign _ _ value, h => by
    simp only [Expr.printable, Bool.and_eq_true] at h
    have hvalue := spellable_expr value h.2
    exact spellable_name h.1 (spellable_symbol hvalue)
  | .sequence items, h => by
    simp only [Expr.printable, Bool.and_eq_true] at h
    have hitems := spellable_exprs items h.2
    exact spellable_symbol (hitems.append (spellable_symbol trivial))
  | .lambda () _ body, h => by
    simp only [Expr.printable, Bool.and_eq_true] at h
    have hbody := spellable_surround (spellable_stmts body h.2)
    exact spellable_lambda h.1 hbody

theorem spellable_exprs : ∀ es : List SourceExpr, Expr.printableAll es = true →
    Spellable false (style.exprs es)
  | [], _ => trivial
  | e :: es, h => by
    simp only [Expr.printableAll, Bool.and_eq_true] at h
    refine (spellable_expr e h.1).append ?_
    split
    · trivial
    · exact spellable_symbol (spellable_exprs es h.2)

theorem spellable_entries : ∀ es : List (String × SourceExpr), Expr.printableEntries es = true →
    Spellable false (style.entries es)
  | [], _ => trivial
  | (_, e) :: es, h => by
    simp only [Expr.printableEntries, Bool.and_eq_true] at h
    have he := spellable_expr e h.1.2
    refine spellable_string h.1.1 (spellable_symbol (he.append ?_))
    split
    · trivial
    · exact spellable_symbol (spellable_entries es h.2)

theorem spellable_stmt : ∀ s : SourceStmt, s.printable = true → Spellable true (style.stmt s)
  | .text t, h => by
    simp only [Stmt.printable, Bool.and_eq_true, Option.isNone_iff_eq_none] at h
    exact ⟨nofun, Text.cutAt_eq_none.1 h.2, trivial⟩
  | .output true value, h | .output false value, h =>
    ⟨fun _ => rfl, trivial, spellable_expr value h⟩
  | .extend layout, h => spellable_keyword (spellable_string h trivial)
  | .include name none, h => spellable_keyword (spellable_string h trivial)
  | .include name (some argument), h => by
    simp only [Stmt.printable, Bool.and_eq_true] at h
    have hargument := spellable_expr argument h.2
    exact spellable_keyword (spellable_string h.1 (spellable_symbol hargument))
  | .block name body, h => by
    simp only [Stmt.printable, Bool.and_eq_true] at h
    have hbody := spellable_surround (spellable_stmts body h.2)
    refine spellable_keyword (spellable_string h.1 ?_)
    exact hbody.append (spellable_keyword trivial)
  | .content name, h => spellable_keyword (spellable_string h trivial)
  | .branch test yes no, h => by
    simp only [Stmt.printable, Bool.and_eq_true] at h
    have htest := spellable_expr test h.1.1
    have hyes := spellable_surround (spellable_stmts yes h.1.2)
    have hno : Spellable false (if no.isEmpty then []
        else .keyword .else_ :: style.surround no (style.stmts no)) := by
      split
      · trivial
      · exact spellable_keyword (spellable_surround (spellable_stmts no h.2))
    refine spellable_keyword (((htest.append hyes).append hno).append ?_)
    exact spellable_keyword trivial
  | .loop x collection body, h => by
    simp only [Stmt.printable, Bool.and_eq_true] at h
    have hcollection := spellable_expr collection h.1.2
    have hbody := spellable_surround (spellable_stmts body h.2)
    refine spellable_keyword (spellable_name h.1.1 (spellable_keyword ?_))
    exact (hcollection.append hbody).append (spellable_keyword trivial)
  | .switch subject arms, h => by
    simp only [Stmt.printable, Bool.and_eq_true] at h
    have hsubject := spellable_expr subject h.1
    have harms := spellable_arms arms h.2
    exact spellable_keyword ((hsubject.append harms).append (spellable_keyword trivial))
  | .expr value, h => (spellable_expr value h).mono

theorem spellable_stmts : ∀ ss : List SourceStmt, Stmt.printableAll ss = true →
    Spellable true (style.stmts ss)
  | [], _ => trivial
  | s :: ss, h => by
    simp only [Stmt.printableAll, Bool.and_eq_true] at h
    have hrest := spellable_between (s := s) (spellable_stmts ss h.2)
    have hs := spellable_stmt s h.1
    rw [stmts, List.append_assoc]
    cases hst : s.isText with
    | false => exact hs.append (hst ▸ hrest)
    | true =>
      cases s with
      | text t => exact ⟨nofun, hs.2.1, hrest⟩
      | _ => cases hst

theorem spellable_arms : ∀ arms : List (Option SourceExpr × List SourceStmt),
    Stmt.printableArms arms = true → Spellable false (style.switchArms arms)
  | [], _ => trivial
  | (some value, body) :: arms, h => by
    simp only [Stmt.printableArms, Bool.and_eq_true] at h
    have hvalue := spellable_expr value h.1.1
    have hbody := spellable_surround (spellable_stmts body h.1.2)
    have harms := spellable_arms arms h.2
    exact spellable_keyword ((hvalue.append hbody).append harms)
  | (none, body) :: arms, h => by
    simp only [Stmt.printableArms, Bool.and_eq_true] at h
    have hbody := spellable_surround (spellable_stmts body h.1.1)
    have harms := spellable_arms arms h.1.2
    exact spellable_keyword (hbody.append harms)

end

end Style
end Spellable

end Grammar

end TextTemplate
