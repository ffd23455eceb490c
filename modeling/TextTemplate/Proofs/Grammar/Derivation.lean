import TextTemplate.Grammar.Expression
import TextTemplate.Text.CharClass

/-! The grammar of templates as rules: which lexemes spell which tree. The rules know nothing of
readers, of errors or of a limit on nesting. -/

namespace TextTemplate.Grammar

inductive Level where
  | assignment | conditional | logical | equality | relational | additive | multiplicative
  | unary | postfixed | call | primary
  deriving Repr, DecidableEq

namespace Level

def tighter : Level → Level
  | assignment => conditional
  | conditional => logical
  | logical => equality
  | equality => relational
  | relational => additive
  | additive => multiplicative
  | multiplicative => unary
  | unary => postfixed
  | postfixed => call
  | call => primary
  | primary => primary

def rank : Level → Nat
  | assignment => 0
  | conditional => 1
  | logical => 2
  | equality => 3
  | relational => 4
  | additive => 5
  | multiplicative => 6
  | unary => 7
  | postfixed => 8
  | call => 9
  | primary => 10

theorem rank_injective {l l' : Level} (h : l.rank = l'.rank) : l = l' := by
  cases l <;> cases l' <;> first | rfl | cases h

theorem rank_tighter {l : Level} (h : l.rank < 10) : l.tighter.rank = l.rank + 1 := by
  cases l with
  | primary => simp [rank] at h
  | _ => rfl

theorem rank_le (l : Level) : l.rank ≤ 10 := by
  cases l <;> decide

end Level

inductive Operator where
  | logical (op : LogicalOp)
  | binary (op : BinaryOp)
  deriving Repr, DecidableEq

namespace Operator

def level : Operator → Level
  | logical _ => .logical
  | binary .eq | binary .ne => .equality
  | binary (.comparison _) => .relational
  | binary (.arithmetic .add) | binary (.arithmetic .sub) => .additive
  | binary (.arithmetic _) => .multiplicative

def symbol : Operator → Symbol
  | logical .and => .and
  | logical .or => .or
  | logical .coalesce => .doubleQuestion
  | binary .eq => .eq
  | binary .ne => .ne
  | binary (.comparison .lt) => .lt
  | binary (.comparison .le) => .le
  | binary (.comparison .gt) => .gt
  | binary (.comparison .ge) => .ge
  | binary (.arithmetic .add) => .add
  | binary (.arithmetic .sub) => .sub
  | binary (.arithmetic .mul) => .mul
  | binary (.arithmetic .div) => .div
  | binary (.arithmetic .mod) => .mod

def apply : Operator → SourceExpr → SourceExpr → SourceExpr
  | logical op => .logical op
  | binary op => .binary op

end Operator

def Level.operator? : Level → Lexeme → Option (SourceExpr → SourceExpr → SourceExpr)
  | logical => logicalOp?
  | equality => equalityOp?
  | relational => comparisonOp?
  | additive => additiveOp?
  | multiplicative => multiplicativeOp?
  | _ => fun _ => none

theorem operator?_symbol (op : Operator) :
    op.level.operator? (.symbol op.symbol) = some op.apply := by
  cases op with
  | logical op => cases op <;> rfl
  | binary op =>
    cases op with
    | arithmetic op => cases op <;> rfl
    | comparison op => cases op <;> rfl
    | eq => rfl
    | ne => rfl

theorem exists_operator {level : Level} {l : Lexeme}
    {combine : SourceExpr → SourceExpr → SourceExpr} (h : level.operator? l = some combine) :
    ∃ op : Operator, l = .symbol op.symbol ∧ op.level = level ∧ combine = op.apply := by
  cases level with
  | logical =>
    simp only [Level.operator?, logicalOp?] at h
    split at h <;> cases h
    · exact ⟨.logical .and, rfl, rfl, rfl⟩
    · exact ⟨.logical .or, rfl, rfl, rfl⟩
    · exact ⟨.logical .coalesce, rfl, rfl, rfl⟩
  | equality =>
    simp only [Level.operator?, equalityOp?] at h
    split at h <;> cases h
    · exact ⟨.binary .eq, rfl, rfl, rfl⟩
    · exact ⟨.binary .ne, rfl, rfl, rfl⟩
  | relational =>
    simp only [Level.operator?, comparisonOp?] at h
    split at h <;> cases h
    · exact ⟨.binary (.comparison .lt), rfl, rfl, rfl⟩
    · exact ⟨.binary (.comparison .le), rfl, rfl, rfl⟩
    · exact ⟨.binary (.comparison .gt), rfl, rfl, rfl⟩
    · exact ⟨.binary (.comparison .ge), rfl, rfl, rfl⟩
  | additive =>
    simp only [Level.operator?, additiveOp?] at h
    split at h <;> cases h
    · exact ⟨.binary (.arithmetic .add), rfl, rfl, rfl⟩
    · exact ⟨.binary (.arithmetic .sub), rfl, rfl, rfl⟩
  | multiplicative =>
    simp only [Level.operator?, multiplicativeOp?] at h
    split at h <;> cases h
    · exact ⟨.binary (.arithmetic .mul), rfl, rfl, rfl⟩
    · exact ⟨.binary (.arithmetic .div), rfl, rfl, rfl⟩
    · exact ⟨.binary (.arithmetic .mod), rfl, rfl, rfl⟩
  | _ => cases h

def assignSymbol : Option ArithmeticOp → Symbol
  | none => .assign
  | some .add => .addAssign
  | some .sub => .subAssign
  | some .mul => .mulAssign
  | some .div => .divAssign
  | some .mod => .modAssign

def unarySymbol : UnaryOp → Symbol
  | .plus => .add
  | .neg => .sub
  | .not => .not

def updateSymbol : UpdateOp → Symbol
  | .inc => .inc
  | .dec => .dec

theorem symbol_of_updateOp? {l : Lexeme} {op : UpdateOp} (h : updateOp? l = some op) :
    l = .symbol (updateSymbol op) := by
  unfold updateOp? at h
  split at h <;> cases h <;> rfl

theorem symbol_of_unaryOp? {l : Lexeme} {op : UnaryOp} (h : unaryOp? l = some op) :
    l = .symbol (unarySymbol op) := by
  unfold unaryOp? at h
  split at h <;> cases h <;> rfl

theorem symbol_of_assignmentOp? {l : Lexeme} {op : Option ArithmeticOp}
    (h : assignmentOp? l = some op) : l = .symbol (assignSymbol op) := by
  unfold assignmentOp? at h
  split at h <;> cases h <;> rfl

def accessSymbol (optional : Bool) : Symbol :=
  if optional then .questionDot else .dot

def outputMark (escape : Bool) : Lexeme :=
  if escape then .escapeMark else .rawMark

def constant? : Lexeme → Option Literal
  | .keyword .null => some .null
  | .keyword .true_ => some (.bool true)
  | .keyword .false_ => some (.bool false)
  | .string s => some (.string s)
  | .number digits => some (numberLiteral digits)
  | _ => none

def bareNames : List String → List Lexeme
  | [] => []
  | [x] => [.name x]
  | x :: xs => .name x :: .symbol .comma :: bareNames xs

def Colon (ts : List Lexeme) : Prop := ts = [] ∨ ts = [.symbol .colon]

def BlockName (ts : List Lexeme) (name : String) : Prop :=
  ts = [.string name] ∨ ts = [] ∧ name = defaultBlock

def Layout (ts : List Lexeme) : Prop :=
  ∀ l ∈ ts, ∃ t, l = .text t ∧ Text.isBlankText t = true

/-- Lexemes with a text at the front, or none. -/
def Broken : List Lexeme → Prop
  | [] => True
  | .text _ :: _ => True
  | _ => False

structure Rules where
  /-- Parameters of lambdas are bare names, not names in parentheses. -/
  bareParameters : Bool
  /-- Texts, possibly empty, set statements apart. -/
  separated : Bool

namespace Rules

def documented : Rules := ⟨true, false⟩

def applied : Rules := ⟨false, false⟩

/-- Rules that leave no choice. -/
def unambiguous : Rules := ⟨false, true⟩

end Rules

inductive Phrase where
  | expr (level : Level) (e : SourceExpr)
  | exprs (es : List SourceExpr)
  | entries (es : List (String × SourceExpr))
  | stmt (s : SourceStmt)
  | stmts (ss : List SourceStmt)
  | arms (arms : List (Option SourceExpr × List SourceStmt))

inductive Derives (g : Rules) : List Lexeme → Phrase → Prop where
  | constant {l : Lexeme} {value : Literal} (h : constant? l = some value) :
    Derives g [l] (.expr .primary (.literal value))
  | var {x : String} : Derives g [.name x] (.expr .primary (.var x))
  | selfMember {l : Lexeme} {name : String} (h : l.word? = some name) :
    Derives g [.symbol .at, l] (.expr .primary (.selfMember name))
  | parens {ts : List Lexeme} {e : SourceExpr} (h : Derives g ts (.expr .assignment e)) :
    Derives g (.symbol .lparen :: ts ++ [.symbol .rparen]) (.expr .primary e)
  | sequence {ts : List Lexeme} {e e' : SourceExpr} {es : List SourceExpr}
    (h : Derives g ts (.exprs (e :: e' :: es))) :
    Derives g (.symbol .lparen :: ts ++ [.symbol .rparen])
      (.expr .primary (.sequence (e :: e' :: es)))
  | array {ts : List Lexeme} {es : List SourceExpr} (h : Derives g ts (.exprs es)) :
    Derives g (.symbol .lbracket :: ts ++ [.symbol .rbracket]) (.expr .primary (.array es))
  | map {ts : List Lexeme} {es : List (String × SourceExpr)} (h : Derives g ts (.entries es)) :
    Derives g (.symbol .lbrace :: ts ++ [.symbol .rbrace]) (.expr .primary (.map es))
  -- the parameters are expressions that are variables, however these are spelled
  | lambda {ps ts : List Lexeme} {xs : List String} {body : List SourceStmt}
    (hps : Derives g ps (.exprs (xs.map .var)))
    (bare : g.bareParameters = true → ps = bareNames xs)
    (hts : Derives g ts (.stmts body)) (broken : g.separated = true → Broken ts) :
    Derives g (.symbol .lparen :: ps ++ .symbol .rparen :: .symbol .arrow :: ts
      ++ [.keyword .end_]) (.expr .primary (.lambda () xs body))
  | bracedLambda {ps ts : List Lexeme} {xs : List String} {body : List SourceStmt}
    (hps : Derives g ps (.exprs (xs.map .var)))
    (bare : g.bareParameters = true → ps = bareNames xs)
    (hts : Derives g ts (.stmts body)) :
    Derives g (.symbol .lparen :: ps ++ .symbol .rparen :: .symbol .arrow :: .symbol .lbrace :: ts
      ++ [.symbol .rbrace]) (.expr .primary (.lambda () xs body))
  | call {ts us : List Lexeme} {callee : SourceExpr} {args : List SourceExpr}
    (hts : Derives g ts (.expr .call callee)) (hus : Derives g us (.exprs args)) :
    Derives g (ts ++ .symbol .lparen :: us ++ [.symbol .rparen]) (.expr .call (.call callee args))
  | member {ts : List Lexeme} {target : SourceExpr} {l : Lexeme} {name : String} {optional : Bool}
    (hts : Derives g ts (.expr .call target)) (hl : l.word? = some name) :
    Derives g (ts ++ [.symbol (accessSymbol optional), l])
      (.expr .call (.member target name optional))
  | updated {ts : List Lexeme} {x : String} {op : UpdateOp}
    (h : Derives g ts (.expr .primary (.var x))) :
    Derives g (ts ++ [.symbol (updateSymbol op)]) (.expr .postfixed (.update op false x))
  | update {ts : List Lexeme} {x : String} {op : UpdateOp}
    (h : Derives g ts (.expr .primary (.var x))) :
    Derives g (.symbol (updateSymbol op) :: ts) (.expr .unary (.update op true x))
  | unary {ts : List Lexeme} {op : UnaryOp} {e : SourceExpr} (h : Derives g ts (.expr .unary e)) :
    Derives g (.symbol (unarySymbol op) :: ts) (.expr .unary (.unary op e))
  | operator {ts us : List Lexeme} (op : Operator) {lhs rhs : SourceExpr}
    (hts : Derives g ts (.expr op.level lhs)) (hus : Derives g us (.expr op.level.tighter rhs)) :
    Derives g (ts ++ .symbol op.symbol :: us) (.expr op.level (op.apply lhs rhs))
  | conditional {ts us vs : List Lexeme} {test yes no : SourceExpr}
    (hts : Derives g ts (.expr .logical test)) (hus : Derives g us (.expr .assignment yes))
    (hvs : Derives g vs (.expr .assignment no)) :
    Derives g (ts ++ .symbol .question :: us ++ .symbol .colon :: vs)
      (.expr .conditional (.conditional test yes no))
  | assign {ts us : List Lexeme} {x : String} {op : Option ArithmeticOp} {value : SourceExpr}
    (hts : Derives g ts (.expr .primary (.var x)))
    (hus : Derives g us (.expr .assignment value)) :
    Derives g (ts ++ .symbol (assignSymbol op) :: us) (.expr .assignment (.assign x op value))
  -- an expression of the next tighter level counts as one of the level
  | tighter {ts : List Lexeme} {level : Level} {e : SourceExpr}
    (h : Derives g ts (.expr level.tighter e)) : Derives g ts (.expr level e)
  | noExprs : Derives g [] (.exprs [])
  | oneExpr {ts : List Lexeme} {e : SourceExpr} (h : Derives g ts (.expr .assignment e)) :
    Derives g ts (.exprs [e])
  | moreExprs {ts us : List Lexeme} {e e' : SourceExpr} {es : List SourceExpr}
    (hts : Derives g ts (.expr .assignment e)) (hus : Derives g us (.exprs (e' :: es))) :
    Derives g (ts ++ .symbol .comma :: us) (.exprs (e :: e' :: es))
  | noEntries : Derives g [] (.entries [])
  | oneEntry {l : Lexeme} {ts : List Lexeme} {key : String} {e : SourceExpr}
    (hl : key? l = some key) (hts : Derives g ts (.expr .assignment e)) :
    Derives g (l :: .symbol .colon :: ts) (.entries [(key, e)])
  | moreEntries {l : Lexeme} {ts us : List Lexeme} {key : String} {e : SourceExpr}
    {entry : String × SourceExpr} {es : List (String × SourceExpr)}
    (hl : key? l = some key) (hts : Derives g ts (.expr .assignment e))
    (hus : Derives g us (.entries (entry :: es))) :
    Derives g (l :: .symbol .colon :: ts ++ .symbol .comma :: us)
      (.entries ((key, e) :: entry :: es))
  | extend {layout : String} :
    Derives g [.keyword .extend, .string layout] (.stmt (.extend layout))
  | includeAlone {name : String} :
    Derives g [.keyword .include_, .string name] (.stmt (.include name none))
  | includeWith {ts : List Lexeme} {name : String} {e : SourceExpr}
    (h : Derives g ts (.expr .assignment e)) :
    Derives g (.keyword .include_ :: .string name :: .symbol .comma :: ts)
      (.stmt (.include name (some e)))
  | block {ns c ts : List Lexeme} {name : String} {body : List SourceStmt}
    (hns : BlockName ns name) (hc : Colon c) (hts : Derives g ts (.stmts body))
    (broken : g.separated = true → Broken ts) :
    Derives g (.keyword .block :: ns ++ c ++ ts ++ [.keyword .end_]) (.stmt (.block name body))
  | content {ns : List Lexeme} {name : String} (hns : BlockName ns name) :
    Derives g (.keyword .content :: ns) (.stmt (.content name))
  | output {ts : List Lexeme} {escape : Bool} {e : SourceExpr}
    (h : Derives g ts (.expr .assignment e)) :
    Derives g (outputMark escape :: ts) (.stmt (.output escape e))
  | branch {ts c us : List Lexeme} {test : SourceExpr} {yes : List SourceStmt}
    (hts : Derives g ts (.expr .assignment test)) (hc : Colon c) (hus : Derives g us (.stmts yes))
    (broken : g.separated = true → Broken us) :
    Derives g (.keyword .if_ :: ts ++ c ++ us ++ [.keyword .end_]) (.stmt (.branch test yes []))
  | branches {ts c us c' vs : List Lexeme} {test : SourceExpr} {yes no : List SourceStmt}
    (hts : Derives g ts (.expr .assignment test)) (hc : Colon c) (hus : Derives g us (.stmts yes))
    (broken : g.separated = true → Broken us) (hc' : Colon c') (hvs : Derives g vs (.stmts no))
    (broken' : g.separated = true → Broken vs) :
    Derives g (.keyword .if_ :: ts ++ c ++ us ++ .keyword .else_ :: c' ++ vs ++ [.keyword .end_])
      (.stmt (.branch test yes no))
  | loop {ts c us : List Lexeme} {x : String} {collection : SourceExpr} {body : List SourceStmt}
    (hts : Derives g ts (.expr .assignment collection)) (hc : Colon c)
    (hus : Derives g us (.stmts body)) (broken : g.separated = true → Broken us) :
    Derives g (.keyword .for_ :: .name x :: .keyword .in_ :: ts ++ c ++ us ++ [.keyword .end_])
      (.stmt (.loop x collection body))
  | switch {ts c ls us : List Lexeme} {subject : SourceExpr}
    {arms : List (Option SourceExpr × List SourceStmt)}
    (hts : Derives g ts (.expr .assignment subject)) (hc : Colon c) (hls : Layout ls)
    (hus : Derives g us (.arms arms)) :
    Derives g (.keyword .switch :: ts ++ c ++ ls ++ us ++ [.keyword .end_])
      (.stmt (.switch subject arms))
  | expr {ts : List Lexeme} {e : SourceExpr} (h : Derives g ts (.expr .assignment e)) :
    Derives g ts (.stmt (.expr e))
  | noStmts : Derives g [] (.stmts [])
  -- a text that holds nothing is no statement
  | emptyText {ts : List Lexeme} {ss : List SourceStmt} (h : Derives g ts (.stmts ss)) :
    Derives g (.text "" :: ts) (.stmts ss)
  | text {t : String} {ts : List Lexeme} {ss : List SourceStmt} (ht : t ≠ "")
    (hts : Derives g ts (.stmts ss)) : Derives g (.text t :: ts) (.stmts (.text t :: ss))
  | moreStmts {ts us : List Lexeme} {s : SourceStmt} {ss : List SourceStmt}
    (hts : Derives g ts (.stmt s)) (hus : Derives g us (.stmts ss))
    (broken : g.separated = true → Broken us) : Derives g (ts ++ us) (.stmts (s :: ss))
  | noArms : Derives g [] (.arms [])
  | whenArm {ts c us vs : List Lexeme} {value : SourceExpr} {body : List SourceStmt}
    {arms : List (Option SourceExpr × List SourceStmt)}
    (hts : Derives g ts (.expr .assignment value)) (hc : Colon c)
    (hus : Derives g us (.stmts body)) (broken : g.separated = true → Broken us)
    (hvs : Derives g vs (.arms arms)) :
    Derives g (.keyword .when_ :: ts ++ c ++ us ++ vs) (.arms ((some value, body) :: arms))
  -- the arms may come in any order, with at most one for all other values
  | elseArm {c us vs : List Lexeme} {body : List SourceStmt}
    {arms : List (Option SourceExpr × List SourceStmt)}
    (hc : Colon c) (hus : Derives g us (.stmts body)) (broken : g.separated = true → Broken us)
    (hvs : Derives g vs (.arms arms)) (once : ∀ arm ∈ arms, arm.1.isSome) :
    Derives g (.keyword .else_ :: c ++ us ++ vs) (.arms ((none, body) :: arms))

def Ordinary : Lexeme → Prop
  | .invalid _ | .unclosed _ | .endOfInput | .symbol .arrow => False
  | _ => True

theorem ordinary_of_constant? {l : Lexeme} {value : Literal} (h : constant? l = some value) :
    Ordinary l := by
  unfold constant? at h
  split at h <;> simp_all [Ordinary]

theorem ordinary_of_word? {l : Lexeme} {name : String} (h : l.word? = some name) : Ordinary l := by
  unfold Lexeme.word? at h
  split at h <;> simp_all [Ordinary]

theorem ordinary_of_key? {l : Lexeme} {key : String} (h : key? l = some key) : Ordinary l := by
  unfold key? at h
  split at h
  · trivial
  · exact ordinary_of_word? h

theorem ordinary_accessSymbol (optional : Bool) : Ordinary (.symbol (accessSymbol optional)) := by
  cases optional <;> trivial

theorem ordinary_updateSymbol (op : UpdateOp) : Ordinary (.symbol (updateSymbol op)) := by
  cases op <;> trivial

theorem ordinary_unarySymbol (op : UnaryOp) : Ordinary (.symbol (unarySymbol op)) := by
  cases op <;> trivial

theorem ordinary_symbol (op : Operator) : Ordinary (.symbol op.symbol) := by
  unfold Operator.symbol
  split <;> trivial

theorem ordinary_assignSymbol (op : Option ArithmeticOp) :
    Ordinary (.symbol (assignSymbol op)) := by
  unfold assignSymbol
  split <;> trivial

theorem ordinary_outputMark (escape : Bool) : Ordinary (outputMark escape) := by
  cases escape <;> trivial

namespace Derives

variable {g : Rules} {ts : List Lexeme} {p : Phrase}

theorem ne_nil (h : Derives g ts p) :
    match p with
    | .expr .. | .stmt _ => ts ≠ []
    | _ => True := by
  induction h with
  | tighter _ ih | expr _ ih => exact ih
  | _ => simp

theorem closed {C : List Lexeme → Prop} (none : C []) (one : ∀ l, Ordinary l → C [l])
    (append : ∀ ts us, C ts → C us → C (ts ++ us))
    (arrow : ∀ ps xs, C ps → (g.bareParameters = true → ps = bareNames xs) →
      C (.symbol .lparen :: ps ++ [.symbol .rparen, .symbol .arrow]))
    (h : Derives g ts p) : C ts := by
  have cons {l ts} (hl : Ordinary l) (hts : C ts) : C (l :: ts) := append _ _ (one l hl) hts
  have colon {c} (hc : Colon c) : C c := by
    obtain rfl | rfl := hc
    · exact none
    · exact one _ trivial
  have blockName {ns name} (hns : BlockName ns name) : C ns := by
    obtain rfl | ⟨rfl, -⟩ := hns
    · exact one _ trivial
    · exact none
  have layout {ls} (hls : Layout ls) : C ls := by
    induction ls with
    | nil => exact none
    | cons l ls ih =>
      obtain ⟨t, rfl, -⟩ := hls l (List.mem_cons_self)
      exact cons trivial (ih fun l hl => hls l (List.mem_cons_of_mem _ hl))
  induction h with
  | constant h => exact one _ (ordinary_of_constant? h)
  | var => exact one _ trivial
  | selfMember h => exact cons trivial (one _ (ordinary_of_word? h))
  | parens _ ih | sequence _ ih | array _ ih | map _ ih =>
    exact cons trivial (append _ _ ih (one _ trivial))
  | lambda _ bare _ _ ihps ihts =>
    have hbody := append _ _ ihts (one (.keyword .end_) trivial)
    simpa using append _ _ (arrow _ _ ihps bare) hbody
  | bracedLambda _ bare _ ihps ihts =>
    have hbody := append _ _ ihts (one (.symbol .rbrace) trivial)
    have hbraced := cons (l := .symbol .lbrace) trivial hbody
    simpa using append _ _ (arrow _ _ ihps bare) hbraced
  | call _ _ ihts ihus =>
    exact append _ _ (append _ _ ihts (cons trivial ihus)) (one _ trivial)
  | member _ hl ih =>
    exact append _ _ ih (cons (ordinary_accessSymbol _) (one _ (ordinary_of_word? hl)))
  | updated _ ih => exact append _ _ ih (one _ (ordinary_updateSymbol _))
  | update _ ih => exact cons (ordinary_updateSymbol _) ih
  | unary _ ih => exact cons (ordinary_unarySymbol _) ih
  | operator op _ _ ihts ihus => exact append _ _ ihts (cons (ordinary_symbol op) ihus)
  | conditional _ _ _ ihts ihus ihvs =>
    exact append _ _ (append _ _ ihts (cons trivial ihus)) (cons trivial ihvs)
  | assign _ _ ihts ihus => exact append _ _ ihts (cons (ordinary_assignSymbol _) ihus)
  | tighter _ ih | oneExpr _ ih | expr _ ih => exact ih
  | noExprs | noEntries | noStmts | noArms => exact none
  | moreExprs _ _ ihts ihus => exact append _ _ ihts (cons trivial ihus)
  | oneEntry hl _ ih => exact cons (ordinary_of_key? hl) (cons trivial ih)
  | moreEntries hl _ _ ihts ihus =>
    exact append _ _ (cons (ordinary_of_key? hl) (cons trivial ihts)) (cons trivial ihus)
  | extend | includeAlone => exact cons trivial (one _ trivial)
  | includeWith _ ih => exact cons trivial (cons trivial (cons trivial ih))
  | block hns hc _ _ ih =>
    have hbody := append _ _ (append _ _ (blockName hns) (colon hc)) ih
    have hend := append _ _ hbody (one (.keyword .end_) trivial)
    simpa using cons (l := .keyword .block) trivial hend
  | content hns => exact cons trivial (blockName hns)
  | output _ ih => exact cons (ordinary_outputMark _) ih
  | branch _ hc _ _ ihts ihus =>
    have hyes := append _ _ (append _ _ ihts (colon hc)) ihus
    have hend := append _ _ hyes (one (.keyword .end_) trivial)
    simpa using cons (l := .keyword .if_) trivial hend
  | branches _ hc _ _ hc' _ _ ihts ihus ihvs =>
    have hyes := append _ _ (append _ _ ihts (colon hc)) ihus
    have hno := cons (l := .keyword .else_) trivial (append _ _ (colon hc') ihvs)
    have hend := append _ _ hyes (append _ _ hno (one (.keyword .end_) trivial))
    simpa using cons (l := .keyword .if_) trivial hend
  | loop _ hc _ _ ihts ihus =>
    have hbody := append _ _ (append _ _ ihts (colon hc)) ihus
    have hend := append _ _ hbody (one (.keyword .end_) trivial)
    have hin := cons (l := .keyword .in_) trivial hend
    simpa using cons (l := .keyword .for_) trivial (cons (l := .name _) trivial hin)
  | switch _ hc hls _ ihts ihus =>
    have hhead := append _ _ (append _ _ ihts (colon hc)) (layout hls)
    have hend := append _ _ (append _ _ hhead ihus) (one (.keyword .end_) trivial)
    simpa using cons (l := .keyword .switch) trivial hend
  | emptyText _ ih | text _ _ ih => exact cons trivial ih
  | moreStmts _ _ _ ihts ihus => exact append _ _ ihts ihus
  | whenArm _ hc _ _ _ ihts ihus ihvs =>
    have harm := append _ _ (append _ _ ihts (colon hc)) ihus
    simpa using cons (l := .keyword .when_) trivial (append _ _ harm ihvs)
  | elseArm hc _ _ _ _ ihus ihvs =>
    have harm := append _ _ (colon hc) ihus
    simpa using cons (l := .keyword .else_) trivial (append _ _ harm ihvs)

theorem primary_of_var (h : Derives g ts p) :
    ∀ level x, p = .expr level (.var x) → Derives g ts (.expr .primary (.var x)) := by
  induction h with
  | var =>
    rintro _ x ⟨⟩
    exact .var
  | parens h =>
    rintro _ x ⟨⟩
    exact h.parens
  | tighter _ ih =>
    rintro level x ⟨⟩
    exact ih _ x rfl
  | operator op =>
    rintro level x heq
    cases op <;> simp [Operator.apply] at heq
  | _ => nofun

theorem loosen {level level' : Level} {e : SourceExpr} (h : Derives g ts (.expr level e))
    (hl : level'.rank ≤ level.rank) : Derives g ts (.expr level' e) := by
  generalize hn : level.rank - level'.rank = n
  induction n generalizing level' with
  | zero =>
    obtain rfl : level = level' := Level.rank_injective (by omega)
    exact h
  | succ n ih =>
    have hle := level.rank_le
    have hr := @Level.rank_tighter level' (by omega)
    exact .tighter (ih (by omega) (by omega))

end Derives
end TextTemplate.Grammar
