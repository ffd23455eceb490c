import TextTemplate.Grammar.Statement
import TextTemplate.Proofs.Grammar.Derivation
import TextTemplate.Proofs.Grammar.Reading
import Mathlib.Data.List.Basic

/-! What is read is derived. Each reader that finds nothing wrong passes over lexemes that spell,
by the rules as they are applied, the tree that it finds. -/

namespace TextTemplate.Grammar

variable {α : Type} {s : State}

namespace Reads

theorem skipColon : Reads skipColon s fun ts _ => Colon ts :=
  .atSymbol (fun h => .advance h nofun (.pure (.inr rfl))) fun _ => .pure (.inl rfl)

theorem expectEnd : Reads expectEnd s fun ts _ => ts = [.keyword .end_] :=
  .atKeyword (fun h => .advance h nofun (.pure rfl)) fun _ => .unexpected

theorem memberName :
    Reads memberName s fun ts name => ∃ l, ts = [l] ∧ l.word? = some name := by
  refine .current ?_
  split
  · rename_i name h
    refine .advance rfl ?_ (.pure ⟨_, rfl, h⟩)
    rintro hl
    simp [hl, Lexeme.word?] at h
  · exact .unexpected

theorem templateName : Reads templateName s fun ts name => ts = [.string name] := by
  refine .current ?_
  split
  · rename_i name h
    exact .advance h nofun (.pure rfl)
  · exact .unexpected

theorem blockName : Reads blockName s BlockName := by
  refine .current ?_
  split
  · rename_i name h
    exact .advance h nofun (.pure (.inl rfl))
  · exact .pure (.inr ⟨rfl, rfl⟩)

theorem leftAssociative {operand : Reader α} {operator? : Lexeme → Option (α → α → α)}
    {P Q : List Lexeme → α → Prop} (hoperand : ∀ s, Reads operand s P)
    (hend : operator? .endOfInput = none) (hone : ∀ ts a, P ts a → Q ts a)
    (hmore : ∀ ts a l combine us b, operator? l = some combine → Q ts a → P us b →
      Q (ts ++ l :: us) (combine a b)) :
    Reads (leftAssociative operand operator?) s Q := by
  refine .bind (hoperand s) fun a ts s hts => ?_
  refine .repeatUntil (fun a us b => ∀ ts, Q ts a → Q (ts ++ us) b) (fun a s => .current ?_)
    fun us b h => h ts (hone ts a hts)
  split
  · rename_i combine hl
    have hne : s.current.lexeme ≠ .endOfInput := by
      intro he
      simp [he, hend] at hl
    refine .advance rfl hne ?_
    refine .bind (hoperand _) fun b us s hus => ?_
    refine .pure ⟨by simp, fun vs c h ts hts => ?_⟩
    have hab := hmore ts a _ combine us b hl hts hus
    simpa using h _ hab
  · exact .pure fun ts hts => by simpa using hts

theorem separated {item : Reader α} {closing : Symbol} {what : Expected}
    {P : List Lexeme → α → Prop} {Q : List Lexeme → List α → Prop}
    (hitem : ∀ s, Reads item s P) (hnone : Q [] []) (hone : ∀ ts a, P ts a → Q ts [a])
    (hmore : ∀ ts a us b bs, P ts a → Q us (b :: bs) →
      Q (ts ++ .symbol .comma :: us) (a :: b :: bs)) :
    Reads (separated item closing what) s fun ts as =>
      ∃ us, ts = us ++ [.symbol closing] ∧ Q us as := by
  refine .atSymbol (fun h => .advance h nofun (.pure ⟨[], rfl, hnone⟩)) fun _ => ?_
  refine .repeatUntil (fun read ts as => ∃ us b bs, ts = us ++ [.symbol closing] ∧
    as = read.reverse ++ b :: bs ∧ Q us (b :: bs)) (fun read s => ?_) ?_
  · refine .bind (hitem s) fun a ts s hts => ?_
    refine .atSymbol (fun h => ?_) fun _ => ?_
    · refine .advance h nofun (.pure ⟨by simp, ?_⟩)
      rintro us as ⟨vs, b, bs, rfl, rfl, h⟩
      exact ⟨_, a, b :: bs, by simp, by simp, hmore ts a vs b bs hts h⟩
    · refine .atSymbol (fun h => ?_) fun _ => .unexpected
      refine .advance h nofun (.pure ?_)
      exact ⟨ts, a, [], by simp, by simp, hone ts a hts⟩
  · rintro ts as ⟨us, b, bs, hts, rfl, h⟩
    exact ⟨us, hts, h⟩

theorem updateOf {op : UpdateOp} {before : Bool} {e : SourceExpr}
    {P : List Lexeme → SourceExpr → Prop} (h : ∀ x, e = .var x → P [] (.update op before x)) :
    Reads (updateOf op before e) s P := by
  cases e with
  | var x => exact .pure (h x rfl)
  | _ => exact .fail

theorem updateOf_bind {β : Type} {op : UpdateOp} {before : Bool} {e : SourceExpr}
    {k : SourceExpr → Reader β} {Q : List Lexeme → β → Prop}
    (h : ∀ x, e = .var x → Reads (k (.update op before x)) s Q) :
    Reads (Grammar.updateOf op before e >>= k) s Q := by
  cases e with
  | var x => exact h x rfl
  | _ => exact .bind (.fail (P := fun _ _ => False)) nofun

theorem operators (level : Level) {operand : Reader SourceExpr}
    (hend : level.operator? .endOfInput = none)
    (hoperand : ∀ s, Reads operand s fun ts e => Derives .applied ts (.expr level.tighter e)) :
    Reads (Grammar.leftAssociative operand level.operator?) s fun ts e =>
      Derives .applied ts (.expr level e) := by
  refine .leftAssociative hoperand hend (fun _ _ => .tighter) ?_
  intro ts a l combine us b hl hts hus
  obtain ⟨op, rfl, rfl, rfl⟩ := exists_operator hl
  exact .operator op hts hus

theorem extendStatement (h : s.current.lexeme = .keyword .extend) :
    Reads extendStatement s fun ts e => Derives .applied ts (.stmt e) := by
  refine .advance h nofun ?_
  refine .bind .templateName ?_
  rintro name _ s rfl
  exact .pure .extend

theorem contentStatement (h : s.current.lexeme = .keyword .content) :
    Reads contentStatement s fun ts e => Derives .applied ts (.stmt e) := by
  refine .advance h nofun ?_
  refine .bind .blockName fun name ns s hns => ?_
  have hcontent : Derives .applied (.keyword .content :: ns) (.stmt (.content name)) :=
    .content hns
  exact .pure (by simpa using hcontent)

theorem found_some {β : Type} {a : α} {a? : Option α} {k : α → Reader β}
    {Q : List Lexeme → β → Prop} (ha : a? = some a) (h : Reads (k a) s Q) :
    Reads (Grammar.found a? >>= k) s Q := by
  subst ha
  exact h

end Reads

def Adds (read : Arms) (ts : List Lexeme) (next : Arms) : Prop :=
  ts ≠ [] ∧ ∃ value? body, next = { read with arms := (value?, body) :: read.arms } ∧
    (value? = none → read.hasElse = false) ∧
    ∀ us arms, Derives .applied us (.arms arms) →
      (value? = none → ∀ arm ∈ arms, arm.1.isSome) →
      Derives .applied (ts ++ us) (.arms ((value?, body) :: arms))

def Completes (read : Arms) (ts : List Lexeme) (all : Arms) : Prop :=
  ∃ ls us new, ts = ls ++ us ++ [.keyword .end_] ∧ Layout ls ∧ (read.arms ≠ [] → ls = []) ∧
    Derives .applied us (.arms new) ∧ (read.hasElse → ∀ arm ∈ new, arm.1.isSome) ∧
    all.arms = new.reverse ++ read.arms ∧ all.complete = read.complete

theorem completes_of_adds {read next all : Arms} {ts us : List Lexeme} (h : Adds read ts next)
    (hus : Completes next us all) : Completes read (ts ++ us) all := by
  obtain ⟨-, value?, body, rfl, hfresh, hadd⟩ := h
  obtain ⟨ls, us, new, rfl, -, hls, hus, helse, harms, hc⟩ := hus
  obtain rfl := hls (by simp)
  have hnew : value? = none → ∀ arm ∈ new, arm.1.isSome := by
    rintro rfl
    exact helse rfl
  refine ⟨[], ts ++ us, (value?, body) :: new, by simp, by simp [Layout], fun _ => rfl,
    hadd us new hus hnew, ?_, by simp [harms], hc⟩
  intro hread arm harm
  obtain rfl | harm := List.mem_cons.1 harm
  · cases value? with
    | some => rfl
    | none => simp [hfresh rfl] at hread
  · refine helse ?_ arm harm
    simp only [Arms.hasElse, List.any_cons, Bool.or_eq_true]
    exact .inr hread

structure Deeper.Sound (deeper : Deeper) : Prop where
  statements : ∀ s, Reads deeper.statements s fun ts ss => Derives .applied ts (.stmts ss)
  assignment : ∀ s, Reads deeper.assignment s fun ts e => Derives .applied ts (.expr .assignment e)
  unary : ∀ s, Reads deeper.unary s fun ts e => Derives .applied ts (.expr .unary e)

theorem eq_map_of_parameters? {items : List SourceExpr} {params : List String}
    (h : parameters? items = some params) : items = params.map .var := by
  fun_induction parameters? items generalizing params with
  | case1 =>
    obtain rfl : [] = params := by simpa using h
    rfl
  | case2 x es ih =>
    obtain ⟨xs, hxs, rfl⟩ := Option.map_eq_some_iff.1 h
    rw [ih hxs, List.map_cons]
  | case3 => simp at h

namespace Reads

variable {deeper : Deeper} (hd : deeper.Sound)

include hd

theorem exprs {closing : Symbol} {what : Expected} :
    Reads (Grammar.separated deeper.assignment closing what) s fun ts es =>
      ∃ us, ts = us ++ [.symbol closing] ∧ Derives .applied us (.exprs es) :=
  .separated hd.assignment .noExprs (fun _ _ => .oneExpr) fun _ _ _ _ _ => .moreExprs

theorem mapEntry : Reads (Grammar.mapEntry deeper) s fun ts entry =>
    ∃ l us, ts = l :: .symbol .colon :: us ∧ key? l = some entry.1 ∧
      Derives .applied us (.expr .assignment entry.2) := by
  refine .current ?_
  split
  · exact .unexpected
  · rename_i key hl
    refine .peek ?_
    split
    · rename_i hc
      have hne : s.current.lexeme ≠ .endOfInput := by
        rintro he
        simp [he, key?, Lexeme.word?] at hl
      refine .advance rfl hne ?_
      refine .advance (State.lexeme_advance hc) nofun ?_
      refine .bind (hd.assignment _) fun e us _ hus => ?_
      exact .pure ⟨_, us, by simp, hl, hus⟩
    · exact .fail

theorem entries :
    Reads (Grammar.separated (Grammar.mapEntry deeper) .rbrace .entryEnd) s fun ts es =>
    ∃ us, ts = us ++ [.symbol .rbrace] ∧ Derives .applied us (.entries es) := by
  refine .separated (fun _ => .mapEntry hd) .noEntries ?_ ?_
  · rintro ts ⟨key, e⟩ ⟨l, us, rfl, hl, hus⟩
    exact .oneEntry hl hus
  · rintro ts ⟨key, e⟩ us entry es ⟨l, vs, rfl, hl, hvs⟩ hus
    exact .moreEntries hl hvs hus

theorem lambdaBody : Reads (Grammar.lambdaBody deeper) s fun ts body =>
    ∃ us, Derives .applied us (.stmts body) ∧
      (ts = us ++ [.keyword .end_] ∨ ts = .symbol .lbrace :: us ++ [.symbol .rbrace]) := by
  refine .atSymbol (fun h => ?_) fun _ => ?_
  · refine .advance h nofun ?_
    refine .bind (.inBraces hd.statements) fun body us s hus => ?_
    refine .atSymbol (fun h => ?_) fun _ => .unexpected
    exact .advance h nofun (.pure ⟨us, hus, .inr rfl⟩)
  · refine .bind (hd.statements s) fun body us s hus => ?_
    refine .bind .expectEnd ?_
    rintro _ _ s rfl
    exact .pure ⟨us, hus, .inl (by simp)⟩

theorem parenthesized (h : s.current.lexeme = .symbol .lparen) :
    Reads (Grammar.parenthesized deeper) s fun ts e => Derives .applied ts (.expr .primary e) := by
  refine .advance h nofun ?_
  refine .bind (.exprs hd) ?_
  rintro items _ s ⟨ts, rfl, hts⟩
  refine .atSymbol (fun h => ?_) fun _ => ?_
  · -- with an arrow the items are parameters
    split
    · rename_i params hparams
      rw [eq_map_of_parameters? hparams] at hts
      refine .advance h nofun ?_
      refine .bind (.lambdaBody hd) ?_
      rintro body _ s ⟨us, hus, rfl | rfl⟩
      · have hlambda := Derives.lambda hts nofun hus nofun
        exact .pure (by simpa using hlambda)
      · have hlambda := Derives.bracedLambda hts nofun hus
        exact .pure (by simpa using hlambda)
    · exact .fail
  · -- without one their number decides
    split
    · exact .fail
    · cases hts with
      | oneExpr h => exact .pure (by simpa using h.parens)
    · rename_i hnone hone
      obtain _ | ⟨e, _ | ⟨e', es⟩⟩ := items
      · exact absurd rfl hnone
      · exact absurd rfl (hone e)
      · exact .pure (by simpa using hts.sequence)

theorem primary :
    Reads (Grammar.primary deeper) s fun ts e => Derives .applied ts (.expr .primary e) := by
  refine .current ?_
  split
  case h_1 h => exact .advance h nofun (.pure (.constant rfl))
  case h_2 h => exact .advance h nofun (.pure (.constant rfl))
  case h_3 h => exact .advance h nofun (.pure (.constant rfl))
  case h_4 h => exact .advance h nofun (.pure (.constant rfl))
  case h_5 h => exact .advance h nofun (.pure (.constant rfl))
  case h_6 h => exact .advance h nofun (.pure .var)
  case h_7 h =>
    refine .advance h nofun ?_
    refine .bind .memberName ?_
    rintro name _ s ⟨l, rfl, hl⟩
    exact .pure (.selfMember hl)
  case h_8 h => exact .parenthesized hd h
  case h_9 h =>
    refine .advance h nofun ?_
    refine .bind (.exprs hd) ?_
    rintro es _ s ⟨us, rfl, hus⟩
    exact .pure (by simpa using hus.array)
  case h_10 h =>
    refine .advance h nofun ?_
    refine .bind (.entries hd) ?_
    rintro es _ s ⟨us, rfl, hus⟩
    exact .pure (by simpa using hus.map)
  case h_11 => exact .unexpected

theorem callMember :
    Reads (Grammar.callMember deeper) s fun ts e => Derives .applied ts (.expr .call e) := by
  refine .bind (.primary hd) fun e ts s hts => ?_
  -- whatever has been called or accessed so far, the passes from there on extend it
  refine .repeatUntil (fun e us e' => ∀ ts, Derives .applied ts (.expr .call e) →
    Derives .applied (ts ++ us) (.expr .call e')) (fun e s => .current ?_) fun us e' h =>
      h ts hts.tighter
  split
  case h_1 h =>
    refine .advance h nofun ?_
    refine .bind (.exprs hd) ?_
    rintro args _ s ⟨us, rfl, hus⟩
    refine .pure ⟨by simp, fun vs e' h ts hts => ?_⟩
    have hcall := hts.call hus
    simpa using h _ hcall
  case h_2 h =>
    refine .advance h nofun ?_
    refine .bind .memberName ?_
    rintro name _ s ⟨l, rfl, hl⟩
    refine .pure ⟨by simp, fun vs e' h ts hts => ?_⟩
    have hm : Derives .applied (ts ++ [.symbol .dot, l]) (.expr .call (.member _ name false)) :=
      @Derives.member _ _ _ _ _ false hts hl
    simpa using h _ hm
  case h_3 h =>
    refine .advance h nofun ?_
    refine .bind .memberName ?_
    rintro name _ s ⟨l, rfl, hl⟩
    refine .pure ⟨by simp, fun vs e' h ts hts => ?_⟩
    have hm : Derives .applied (ts ++ [.symbol .questionDot, l])
        (.expr .call (.member _ name true)) :=
      @Derives.member _ _ _ _ _ true hts hl
    simpa using h _ hm
  case h_4 => exact .pure fun ts hts => by simpa using hts

theorem postfixed :
    Reads (Grammar.postfixed deeper) s fun ts e => Derives .applied ts (.expr .postfixed e) := by
  refine .bind (.callMember hd) fun e ts s hts => .current ?_
  split
  · rename_i op hop
    refine .updateOf_bind fun x he => ?_
    subst he
    have hl := symbol_of_updateOp? hop
    have hx := hts.primary_of_var _ x rfl
    exact .advance hl nofun (.pure hx.updated)
  · exact .pure (by simpa using hts.tighter)

theorem unary :
    Reads (Grammar.unary deeper) s fun ts e => Derives .applied ts (.expr .unary e) := by
  refine .current ?_
  dsimp only
  split
  · rename_i op hop
    have hl := symbol_of_unaryOp? hop
    refine .advance hl nofun ?_
    refine .bind (hd.unary _) fun e us s hus => ?_
    have hunary := @Derives.unary _ _ op _ hus
    exact .pure (by simpa using hunary)
  · rename_i op hop
    have hl := symbol_of_updateOp? hop
    refine .advance hl nofun ?_
    refine .bind (hd.unary _) fun e us s hus => .updateOf fun x he => ?_
    subst he
    have hx := hus.primary_of_var _ x rfl
    simpa using hx.update
  · exact (postfixed hd).mono fun _ _ h => .tighter h

theorem multiplicative : Reads (Grammar.multiplicative deeper) s fun ts e =>
    Derives .applied ts (.expr .multiplicative e) :=
  .operators .multiplicative rfl fun _ => .unary hd

theorem additive : Reads (Grammar.additive deeper) s fun ts e =>
    Derives .applied ts (.expr .additive e) :=
  .operators .additive rfl fun _ => .multiplicative hd

theorem comparison : Reads (Grammar.comparison deeper) s fun ts e =>
    Derives .applied ts (.expr .relational e) :=
  .operators .relational rfl fun _ => .additive hd

theorem equality : Reads (Grammar.equality deeper) s fun ts e =>
    Derives .applied ts (.expr .equality e) :=
  .operators .equality rfl fun _ => .comparison hd

theorem logical : Reads (Grammar.logical deeper) s fun ts e =>
    Derives .applied ts (.expr .logical e) :=
  .operators .logical rfl fun _ => .equality hd

theorem conditional : Reads (Grammar.conditional deeper) s fun ts e =>
    Derives .applied ts (.expr .conditional e) := by
  refine .bind (.logical hd) fun test ts s hts => ?_
  refine .atSymbol (fun h => ?_) fun _ => ?_
  · refine .advance h nofun ?_
    refine .bind (hd.assignment _) fun yes us s hus => ?_
    refine .atSymbol (fun h => ?_) fun _ => .unexpected
    refine .advance h nofun ?_
    refine .bind (hd.assignment _) fun no vs s hvs => ?_
    have hconditional := hts.conditional hus hvs
    exact .pure (by simpa using hconditional)
  · have h : Derives .applied ts (.expr .conditional test) := .tighter hts
    exact .pure (by simpa using h)

theorem assignment : Reads (Grammar.assignment deeper) s fun ts e =>
    Derives .applied ts (.expr .assignment e) := by
  refine .current (.bind (.conditional hd) fun lhs ts s hts => .current ?_)
  split
  · have h : Derives .applied ts (.expr .assignment lhs) := .tighter hts
    exact .pure (by simpa using h)
  · rename_i op hop
    have hl := symbol_of_assignmentOp? hop
    split
    · have hx := hts.primary_of_var _ _ rfl
      refine .advance hl nofun ?_
      refine .bind (hd.assignment _) fun value us s hus => ?_
      have hassign := @Derives.assign _ _ _ _ op _ hx hus
      exact .pure (by simpa using hassign)
    · exact .failAt

theorem includeStatement (h : s.current.lexeme = .keyword .include_) :
    Reads (Grammar.includeStatement deeper) s fun ts e => Derives .applied ts (.stmt e) := by
  refine .advance h nofun ?_
  refine .bind .templateName ?_
  rintro name _ s rfl
  refine .atSymbol (fun h => ?_) fun _ => .pure .includeAlone
  refine .advance h nofun ?_
  refine .bind (hd.assignment _) fun e us s hus => ?_
  have hinclude := @Derives.includeWith _ _ name _ hus
  exact .pure (by simpa using hinclude)

theorem blockStatement (h : s.current.lexeme = .keyword .block) :
    Reads (Grammar.blockStatement deeper) s fun ts e => Derives .applied ts (.stmt e) := by
  refine .advance h nofun ?_
  refine .bind .blockName fun name ns s hns => ?_
  refine .bind .skipColon fun _ c s hc => ?_
  refine .bind (hd.statements s) fun body ts s hts => ?_
  refine .bind .expectEnd ?_
  rintro _ _ s rfl
  have hblock := Derives.block hns hc hts nofun
  exact .pure (by simpa using hblock)

theorem outputStatement {escape : Bool} (h : s.current.lexeme = outputMark escape) :
    Reads (Grammar.outputStatement deeper escape) s fun ts e => Derives .applied ts (.stmt e) := by
  have hne : outputMark escape ≠ .endOfInput := by cases escape <;> nofun
  refine .advance h hne ?_
  refine .bind (hd.assignment _) fun e us s hus => ?_
  have houtput := @Derives.output _ _ escape _ hus
  exact .pure (by simpa using houtput)

theorem elseBranch : Reads (Grammar.elseBranch deeper) s fun ts no => ts = [] ∧ no = [] ∨
    ∃ c us, Colon c ∧ Derives .applied us (.stmts no) ∧ ts = .keyword .else_ :: c ++ us := by
  refine .atKeyword (fun h => ?_) fun _ => .pure (.inl ⟨rfl, rfl⟩)
  refine .advance h nofun ?_
  refine .bind .skipColon fun _ c _ hc => ?_
  exact (hd.statements _).mono fun us _ hus => .inr ⟨c, us, hc, hus, rfl⟩

theorem branchStatement (h : s.current.lexeme = .keyword .if_) :
    Reads (Grammar.branchStatement deeper) s fun ts e => Derives .applied ts (.stmt e) := by
  refine .advance h nofun ?_
  refine .bind (.optional (hd.assignment _)) ?_
  rintro _ ts s ⟨test, rfl, hts⟩
  refine .bind .skipColon fun _ c s hc => ?_
  refine .bind (hd.statements s) fun yes us s hus => ?_
  refine .bind (.elseBranch hd) fun no vs s hvs => ?_
  refine .bind .expectEnd ?_
  rintro _ _ s rfl
  refine .found_some rfl (.pure ?_)
  obtain ⟨rfl, rfl⟩ | ⟨c', vs, hc', hvs, rfl⟩ := hvs
  · have hbranch := Derives.branch hts hc hus nofun
    simpa using hbranch
  · have hbranches := Derives.branches hts hc hus nofun hc' hvs nofun
    simpa using hbranches

theorem loopHead : Reads (Grammar.loopHead deeper) s fun ts head =>
    ∃ us, ts = .name head.1 :: .keyword .in_ :: us ∧
      Derives .applied us (.expr .assignment head.2) := by
  refine .current ?_
  split
  · rename_i x h
    refine .advance h nofun ?_
    refine .atKeyword (fun h => ?_) fun _ => .unexpected
    refine .advance h nofun ?_
    refine .bind (hd.assignment _) fun e us s hus => ?_
    exact .pure ⟨us, by simp, hus⟩
  · exact .unexpected

theorem loopStatement (h : s.current.lexeme = .keyword .for_) :
    Reads (Grammar.loopStatement deeper) s fun ts e => Derives .applied ts (.stmt e) := by
  refine .advance h nofun ?_
  refine .bind (.optional (.loopHead hd)) ?_
  rintro _ _ s ⟨⟨x, collection⟩, rfl, ts, rfl, hts⟩
  refine .bind .skipColon fun _ c s hc => ?_
  refine .bind (hd.statements s) fun body us s hus => ?_
  refine .bind .expectEnd ?_
  rintro _ _ s rfl
  have hloop := @Derives.loop _ _ _ _ x _ _ hts hc hus nofun
  exact .found_some rfl (.pure (by simpa using hloop))

theorem whenArm {read : Arms} (h : s.current.lexeme = .keyword .when_) :
    Reads (Grammar.whenArm deeper read) s (Adds read) := by
  refine .advance h nofun ?_
  refine .bind (.optional (hd.assignment _)) ?_
  rintro _ ts s ⟨value, rfl, hts⟩
  refine .bind .skipColon fun _ c s hc => ?_
  refine .bind (hd.statements s) fun body us s hus => ?_
  refine .pure ⟨by simp, some value, body, rfl, nofun, fun vs arms hvs _ => ?_⟩
  have harms := Derives.whenArm hts hc hus nofun hvs
  simpa using harms

theorem elseArm {read : Arms} (h : s.current.lexeme = .keyword .else_) :
    Reads (Grammar.elseArm deeper read) s (Adds read) := by
  unfold Grammar.elseArm
  cases he : read.hasElse with
  | true => exact .note
  | false =>
    refine .advance h nofun ?_
    refine .bind .skipColon fun _ c s hc => ?_
    refine .bind (hd.statements s) fun body us s hus => ?_
    refine .pure ⟨by simp, none, body, rfl, fun _ => he, fun vs arms hvs once => ?_⟩
    have harms := Derives.elseArm hc hus nofun hvs (once rfl)
    simpa using harms

theorem switchArms : Reads (Grammar.switchArms deeper) s (Completes ⟨[], true⟩) := by
  refine .repeatUntil Completes (fun read s => .current ?_) fun _ _ h => h
  split
  case h_1 t h =>
    split
    · rename_i hblank
      obtain ⟨hread, ht⟩ := Bool.and_eq_true_iff.1 hblank
      refine .advance h nofun (.pure ⟨by simp, ?_⟩)
      rintro _ all ⟨ls, us, new, rfl, hls, -, hall⟩
      refine ⟨.text t :: ls, us, new, by simp, ?_, ?_, hall⟩
      · simpa [Layout, ht] using hls
      · simp [List.isEmpty_iff.1 hread]
    · exact .unexpected
  case h_2 h =>
    refine .bind (.whenArm hd h) fun next ts s hts => ?_
    refine .pure ⟨by simpa using hts.1, fun us all hus => ?_⟩
    simpa using completes_of_adds hts hus
  case h_3 h =>
    refine .bind (.elseArm hd h) fun next ts s hts => ?_
    refine .pure ⟨by simpa using hts.1, fun us all hus => ?_⟩
    simpa using completes_of_adds hts hus
  case h_4 h =>
    exact .advance h nofun (.pure ⟨[], [], [], rfl, by simp [Layout], fun _ => rfl, .noArms,
      by simp, rfl, rfl⟩)
  case h_5 => exact .unexpected

theorem switchStatement (h : s.current.lexeme = .keyword .switch) :
    Reads (Grammar.switchStatement deeper) s fun ts e => Derives .applied ts (.stmt e) := by
  refine .advance h nofun ?_
  refine .bind (.optional (hd.assignment _)) ?_
  rintro _ ts s ⟨subject, rfl, hts⟩
  refine .bind .skipColon fun _ c s hc => ?_
  refine .bind (.switchArms hd) ?_
  rintro all _ s ⟨ls, us, arms, rfl, hls, -, hus, -, harms, hcomplete⟩
  refine .found_some rfl ?_
  rw [if_pos hcomplete, harms]
  have hswitch := Derives.switch hts hc hls hus
  exact .pure (by simpa using hswitch)

theorem statement :
    Reads (Grammar.statement deeper) s fun ts e => Derives .applied ts (.stmt e) := by
  refine .current ?_
  split
  case h_1 h => exact .extendStatement h
  case h_2 h => exact .blockStatement hd h
  case h_3 h => exact .contentStatement h
  case h_4 h => exact .includeStatement hd h
  case h_5 h => exact .outputStatement hd h
  case h_6 h => exact .outputStatement hd h
  case h_7 h => exact .loopStatement hd h
  case h_8 h => exact .switchStatement hd h
  case h_9 h => exact .branchStatement hd h
  case h_10 =>
    refine .bind (hd.assignment s) fun e ts s hts => ?_
    exact .pure (by simpa using hts.expr)

theorem statementList :
    Reads (Grammar.statementList deeper) s fun ts ss => Derives .applied ts (.stmts ss) := by
  -- the statements read so far stand in reverse, and those to come are added to them
  refine .repeatUntil (fun read ts all => ∃ ss, all = read.reverse ++ ss ∧
    Derives .applied ts (.stmts ss)) (fun read s => .current (.peek ?_)) ?_
  · split
    · exact .pure ⟨[], by simp, .noStmts⟩
    · rename_i hends
      split
      · rename_i t h
        refine .advance h nofun (.pure ⟨by simp, ?_⟩)
        rintro us all ⟨ss, rfl, hus⟩
        -- only a text that holds nothing is no statement
        split
        · rename_i ht
          obtain rfl := String.isEmpty_iff.1 ht
          exact ⟨ss, rfl, hus.emptyText⟩
        · rename_i ht
          have hne : t ≠ "" := by simpa using ht
          exact ⟨.text t :: ss, by simp, .text hne hus⟩
      · refine .bind (.optional (.statement hd)) ?_
        rintro _ ts s ⟨e, rfl, hts⟩
        refine .pure ⟨by simpa using hts.ne_nil, ?_⟩
        rintro us all ⟨ss, rfl, hus⟩
        exact ⟨e :: ss, by simp, by simpa using hts.moreStmts hus nofun⟩
  · rintro ts all ⟨ss, rfl, hts⟩
    exact hts

end Reads

theorem Reads.nestedStatements {r : Reader (List SourceStmt)}
    {P : List Lexeme → List SourceStmt → Prop}
    (h : ∀ s, Reads r s P) (s : State) : Reads (nestedStatements r) s P := by
  refine .bind (.optional (.nested h)) ?_
  rintro _ ts s ⟨ss, rfl, hts⟩
  exact .pure (by simpa using hts)

theorem sound_levels : ∀ n, (levels n).Sound
  | 0 => ⟨.nestedStatements fun _ => .giveUp, fun _ => .giveUp, fun _ => .giveUp⟩
  | n + 1 =>
    ⟨.nestedStatements fun _ => .statementList (sound_levels n),
      fun _ => .nested fun _ => .assignment (sound_levels n),
      fun _ => .nested (r := unary (levels n)) fun _ => .unary (sound_levels n)⟩

theorem Reads.template : Reads template s fun ts ss => Derives .applied ts (.stmts ss) := by
  refine .repeatUntil (fun read ts all => ∃ ss, all = read ++ ss ∧
    Derives .applied ts (.stmts ss)) (fun read s => ?_) ?_
  · refine .bind ((sound_levels _).statements s) fun ss ts s hts => .current ?_
    split
    · exact .pure ⟨ss, rfl, by simpa using hts⟩
    · exact .skipOver
  · rintro ts all ⟨ss, rfl, hts⟩
    exact hts

theorem last_pass {α β : Type} {pass : α → Reader (α ⊕ β)} {a : α} {b : β} {s s' : State}
    (h : passes pass a s = (some b, s')) : ∃ a s, (pass a).run s = (some (.inr b), s') := by
  fun_induction passes pass a s with
  | case1 a s a' s₁ hr hlt ih => exact ih h
  | case2 => simp at h
  | case3 a s b' s₁ hr =>
    obtain ⟨rfl, rfl⟩ : b' = b ∧ s₁ = s' := by simpa using h
    exact ⟨a, s, hr⟩
  | case4 => simp at h

theorem template_ends {tree : List SourceStmt} {s s' : State}
    (h : template.run s = (some tree, s')) : s'.current.lexeme = .endOfInput := by
  obtain ⟨read, s, hpass⟩ := last_pass h
  unfold templatePass at hpass
  generalize (levels maxNesting).statements = r at hpass
  rcases hr : r.run s with ⟨_ | ss, s₁⟩
  · rw [run_bind_none hr] at hpass
    simp at hpass
  · rw [run_bind_some hr, run_current] at hpass
    split at hpass
    · rename_i hl
      obtain ⟨-, rfl⟩ := Prod.mk.inj hpass
      exact hl
    · cases Option.some.inj (Prod.mk.inj hpass).1

theorem derives_of_read {tokens : List Token} {ls : List Lexeme} {tree : List SourceStmt}
    (htokens : tokens.map Token.lexeme = ls ++ [.endOfInput]) (hls : .endOfInput ∉ ls)
    (h : read tokens = .ok tree) : Derives .applied ls (.stmts tree) := by
  have hstart : (State.ofTokens tokens).lexemes = ls ++ [.endOfInput] := by
    cases tokens with
    | nil => simp at htokens
    | cons => exact htokens
  rcases hrun : template.run (.ofTokens tokens) with ⟨_ | tree', s⟩ <;> rw [read, hrun] at h
  · simp at h
  · dsimp only at h
    split at h <;> cases h
    rename_i hp
    have hends : (State.ofTokens tokens).Ends := by simp [State.Ends, hstart]
    obtain ⟨ts, hts, hd⟩ := Reads.template.found hends hrun (List.isEmpty_iff.1 hp)
    rw [hstart, State.lexemes_eq, template_ends hrun] at hts
    -- the end of the input is passed over by none, so all before it is passed over
    obtain ⟨rfl, -, -⟩ := (List.append_cons_inj_of_notMem hls List.not_mem_nil).1 hts
    exact hd

end TextTemplate.Grammar
