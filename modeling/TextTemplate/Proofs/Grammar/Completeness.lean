import TextTemplate.Proofs.Grammar.Acceptance

/-! What is derived is read. Each statement begins with a lexeme that ends none, so a list of
statements ends where it should, and texts keep statements apart. -/

namespace TextTemplate.Grammar

namespace Accepts

variable {g : Rules} {ts us : List Lexeme} {n : Nat} {s : State} {c : Lexeme} {cs : List Lexeme}

theorem skipColon {deep : Prop} {ds ms : List Lexeme} (hds : Colon ds) (hms : Closing ms)
    (h : s.At n (ds ++ ms)) : Reaches n deep skipColon s (pure ()) ms := by
  obtain ⟨m, ms, rfl, hm⟩ := hms
  have hne : m ≠ .symbol .colon := by
    rintro rfl
    exact hm
  obtain rfl | rfl := hds
  · exact .not_atSymbol h hne (.refl h)
  · exact .atSymbol h (.step h)

theorem blockName {deep : Prop} {ns ms : List Lexeme} {name : String} (hns : BlockName ns name)
    (h : s.At n (ns ++ ms)) (hne : ms ≠ []) (hm : ∀ t us, ms ≠ .string t :: us) :
    Reaches n deep blockName s (pure name) ms := by
  refine .current ?_
  obtain rfl | ⟨rfl, rfl⟩ := hns
  · have h : s.At n (.string name :: ms) := h
    rw [h.current]
    exact .advance h (fun _ h _ => .refl h) hne
  · obtain ⟨m, ms, rfl⟩ := List.exists_cons_of_ne_nil hne
    have h : s.At n (m :: ms) := h
    rw [h.current]
    split
    · exact absurd rfl (hm _ _)
    · exact .refl h

theorem exprStmt {e : SourceExpr} (hd : Derives g ts (.expr .assignment e))
    (ih : Accepts ts (.expr .assignment e)) : Accepts ts (.stmt (.expr e)) := by
  intro n s c cs h hc
  obtain ⟨l, us, rfl, hl⟩ := hd.opens
  have hread := ih.assignment h hc.not_goesOn
  refine .current ?_
  rw [h.current]
  -- no word that begins another kind of statement opens an expression
  split
  case h_10 => exact .bind hread fun _ h _ => .refl h
  all_goals exact hl.elim

theorem extend {layout : String} :
    Accepts [.keyword .extend, .string layout] (.stmt (.extend layout)) := by
  intro n s c cs h _
  refine .current ?_
  rw [h.current]
  refine .advance h fun s h _ => ?_
  exact .bind (.templateName h) fun s h _ => .refl h

theorem includeAlone {name : String} :
    Accepts [.keyword .include_, .string name] (.stmt (.include name none)) := by
  intro n s c cs h hc
  have hne : c ≠ .symbol .comma := by
    rintro rfl
    exact hc
  refine .current ?_
  rw [h.current]
  refine .advance h fun s h _ => ?_
  refine .bind (.templateName h) fun s h _ => ?_
  exact .not_atSymbol h hne (.refl h)

theorem includeWith {name : String} {e : SourceExpr} (ih : Accepts ts (.expr .assignment e)) :
    Accepts (.keyword .include_ :: .string name :: .symbol .comma :: ts)
      (.stmt (.include name (some e))) := by
  intro n s c cs h hc
  refine .current ?_
  rw [h.current]
  refine .advance h fun s h _ => ?_
  refine .bind (.templateName h) fun s h _ => .atSymbol h ?_
  refine .advance h fun s h _ => ?_
  exact .bind (ih.assignment h hc.not_goesOn).within fun s h _ => .refl h

theorem block {ns ds : List Lexeme} {name : String} {ss : List SourceStmt}
    (hns : BlockName ns name) (hds : Colon ds) (broken : Broken ts) (ih : Accepts ts (.stmts ss)) :
    Accepts (.keyword .block :: ns ++ ds ++ ts ++ [.keyword .end_]) (.stmt (.block name ss)) := by
  intro n s c cs h hc
  have h : s.At n (.keyword .block :: (ns ++ (ds ++ (ts ++ .keyword .end_ :: c :: cs)))) := by
    simpa using h
  have hts := broken.closing closes_end (c :: cs)
  -- a block without a name must not take its first text for one
  have hstring : ∀ t us, ds ++ (ts ++ .keyword .end_ :: c :: cs) ≠ .string t :: us := by
    obtain ⟨l, ls, hl, hclose⟩ := hts
    rw [hl]
    rintro t us heq
    obtain rfl | rfl := hds
    · obtain ⟨rfl, -⟩ := List.cons.inj heq
      exact hclose
    · cases heq
  refine .current ?_
  rw [h.current]
  refine .advance h fun s h _ => ?_
  refine .bind (blockName hns h (by simp) hstring) fun s h _ => ?_
  refine .bind (skipColon hds hts h) fun s h _ => ?_
  refine .bind (ih.statements h rfl).within fun s h _ => ?_
  exact .bind (.expectEnd h) fun s h _ => .refl h

theorem content {ns : List Lexeme} {name : String} (hns : BlockName ns name) :
    Accepts (.keyword .content :: ns) (.stmt (.content name)) := by
  intro n s c cs h hc
  have hstring : ∀ t us, c :: cs ≠ .string t :: us := by
    rintro t us ⟨⟩
    exact hc
  refine .current ?_
  rw [h.current]
  refine .advance h fun s h _ => ?_
  exact .bind (blockName hns h (by simp) hstring) fun s h _ => .refl h

theorem output {escape : Bool} {e : SourceExpr} (ih : Accepts ts (.expr .assignment e)) :
    Accepts (outputMark escape :: ts) (.stmt (.output escape e)) := by
  intro n s c cs h hc
  refine .current ?_
  rw [h.current]
  cases escape with
  | true | false =>
    refine .advance h fun s h _ => ?_
    exact .bind (ih.assignment h hc.not_goesOn).within fun s h _ => .refl h

theorem head {ds ms : List Lexeme} {e : SourceExpr} (ih : Accepts ts (.expr .assignment e))
    (hds : Colon ds) (hms : Closing ms) (h : s.At n (ts ++ (ds ++ ms))) :
    Reaches n (n ≤ ts.length + 1) (levels n).assignment s (pure e) (ds ++ ms) := by
  obtain ⟨m, ms, rfl, hm⟩ := hms
  obtain rfl | rfl := hds
  · exact ih.assignment h hm.not_goesOn
  · exact ih.assignment h (Level.not_goesOn rfl)

theorem branch {ds : List Lexeme} {test : SourceExpr} {yes : List SourceStmt}
    (ihts : Accepts ts (.expr .assignment test)) (hds : Colon ds) (broken : Broken us)
    (ihus : Accepts us (.stmts yes)) :
    Accepts (.keyword .if_ :: ts ++ ds ++ us ++ [.keyword .end_])
      (.stmt (.branch test yes [])) := by
  intro n s c cs h hc
  have h : s.At n (.keyword .if_ :: (ts ++ (ds ++ (us ++ .keyword .end_ :: c :: cs)))) := by
    simpa using h
  have hus := broken.closing closes_end (c :: cs)
  refine .current ?_
  rw [h.current]
  refine .advance h fun s h _ => ?_
  refine .bind (.optional (ihts.head hds hus h).within) fun s h _ => ?_
  refine .bind (skipColon hds hus h) fun s h _ => ?_
  refine .bind (ihus.statements h rfl).within fun s h _ => ?_
  refine .bind (.not_atKeyword h nofun (.refl h)) fun s h _ => ?_
  refine .bind (.expectEnd h) fun s h _ => ?_
  exact .bind (.refl h) fun s h _ => .refl h

theorem elseBranch {ds : List Lexeme} {no : List SourceStmt} (hds : Colon ds) (broken : Broken ts)
    (ih : Accepts ts (.stmts no))
    (h : s.At n (.keyword .else_ :: (ds ++ (ts ++ .keyword .end_ :: cs)))) :
    Reaches n (n ≤ ts.length + 2) (elseBranch (levels n)) s (pure no) (.keyword .end_ :: cs) := by
  have hts := broken.closing closes_end cs
  refine .atKeyword h (.advance h fun s h _ => ?_)
  refine .bind (skipColon hds hts h) fun s h _ => ?_
  exact ih.statements h rfl

theorem branches {ds ds' vs : List Lexeme} {test : SourceExpr} {yes no : List SourceStmt}
    (ihts : Accepts ts (.expr .assignment test)) (hds : Colon ds) (broken : Broken us)
    (ihus : Accepts us (.stmts yes)) (hds' : Colon ds') (broken' : Broken vs)
    (ihvs : Accepts vs (.stmts no)) :
    Accepts (.keyword .if_ :: ts ++ ds ++ us ++ .keyword .else_ :: ds' ++ vs ++ [.keyword .end_])
      (.stmt (.branch test yes no)) := by
  intro n s c cs h hc
  have h : s.At n (.keyword .if_ :: (ts ++ (ds ++ (us ++ .keyword .else_
      :: (ds' ++ (vs ++ .keyword .end_ :: c :: cs)))))) := by
    simpa using h
  have helse : Closes (.keyword .else_) := trivial
  have hus := broken.closing helse (ds' ++ (vs ++ .keyword .end_ :: c :: cs))
  refine .current ?_
  rw [h.current]
  refine .advance h fun s h _ => ?_
  refine .bind (.optional (ihts.head hds hus h).within) fun s h _ => ?_
  refine .bind (skipColon hds hus h) fun s h _ => ?_
  refine .bind (ihus.statements h rfl).within fun s h _ => ?_
  refine .bind (ihvs.elseBranch hds' broken' h).within fun s h _ => ?_
  refine .bind (.expectEnd h) fun s h _ => ?_
  exact .bind (.refl h) fun s h _ => .refl h

theorem loop {ds : List Lexeme} {x : String} {collection : SourceExpr} {ss : List SourceStmt}
    (ihts : Accepts ts (.expr .assignment collection)) (hds : Colon ds) (broken : Broken us)
    (ihus : Accepts us (.stmts ss)) :
    Accepts (.keyword .for_ :: .name x :: .keyword .in_ :: ts ++ ds ++ us ++ [.keyword .end_])
      (.stmt (.loop x collection ss)) := by
  intro n s c cs h hc
  have h : s.At n (.keyword .for_ :: .name x :: .keyword .in_
      :: (ts ++ (ds ++ (us ++ .keyword .end_ :: c :: cs)))) := by
    simpa using h
  have hus := broken.closing closes_end (c :: cs)
  have hhead : ∀ s, s.At n (.name x :: .keyword .in_
      :: (ts ++ (ds ++ (us ++ .keyword .end_ :: c :: cs)))) →
      Reaches n (n ≤ ts.length + 1) (loopHead (levels n)) s (pure (x, collection))
        (ds ++ (us ++ .keyword .end_ :: c :: cs)) := by
    intro s h
    refine .current ?_
    rw [h.current]
    refine .advance h fun s h _ => .atKeyword h ?_
    refine .advance h fun s h _ => ?_
    exact .bind (ihts.head hds hus h) fun s h _ => .refl h
  refine .current ?_
  rw [h.current]
  refine .advance h fun s h _ => ?_
  refine .bind (.optional (hhead s h).within) fun s h _ => ?_
  refine .bind (skipColon hds hus h) fun s h _ => ?_
  refine .bind (ihus.statements h rfl).within fun s h _ => ?_
  refine .bind (.expectEnd h) fun s h _ => ?_
  exact .bind (.refl h) fun s h _ => .refl h

theorem layout {deep : Prop} {ls ms : List Lexeme} (hls : Layout ls)
    (h : s.At n (ls ++ ms)) (hms : ms ≠ []) :
    Reaches n deep (switchArms (levels n)) s (repeatUntil (armPass (levels n)) ⟨[], true⟩) ms := by
  induction ls generalizing s with
  | nil => exact .refl h
  | cons l ls ih =>
    obtain ⟨t, rfl, ht⟩ := hls l List.mem_cons_self
    have hrest : Layout ls := fun l hl => hls l (List.mem_cons_of_mem _ hl)
    have hpass : Reaches n deep (armPass (levels n) ⟨[], true⟩) s (pure (.inl ⟨[], true⟩))
        (ls ++ ms) := by
      refine .current ?_
      rw [h.current]
      dsimp only
      rw [if_pos (by simpa using ht)]
      exact .advance h (fun s h _ => .refl h) (by simp [hms])
    exact (Reaches.next h hpass (by simp)).trans fun s h _ => ih hrest h

theorem ends_arms {vs : List Lexeme} {arms : List (Option SourceExpr × List SourceStmt)}
    (hvs : Derives g vs (.arms arms)) (cs : List Lexeme) :
    ∃ m ms, vs ++ .keyword .end_ :: cs = m :: ms ∧ ∀ b, endsStatements b m = true := by
  cases hvs with
  | noArms => exact ⟨_, _, rfl, fun _ => rfl⟩
  | whenArm => exact ⟨_, _, rfl, fun _ => rfl⟩
  | elseArm => exact ⟨_, _, rfl, fun _ => rfl⟩

theorem closing_layout {ls vs : List Lexeme} {arms : List (Option SourceExpr × List SourceStmt)}
    (hls : Layout ls) (hvs : Derives g vs (.arms arms)) (cs : List Lexeme) :
    Closing (ls ++ (vs ++ .keyword .end_ :: cs)) := by
  cases ls with
  | cons l ls =>
    obtain ⟨t, rfl, -⟩ := hls l List.mem_cons_self
    exact ⟨_, _, rfl, trivial⟩
  | nil =>
    obtain ⟨m, ms, hm, hends⟩ := ends_arms hvs cs
    exact ⟨m, ms, hm, closes_of_endsStatements (hends false)⟩

theorem switch {ds ls : List Lexeme} {subject : SourceExpr}
    {arms : List (Option SourceExpr × List SourceStmt)}
    (ihts : Accepts ts (.expr .assignment subject)) (hds : Colon ds) (hls : Layout ls)
    (hus : Derives g us (.arms arms)) (ihus : Accepts us (.arms arms)) :
    Accepts (.keyword .switch :: ts ++ ds ++ ls ++ us ++ [.keyword .end_])
      (.stmt (.switch subject arms)) := by
  intro n s c cs h hc
  have h : s.At n (.keyword .switch :: (ts ++ (ds ++ (ls ++ (us ++ .keyword .end_
      :: c :: cs))))) := by
    simpa using h
  have hhead := closing_layout hls hus (c :: cs)
  have harms : (arms.reverse ++ []).reverse = arms := by simp
  refine .current ?_
  rw [h.current]
  refine .advance h fun s h _ => ?_
  refine .bind (.optional (ihts.head hds hhead h).within) fun s h _ => ?_
  refine .bind (skipColon hds hhead h) fun s h _ => ?_
  refine .bind ((layout hls h (by simp)).trans fun s h _ =>
    (ihus n s (c :: cs) ⟨[], true⟩ h (by simp) nofun).within) fun s h _ => ?_
  refine .bind (.refl h) fun s h _ => ?_
  change Reaches n _ (pure (Stmt.switch subject (arms.reverse ++ []).reverse)) s _ _
  rw [harms]
  exact .refl h

theorem noStmts : Accepts [] (.stmts []) := by
  intro n s c cs read h hc
  refine .last (.current (.peek ?_))
  rw [h.current, hc, List.append_nil]
  exact .refl h

theorem text {t : String} {ss ss' : List SourceStmt} (ih : Accepts ts (.stmts ss))
    (hss : ss' = if t.isEmpty then ss else .text t :: ss) :
    Accepts (.text t :: ts) (.stmts ss') := by
  intro n s c cs read h hc
  have hpass : Reaches n (n ≤ (Lexeme.text t :: ts).length + 1) (statementPass (levels n) read) s
      (pure (.inl (if t.isEmpty then read else .text t :: read))) (ts ++ c :: cs) := by
    refine .current (.peek ?_)
    rw [h.current]
    exact .advance h fun s h _ => .refl h
  have hread : (if t.isEmpty then read else .text t :: read).reverse ++ ss =
      read.reverse ++ ss' := by
    rw [hss]
    split <;> simp
  refine (Reaches.next h hpass (by simp)).trans fun s h hb => ?_
  rw [← hread]
  exact (ih n s c cs _ h (hb ▸ hc)).within

theorem moreStmts {st : SourceStmt} {ss : List SourceStmt} (hts : Derives g ts (.stmt st))
    (ihts : Accepts ts (.stmt st)) (ihus : Accepts us (.stmts ss)) (broken : Broken us) :
    Accepts (ts ++ us) (.stmts (st :: ss)) := by
  intro n s c cs read h hc
  have hopens := hts.opens
  obtain ⟨l, ls, rfl, hl⟩ := hopens
  obtain ⟨m, ms, hm, hclose⟩ := broken.closing (closes_of_endsStatements hc) cs
  have h : s.At n (l :: (ls ++ (us ++ c :: cs))) := by simpa using h
  -- what begins a statement does not end the list, and the text after it ends the statement
  have hends : endsStatements (0 < s.braces) l = false := by
    cases he : endsStatements (0 < s.braces) l with
    | false => rfl
    | true => exact absurd (closes_of_endsStatements he) hl
  have hpass : Reaches n (n ≤ (l :: ls).length + 1) (statementPass (levels n) read) s
      (pure (.inl (st :: read))) (us ++ c :: cs) := by
    refine .current (.peek ?_)
    rw [h.current, hends]
    have hst := ihts n s m ms (hm ▸ h) hclose
    rw [← hm] at hst
    cases l with
    | text t => exact absurd trivial hl
    | _ => exact .bind (.optional hst) fun s h _ => .refl h
  refine (Reaches.next h hpass).within.trans fun s h hb => ?_
  have hrest := ihus n s c cs (st :: read) h (hb ▸ hc)
  rw [List.reverse_cons, List.append_assoc] at hrest
  exact hrest.within

theorem noArms : Accepts [] (.arms []) := by
  intro n s cs read h hcs _
  refine .last (.current ?_)
  rw [h.current]
  exact .advance h (fun s h _ => .refl h) hcs

theorem moreArms {read : Arms} {arm : Option SourceExpr × List SourceStmt}
    {arms : List (Option SourceExpr × List SourceStmt)}
    (h : s.At n (ts ++ us ++ .keyword .end_ :: cs)) (hts : ts ≠ [])
    (hpass : Reaches n (n ≤ (ts ++ us).length + 1) (armPass (levels n) read) s
      (pure (.inl { read with arms := arm :: read.arms })) (us ++ .keyword .end_ :: cs))
    (ih : Accepts us (.arms arms)) (hcs : cs ≠ [])
    (honce : Arms.hasElse { read with arms := arm :: read.arms } = true →
      ∀ arm ∈ arms, arm.1.isSome) :
    Reaches n (n ≤ (ts ++ us).length + 1) (repeatUntil (armPass (levels n)) read) s
      (pure { read with arms := (arm :: arms).reverse ++ read.arms }) cs := by
  have hlen : (us ++ .keyword .end_ :: cs).length < (ts ++ us ++ .keyword .end_ :: cs).length := by
    have hpos := List.length_pos_iff.2 hts
    simp only [List.length_append]
    omega
  refine (Reaches.next h hpass hlen).trans fun s h _ => ?_
  have hrest := ih n s cs { read with arms := arm :: read.arms } h hcs honce
  rw [List.reverse_cons, List.append_assoc]
  exact hrest.within

theorem whenArm {ds vs : List Lexeme} {value : SourceExpr} {ss : List SourceStmt}
    {arms : List (Option SourceExpr × List SourceStmt)}
    (ihts : Accepts ts (.expr .assignment value)) (hds : Colon ds) (broken : Broken us)
    (ihus : Accepts us (.stmts ss)) (hvs : Derives g vs (.arms arms))
    (ihvs : Accepts vs (.arms arms)) :
    Accepts (.keyword .when_ :: ts ++ ds ++ us ++ vs) (.arms ((some value, ss) :: arms)) := by
  intro n s cs read h hcs honce
  have hsame : Arms.hasElse { read with arms := (some value, ss) :: read.arms } = read.hasElse :=
    rfl
  refine moreArms h (by simp) ?_ ihvs hcs fun he arm harm =>
    honce (hsame ▸ he) arm (List.mem_cons_of_mem _ harm)
  obtain ⟨m, ms, hm, hends⟩ := ends_arms hvs cs
  have hus := broken.closing (closes_of_endsStatements (hends false)) ms
  have h : s.At n (.keyword .when_ :: (ts ++ (ds ++ (us ++ m :: ms)))) := by
    rw [← hm]
    simpa using h
  rw [hm]
  refine .current ?_
  rw [h.current]
  refine .bind (.advance h fun s h _ => ?_) fun s h _ => .refl h
  refine .bind (.optional (ihts.head hds hus h).within) fun s h _ => ?_
  refine .bind (skipColon hds hus h) fun s h _ => ?_
  exact .bind (ihus.statements h (hends _)).within fun s h _ => .refl h

theorem elseArm {ds vs : List Lexeme} {ss : List SourceStmt}
    {arms : List (Option SourceExpr × List SourceStmt)} (hds : Colon ds) (broken : Broken us)
    (ihus : Accepts us (.stmts ss)) (hvs : Derives g vs (.arms arms))
    (ihvs : Accepts vs (.arms arms)) (once : ∀ arm ∈ arms, arm.1.isSome) :
    Accepts (.keyword .else_ :: ds ++ us ++ vs) (.arms ((none, ss) :: arms)) := by
  intro n s cs read h hcs honce
  have hfirst : read.hasElse = false := by
    cases he : read.hasElse with
    | false => rfl
    | true => exact absurd (honce he _ List.mem_cons_self) (by simp)
  refine moreArms h (by simp) ?_ ihvs hcs fun _ => once
  obtain ⟨m, ms, hm, hends⟩ := ends_arms hvs cs
  have hus := broken.closing (closes_of_endsStatements (hends false)) ms
  have h : s.At n (.keyword .else_ :: (ds ++ (us ++ m :: ms))) := by
    rw [← hm]
    simpa using h
  rw [hm]
  refine .current ?_
  rw [h.current]
  dsimp only [Grammar.elseArm]
  rw [hfirst]
  refine .bind (.advance h fun s h _ => ?_) fun s h _ => .refl h
  refine .bind (skipColon hds hus h) fun s h _ => ?_
  exact .bind (ihus.statements h (hends _)).within fun s h _ => .refl h

end Accepts

theorem accepts_of_derives {ts : List Lexeme} {p : Phrase} (h : Derives .unambiguous ts p) :
    Accepts ts p := by
  induction h with
  | constant hl => exact .constant hl
  | var => exact .var
  | selfMember hl => exact .selfMember hl
  | parens hts ihts => exact .parens hts ihts
  | sequence hts ihts => exact .sequence hts ihts
  | array hts ihts => exact .array hts ihts
  | map hts ihts => exact .map hts ihts
  | lambda hps _ _ broken ihps ihts => exact .lambda hps ihps (broken rfl) ihts
  | bracedLambda hps _ _ ihps ihts => exact .bracedLambda hps ihps ihts
  | call _ hus ihts ihus => exact .call ihts hus ihus
  | member _ hl ihts => exact .member ihts hl
  | updated hts ihts => exact .updated hts ihts
  | update hts ihts => exact .update hts ihts
  | unary _ ihts => exact .unaryOp ihts
  | operator op _ _ ihts ihus => exact .operator op ihts ihus
  | conditional _ _ _ ihts ihus ihvs => exact .conditional ihts ihus ihvs
  | assign hts _ ihts ihus => exact .assign hts ihts ihus
  | tighter hts ihts => exact .tighter hts ihts
  | noExprs => exact fun h => absurd rfl h
  | oneExpr _ ihts => exact .oneExpr ihts
  | moreExprs _ _ ihts ihus => exact .moreExprs ihts ihus
  | noEntries => exact fun h => absurd rfl h
  | oneEntry hl _ ihts => exact .oneEntry hl ihts
  | moreEntries hl _ _ ihts ihus => exact .moreEntries hl ihts ihus
  | extend => exact .extend
  | includeAlone => exact .includeAlone
  | includeWith _ ihts => exact .includeWith ihts
  | block hns hc _ broken ihts => exact .block hns hc (broken rfl) ihts
  | content hns => exact .content hns
  | output _ ihts => exact .output ihts
  | branch _ hc _ broken ihts ihus => exact .branch ihts hc (broken rfl) ihus
  | branches _ hc _ broken hc' _ broken' ihts ihus ihvs =>
    exact .branches ihts hc (broken rfl) ihus hc' (broken' rfl) ihvs
  | loop _ hc _ broken ihts ihus => exact .loop ihts hc (broken rfl) ihus
  | switch _ hc hls hus ihts ihus => exact .switch ihts hc hls hus ihus
  | expr hts ihts => exact .exprStmt hts ihts
  | noStmts => exact .noStmts
  | emptyText _ ih => exact .text ih rfl
  | text ht _ ih => exact .text ih (by simp [ht])
  | moreStmts hts _ broken ihts ihus => exact .moreStmts hts ihts ihus (broken rfl)
  | noArms => exact .noArms
  | whenArm _ hc _ broken hvs ihts ihus ihvs =>
    exact .whenArm ihts hc (broken rfl) ihus hvs ihvs
  | elseArm hc _ broken hvs once ihus ihvs =>
    exact .elseArm hc (broken rfl) ihus hvs ihvs once

theorem read_of_derives {tokens : List Token} {ts : List Lexeme} {tree : List SourceStmt}
    (hts : tokens.map Token.lexeme = ts ++ [.endOfInput])
    (h : Derives .unambiguous ts (.stmts tree)) :
    read tokens = .ok tree ∨
      maxNesting ≤ ts.length + 2 ∧
        ∃ position, read tokens = .error [⟨position, .tooDeep⟩] := by
  have hstart : (State.ofTokens tokens).At maxNesting (ts ++ .endOfInput :: []) := by
    cases tokens with
    | nil => simp at hts
    | cons t tokens => exact ⟨hts, rfl, Nat.le_of_eq (Nat.zero_add _)⟩
  have hlast : Reaches maxNesting (maxNesting ≤ ts.length + 2) (templatePass [])
      (.ofTokens tokens) (pure (.inr tree)) [.endOfInput] := by
    refine .bind ((accepts_of_derives h).statements hstart rfl) fun s h _ => .current ?_
    rw [h.current]
    exact .refl h
  obtain ⟨s, -, hs, hrun⟩ | ⟨hdeep, -, position, hp⟩ := Reaches.last hlast
  · left
    unfold read template
    rw [hrun]
    exact if_pos (by simp [hs.problems])
  · refine .inr ⟨hdeep, position, ?_⟩
    unfold read template
    split <;> rename_i hrun <;> rw [hrun] at hp <;> dsimp only at hp <;> rw [hp]
    exact if_neg nofun

end TextTemplate.Grammar
