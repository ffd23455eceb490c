import TextTemplate.Grammar.Statement
import TextTemplate.Proofs.Grammar.Derivation
import TextTemplate.Proofs.Grammar.Reaching

/-! Which lexemes the readers of expressions go on over. What the rules that leave no choice derive
is accepted: its reader finds it, unless the limit on nesting stops it, which takes many lexemes. An
expression is followed over each lexeme that can go on with an expression of its level, so that
lexeme must not come after it. -/

namespace TextTemplate.Grammar

def joins? : Symbol → Option Level
  | .arrow => some .primary
  | .lparen | .dot | .questionDot => some .call
  | .inc | .dec => some .postfixed
  | .mul | .div | .mod => some .multiplicative
  | .add | .sub => some .additive
  | .lt | .le | .gt | .ge => some .relational
  | .eq | .ne => some .equality
  | .and | .or | .doubleQuestion => some .logical
  | .question | .assign | .addAssign | .subAssign | .mulAssign | .divAssign | .modAssign =>
    some .conditional
  | _ => none

theorem joins?_symbol (op : Operator) : joins? op.symbol = some op.level := by
  cases op with
  | logical op => cases op <;> rfl
  | binary op =>
    cases op with
    | arithmetic op => cases op <;> rfl
    | comparison op => cases op <;> rfl
    | eq => rfl
    | ne => rfl

namespace Level

def GoesOn (level : Level) (l : Lexeme) : Prop :=
  ∃ x tight, l = .symbol x ∧ joins? x = some tight ∧ level.rank ≤ tight.rank

theorem GoesOn.loosen {level level' : Level} {l : Lexeme} (h : level.GoesOn l)
    (hl : level'.rank ≤ level.rank) : level'.GoesOn l := by
  obtain ⟨x, tight, rfl, hx, hle⟩ := h
  exact ⟨x, tight, rfl, hx, Nat.le_trans hl hle⟩

theorem goesOn_symbol {level : Level} {x : Symbol} :
    level.GoesOn (.symbol x) ↔ ∃ tight, joins? x = some tight ∧ level.rank ≤ tight.rank := by
  constructor
  · rintro ⟨_, tight, ⟨⟩, h⟩
    exact ⟨tight, h⟩
  · rintro ⟨tight, h⟩
    exact ⟨x, tight, rfl, h⟩

theorem not_goesOn {level : Level} {x : Symbol}
    (h : ((joins? x).all fun tight => tight.rank < level.rank) = true) :
    ¬ level.GoesOn (.symbol x) := by
  rintro ⟨_, tight, ⟨⟩, hx, hle⟩
  have hlt : tight.rank < level.rank := by simpa [hx] using h
  omega

theorem conditional_goesOn {l : Lexeme} (h : assignment.GoesOn l) : conditional.GoesOn l := by
  obtain ⟨x, tight, rfl, hx, -⟩ := h
  refine ⟨x, tight, rfl, hx, ?_⟩
  cases x <;> cases hx <;> decide

theorem rank_le_tighter (level : Level) : level.rank ≤ level.tighter.rank := by
  cases level <;> decide

def reader (deeper : Deeper) : Level → Reader SourceExpr
  | assignment => Grammar.assignment deeper
  | conditional => Grammar.conditional deeper
  | logical => Grammar.logical deeper
  | equality => Grammar.equality deeper
  | relational => comparison deeper
  | additive => Grammar.additive deeper
  | multiplicative => Grammar.multiplicative deeper
  | unary => Grammar.unary deeper
  | postfixed => Grammar.postfixed deeper
  | call => callMember deeper
  | primary => Grammar.primary deeper

def resume (deeper : Deeper) (level : Level) (e : SourceExpr) : Reader SourceExpr :=
  match level with
  | logical | equality | relational | additive | multiplicative =>
    repeatUntil (operatorPass (level.tighter.reader deeper) level.operator?) e
  | call => repeatUntil (callPass deeper) e
  | _ => pure e

/-- A lexeme after an expression of a level at which its reader looks for more of it. -/
def Stops (level : Level) (l : Lexeme) : Prop :=
  match level with
  | logical | equality | relational | additive | multiplicative | call => ¬ level.tighter.GoesOn l
  | _ => ¬ level.GoesOn l

theorem Stops.of_not_goesOn {level : Level} {l : Lexeme} (h : ¬ level.GoesOn l) :
    level.Stops l := by
  have h' : ¬ level.tighter.GoesOn l := fun hl => h (hl.loosen level.rank_le_tighter)
  cases level <;> assumption

theorem operator?_eq_none {level : Level} {l : Lexeme} (h : ¬ level.GoesOn l) :
    level.operator? l = none := by
  cases hl : level.operator? l with
  | none => rfl
  | some combine =>
    obtain ⟨op, rfl, rfl, -⟩ := exists_operator hl
    exact absurd ⟨_, _, rfl, joins?_symbol op, Nat.le_refl _⟩ h

end Level

def Opens (level : Level) : Lexeme → Prop
  | .keyword .null | .keyword .true_ | .keyword .false_ | .string _ | .number _ | .name _
  | .symbol .at | .symbol .lparen | .symbol .lbracket | .symbol .lbrace => True
  | .symbol .add | .symbol .sub | .symbol .not | .symbol .inc | .symbol .dec =>
    level.rank ≤ Level.unary.rank
  | _ => False

theorem Opens.loosen {level level' : Level} {l : Lexeme} (h : Opens level l)
    (hl : level'.rank ≤ level.rank) : Opens level' l := by
  unfold Opens at h ⊢
  split at h
  case h_16 => exact h.elim
  all_goals first | trivial | exact Nat.le_trans hl h

def Closes : Lexeme → Prop
  | .text _ | .endOfInput | .keyword .else_ | .keyword .end_ | .keyword .in_ | .keyword .when_
  | .symbol .rbrace => True
  | _ => False

theorem Closes.not_goesOn {level : Level} {l : Lexeme} (h : Closes l) : ¬ level.GoesOn l := by
  rintro ⟨x, tight, rfl, hx, -⟩
  cases x <;> first | exact h | cases hx

theorem Opens.not_closes {level : Level} {l : Lexeme} (h : Opens level l) : ¬ Closes l := by
  unfold Closes
  split <;> first | exact fun _ => h | exact id

theorem closes_of_endsStatements {inBraces : Bool} {l : Lexeme}
    (h : endsStatements inBraces l = true) : Closes l := by
  unfold endsStatements at h
  split at h <;> trivial

theorem closes_end : Closes (.keyword .end_) := trivial

def Closing (ls : List Lexeme) : Prop :=
  ∃ l ls', ls = l :: ls' ∧ Closes l

theorem Broken.closing {ts : List Lexeme} {c : Lexeme} (broken : Broken ts) (hc : Closes c)
    (cs : List Lexeme) : Closing (ts ++ c :: cs) := by
  cases ts with
  | nil => exact ⟨c, cs, rfl, hc⟩
  | cons l ts =>
    cases l with
    | text t => exact ⟨_, _, rfl, trivial⟩
    | _ => exact broken.elim

theorem Derives.opens {g : Rules} {ts : List Lexeme} {p : Phrase} (h : Derives g ts p) :
    match p with
    | .expr level _ => ∃ l us, ts = l :: us ∧ Opens level l
    | .exprs (_ :: _) => ∃ l us, ts = l :: us ∧ Opens .assignment l
    | .entries (_ :: _) => ∃ l us key, ts = l :: us ∧ key? l = some key
    | .stmt _ => ∃ l us, ts = l :: us ∧ ¬ Closes l
    | .arms (_ :: _) => ∃ l us, ts = l :: us ∧ Closes l
    | _ => True := by
  induction h with
  | constant h =>
    refine ⟨_, [], rfl, ?_⟩
    unfold constant? at h
    split at h <;> trivial
  | var | selfMember | parens | sequence | array | map | lambda | bracedLambda =>
    exact ⟨_, _, rfl, trivial⟩
  | call _ _ ih | member _ _ ih | updated _ ih =>
    obtain ⟨l, us, rfl, hl⟩ := ih
    exact ⟨l, _, rfl, hl.loosen (by decide)⟩
  | operator _ _ _ ih =>
    obtain ⟨l, us, rfl, hl⟩ := ih
    exact ⟨l, _, rfl, hl⟩
  | conditional _ _ _ ih | assign _ _ ih =>
    obtain ⟨l, us, rfl, hl⟩ := ih
    exact ⟨l, _, rfl, hl.loosen (by decide)⟩
  | @update _ _ op | @unary _ op =>
    exact ⟨_, _, rfl, by cases op <;> exact Nat.le_refl Level.unary.rank⟩
  | tighter _ ih =>
    obtain ⟨l, us, rfl, hl⟩ := ih
    exact ⟨l, us, rfl, hl.loosen (Level.rank_le_tighter _)⟩
  | oneExpr _ ih => exact ih
  | moreExprs _ _ ih =>
    obtain ⟨l, us, rfl, hl⟩ := ih
    exact ⟨l, _, rfl, hl⟩
  | oneEntry hl | moreEntries hl => exact ⟨_, _, _, rfl, hl⟩
  | expr _ ih =>
    obtain ⟨l, us, rfl, hl⟩ := ih
    exact ⟨l, us, rfl, hl.not_closes⟩
  | extend | includeAlone | includeWith | block | content | branch | branches | loop | switch =>
    exact ⟨_, _, rfl, id⟩
  | @output _ escape => exact ⟨_, _, rfl, by cases escape <;> exact id⟩
  | whenArm | elseArm => exact ⟨_, _, rfl, trivial⟩
  | _ => trivial

/-- With any number of levels left, the reader of a phrase finds it in the lexemes that spell it,
or it gives up, which it does only if the levels are no more than the lexemes. -/
def Accepts (ts : List Lexeme) : Phrase → Prop
  | .expr level e => ∀ n s c cs, State.At s n (ts ++ c :: cs) → level.Stops c →
    Reaches n (n ≤ ts.length) (level.reader (levels n)) s (level.resume (levels n) e) (c :: cs)
  | .exprs es => es ≠ [] → ∀ n s closing what cs read, State.At s n (ts ++ .symbol closing :: cs) →
    cs ≠ [] → closing = .rparen ∨ closing = .rbracket →
    Reaches n (n ≤ ts.length + 1) (repeatUntil (itemPass (levels n).assignment closing what) read) s
      (pure (read.reverse ++ es)) cs
  | .entries es => es ≠ [] → ∀ n s cs read, State.At s n (ts ++ .symbol .rbrace :: cs) → cs ≠ [] →
    Reaches n (n ≤ ts.length + 1)
      (repeatUntil (itemPass (mapEntry (levels n)) .rbrace .entryEnd) read) s
      (pure (read.reverse ++ es)) cs
  | .stmt st => ∀ n s c cs, State.At s n (ts ++ c :: cs) → Closes c →
    Reaches n (n ≤ ts.length + 1) (statement (levels n)) s (pure st) (c :: cs)
  | .stmts ss => ∀ n s c cs read, State.At s n (ts ++ c :: cs) →
    endsStatements (0 < s.braces) c = true →
    Reaches n (n ≤ ts.length + 1) (repeatUntil (statementPass (levels n)) read) s
      (pure (read.reverse ++ ss)) (c :: cs)
  | .arms arms => ∀ n s cs read, State.At s n (ts ++ .keyword .end_ :: cs) → cs ≠ [] →
    (read.hasElse = true → ∀ arm ∈ arms, arm.1.isSome) →
    Reaches n (n ≤ ts.length + 1) (repeatUntil (armPass (levels n)) read) s
      (pure { read with arms := arms.reverse ++ read.arms }) cs

namespace Accepts

variable {ts us : List Lexeme} {n : Nat} {s : State} {c : Lexeme} {cs : List Lexeme}

theorem resume {deep : Prop} {level : Level} {e : SourceExpr} (h : s.At n (c :: cs))
    (hc : ¬ level.GoesOn c) :
    Reaches n deep (level.resume (levels n) e) s (pure e) (c :: cs) := by
  have hop := Level.operator?_eq_none hc
  have hloop : Reaches n deep
      (repeatUntil (operatorPass (level.tighter.reader (levels n)) level.operator?) e) s (pure e)
      (c :: cs) := by
    refine .last (.current ?_)
    rw [h.current, hop]
    exact .refl h
  cases level with
  | logical | equality | relational | additive | multiplicative => exact hloop
  | call =>
    refine .last (.current ?_)
    rw [h.current]
    split
    · exact absurd (Level.goesOn_symbol.2 ⟨.call, rfl, Nat.le_refl _⟩) hc
    · exact absurd (Level.goesOn_symbol.2 ⟨.call, rfl, Nat.le_refl _⟩) hc
    · exact absurd (Level.goesOn_symbol.2 ⟨.call, rfl, Nat.le_refl _⟩) hc
    · exact .refl h
  | _ => exact .refl h

theorem expr {level : Level} {e : SourceExpr} (ih : Accepts ts (.expr level e))
    (h : s.At n (ts ++ c :: cs)) (hc : ¬ level.GoesOn c) :
    Reaches n (n ≤ ts.length) (level.reader (levels n)) s (pure e) (c :: cs) :=
  (ih n s c cs h (.of_not_goesOn hc)).trans fun _ h' _ => resume h' hc

theorem assignment {e : SourceExpr} (ih : Accepts ts (.expr .assignment e))
    (h : s.At n (ts ++ c :: cs)) (hc : ¬ Level.assignment.GoesOn c) :
    Reaches n (n ≤ ts.length + 1) (levels n).assignment s (pure e) (c :: cs) := by
  cases n with
  | zero => exact .giveUp h (Nat.zero_le _)
  | succ n =>
    change Reaches _ _ (nested (Level.assignment.reader (levels n))) _ _ _
    exact .nested h fun _ h' _ => (ih.expr h' hc).mono Nat.succ_le_succ

theorem unary {e : SourceExpr} (ih : Accepts ts (.expr .unary e))
    (h : s.At n (ts ++ c :: cs)) (hc : ¬ Level.unary.GoesOn c) :
    Reaches n (n ≤ ts.length + 1) (levels n).unary s (pure e) (c :: cs) := by
  cases n with
  | zero => exact .giveUp h (Nat.zero_le _)
  | succ n =>
    change Reaches _ _ (nested (Level.unary.reader (levels n))) _ _ _
    exact .nested h fun _ h' _ => (ih.expr h' hc).mono Nat.succ_le_succ

theorem statements {ss : List SourceStmt} (ih : Accepts ts (.stmts ss))
    (h : s.At n (ts ++ c :: cs)) (hc : endsStatements (0 < s.braces) c = true) :
    Reaches n (n ≤ ts.length + 2) (levels n).statements s (pure ss) (c :: cs) := by
  cases n with
  | zero => exact .optional_giveUp h (Nat.zero_le _)
  | succ n =>
    refine .bind (.optional (.nested h fun s' h' hb => ?_)) fun _ h' _ => .refl h'
    exact (ih n s' c cs [] h' (hb ▸ hc)).mono Nat.succ_le_succ

theorem separated {g : Rules} {es : List SourceExpr} {closing : Symbol} {what : Expected}
    (hd : Derives g ts (.exprs es)) (ih : Accepts ts (.exprs es))
    (h : s.At n (ts ++ .symbol closing :: cs)) (hcs : cs ≠ [])
    (hclosing : closing = .rparen ∨ closing = .rbracket) :
    Reaches n (n ≤ ts.length + 1) (separated (levels n).assignment closing what) s (pure es)
      cs := by
  cases es with
  | nil =>
    cases hd
    exact .atSymbol h (.advance h (fun _ h' _ => .refl h') hcs)
  | cons e es =>
    obtain ⟨l, us, rfl, hl⟩ := hd.opens
    refine .not_atSymbol h ?_ (ih nofun n s closing what cs [] h hcs hclosing)
    rintro rfl
    rcases hclosing with rfl | rfl <;> exact hl

theorem oneExpr {e : SourceExpr} (ih : Accepts ts (.expr .assignment e)) :
    Accepts ts (.exprs [e]) := by
  intro _ n s closing what cs read h hcs hclosing
  have hc : ¬ Level.assignment.GoesOn (.symbol closing) := by
    rcases hclosing with rfl | rfl <;> exact Level.not_goesOn rfl
  refine .lastItem (ih.assignment h hc) hcs ?_
  rcases hclosing with rfl | rfl <;> nofun

theorem moreExprs {e e' : SourceExpr} {es : List SourceExpr}
    (ihts : Accepts ts (.expr .assignment e)) (ihus : Accepts us (.exprs (e' :: es))) :
    Accepts (ts ++ .symbol .comma :: us) (.exprs (e :: e' :: es)) := by
  intro _ n s closing what cs read h hcs hclosing
  have h : s.At n (ts ++ .symbol .comma :: (us ++ .symbol closing :: cs)) := by simpa using h
  have hitem := ihts.assignment h (Level.not_goesOn rfl)
  have hrest := fun s h => ihus nofun n s closing what cs (e :: read) h hcs hclosing
  rw [List.reverse_cons, List.append_assoc] at hrest
  exact (Reaches.nextItem h hitem.within).trans fun s h _ => (hrest s h).within

theorem mapEntry {l : Lexeme} {key : String} {e : SourceExpr} (hl : key? l = some key)
    (ih : Accepts ts (.expr .assignment e)) (h : s.At n (l :: .symbol .colon :: ts ++ c :: cs))
    (hc : ¬ Level.assignment.GoesOn c) :
    Reaches n (n ≤ ts.length + 1) (mapEntry (levels n)) s (pure (key, e)) (c :: cs) := by
  have hcolon : (s.upcoming.head?.any fun t => t.lexeme == .symbol .colon) = true := by
    have hu := h.upcoming
    cases hs : s.upcoming with
    | nil => simp [hs] at hu
    | cons t ts =>
      rw [hs] at hu
      simpa using (List.cons.inj hu).1
  refine .current ?_
  rw [h.current, hl]
  refine .peek ?_
  rw [hcolon]
  refine .advance h fun s h _ => ?_
  refine .advance h fun s h _ => ?_
  exact .bind (ih.assignment h hc) fun s h _ => .refl h

theorem oneEntry {l : Lexeme} {key : String} {e : SourceExpr} (hl : key? l = some key)
    (ih : Accepts ts (.expr .assignment e)) :
    Accepts (l :: .symbol .colon :: ts) (.entries [(key, e)]) := by
  intro _ n s cs read h hcs
  exact .lastItem (ih.mapEntry hl h (Level.not_goesOn rfl)).within hcs nofun

theorem moreEntries {l : Lexeme} {key : String} {e : SourceExpr} {entry : String × SourceExpr}
    {es : List (String × SourceExpr)} (hl : key? l = some key)
    (ihts : Accepts ts (.expr .assignment e)) (ihus : Accepts us (.entries (entry :: es))) :
    Accepts (l :: .symbol .colon :: ts ++ .symbol .comma :: us)
      (.entries ((key, e) :: entry :: es)) := by
  intro _ n s cs read h hcs
  have h : s.At n (l :: .symbol .colon :: ts
      ++ .symbol .comma :: (us ++ .symbol .rbrace :: cs)) := by simpa using h
  have hitem := ihts.mapEntry hl h (Level.not_goesOn rfl)
  have hrest := fun s h => ihus nofun n s cs ((key, e) :: read) h hcs
  rw [List.reverse_cons, List.append_assoc] at hrest
  exact (Reaches.nextItem h hitem.within).trans fun s h _ => (hrest s h).within

theorem constant {l : Lexeme} {value : Literal} (hl : constant? l = some value) :
    Accepts [l] (.expr .primary (.literal value)) := by
  intro n s c cs h _
  refine .current ?_
  rw [h.current]
  unfold constant? at hl
  split at hl <;> cases hl <;> exact .advance h fun _ h _ => .refl h

theorem var {x : String} : Accepts [.name x] (.expr .primary (.var x)) := by
  intro n s c cs h _
  refine .current ?_
  rw [h.current]
  exact .advance h fun _ h _ => .refl h

theorem selfMember {l : Lexeme} {name : String} (hl : l.word? = some name) :
    Accepts [.symbol .at, l] (.expr .primary (.selfMember name)) := by
  intro n s c cs h _
  refine .current ?_
  rw [h.current]
  refine .advance h fun s h _ => ?_
  exact .bind (.memberName h hl) fun s h _ => .refl h

theorem ne_arrow (hc : ¬ Level.primary.GoesOn c) : c ≠ .symbol .arrow := by
  rintro rfl
  exact hc (Level.goesOn_symbol.2 ⟨.primary, rfl, Nat.le_refl _⟩)

variable {g : Rules}

theorem parens {e : SourceExpr} (hd : Derives g ts (.expr .assignment e))
    (ih : Accepts ts (.expr .assignment e)) :
    Accepts (.symbol .lparen :: ts ++ [.symbol .rparen]) (.expr .primary e) := by
  intro n s c cs h hc
  have h : s.At n (.symbol .lparen :: ts ++ .symbol .rparen :: c :: cs) := by simpa using h
  refine .current ?_
  rw [h.current]
  refine .advance h fun s h _ => ?_
  refine .bind (separated hd.oneExpr ih.oneExpr h (by simp) (.inl rfl)).within fun s h _ => ?_
  exact .not_atSymbol h (ne_arrow hc) (.refl h)

theorem sequence {e e' : SourceExpr} {es : List SourceExpr}
    (hd : Derives g ts (.exprs (e :: e' :: es))) (ih : Accepts ts (.exprs (e :: e' :: es))) :
    Accepts (.symbol .lparen :: ts ++ [.symbol .rparen])
      (.expr .primary (.sequence (e :: e' :: es))) := by
  intro n s c cs h hc
  have h : s.At n (.symbol .lparen :: ts ++ .symbol .rparen :: c :: cs) := by simpa using h
  refine .current ?_
  rw [h.current]
  refine .advance h fun s h _ => ?_
  refine .bind (separated hd ih h (by simp) (.inl rfl)).within fun s h _ => ?_
  exact .not_atSymbol h (ne_arrow hc) (.refl h)

theorem array {es : List SourceExpr} (hd : Derives g ts (.exprs es)) (ih : Accepts ts (.exprs es)) :
    Accepts (.symbol .lbracket :: ts ++ [.symbol .rbracket]) (.expr .primary (.array es)) := by
  intro n s c cs h _
  have h : s.At n (.symbol .lbracket :: ts ++ .symbol .rbracket :: c :: cs) := by simpa using h
  refine .current ?_
  rw [h.current]
  refine .advance h fun s h _ => ?_
  exact .bind (separated hd ih h (by simp) (.inr rfl)).within fun s h _ => .refl h

theorem separatedEntries {es : List (String × SourceExpr)} (hd : Derives g ts (.entries es))
    (ih : Accepts ts (.entries es)) (h : s.At n (ts ++ .symbol .rbrace :: cs)) (hcs : cs ≠ []) :
    Reaches n (n ≤ ts.length + 1)
      (Grammar.separated (Grammar.mapEntry (levels n)) .rbrace .entryEnd) s (pure es) cs := by
  cases es with
  | nil =>
    cases hd
    exact .atSymbol h (.advance h (fun s h _ => .refl h) hcs)
  | cons entry es =>
    obtain ⟨l, us, key, rfl, hl⟩ := hd.opens
    refine .not_atSymbol h ?_ (ih nofun n s cs [] h hcs)
    rintro rfl
    cases hl

theorem map {es : List (String × SourceExpr)} (hd : Derives g ts (.entries es))
    (ih : Accepts ts (.entries es)) :
    Accepts (.symbol .lbrace :: ts ++ [.symbol .rbrace]) (.expr .primary (.map es)) := by
  intro n s c cs h _
  have h : s.At n (.symbol .lbrace :: ts ++ .symbol .rbrace :: c :: cs) := by simpa using h
  refine .current ?_
  rw [h.current]
  refine .advance h fun s h _ => ?_
  exact .bind (separatedEntries hd ih h (by simp)).within fun s h _ => .refl h

theorem parameters?_map (xs : List String) : parameters? (xs.map .var) = some xs := by
  induction xs with
  | nil => rfl
  | cons x xs ih => simp [parameters?, ih]

theorem lambda {ps : List Lexeme} {xs : List String} {body : List SourceStmt}
    (hps : Derives g ps (.exprs (xs.map .var))) (ihps : Accepts ps (.exprs (xs.map .var)))
    (broken : Broken ts) (ihts : Accepts ts (.stmts body)) :
    Accepts (.symbol .lparen :: ps ++ .symbol .rparen :: .symbol .arrow :: ts ++ [.keyword .end_])
      (.expr .primary (.lambda () xs body)) := by
  intro n s c cs h _
  have h : s.At n (.symbol .lparen :: ps ++ .symbol .rparen :: .symbol .arrow
      :: (ts ++ .keyword .end_ :: c :: cs)) := by simpa using h
  refine .current ?_
  rw [h.current]
  refine .advance h fun s h _ => ?_
  refine .bind (separated hps ihps h (by simp) (.inl rfl)).within fun s h _ => .atSymbol h ?_
  rw [parameters?_map]
  refine .advance h fun s h _ => .bind (a := body) ?_ fun s h _ => .refl h
  -- the body begins with a text or ends at once, so it is not taken for one in braces
  obtain ⟨l, ls, hl, hclose⟩ := broken.closing closes_end (c :: cs)
  have hne : l ≠ .symbol .lbrace := by
    rintro rfl
    exact hclose
  refine .not_atSymbol (hl ▸ h) hne ?_
  refine .bind (ihts.statements h rfl).within fun s h _ => ?_
  exact .bind (.expectEnd h) fun s h _ => .refl h

theorem bracedLambda {ps : List Lexeme} {xs : List String} {body : List SourceStmt}
    (hps : Derives g ps (.exprs (xs.map .var))) (ihps : Accepts ps (.exprs (xs.map .var)))
    (ihts : Accepts ts (.stmts body)) :
    Accepts (.symbol .lparen :: ps ++ .symbol .rparen :: .symbol .arrow :: .symbol .lbrace :: ts
      ++ [.symbol .rbrace]) (.expr .primary (.lambda () xs body)) := by
  intro n s c cs h _
  have h : s.At n (.symbol .lparen :: ps ++ .symbol .rparen :: .symbol .arrow :: .symbol .lbrace
      :: (ts ++ .symbol .rbrace :: c :: cs)) := by simpa using h
  refine .current ?_
  rw [h.current]
  refine .advance h fun s h _ => ?_
  refine .bind (separated hps ihps h (by simp) (.inl rfl)).within fun s h _ => .atSymbol h ?_
  rw [parameters?_map]
  refine .advance h fun s h _ => .bind (a := body) (.atSymbol h ?_) fun s h _ => .refl h
  refine .advance h fun s h _ => ?_
  have hbody : Reaches n (n ≤ ts.length + 2) (inBraces (levels n).statements) s (pure body)
      (.symbol .rbrace :: c :: cs) := by
    refine .inBraces h fun s h hb => ihts.statements h ?_
    simpa [endsStatements] using hb
  refine .bind hbody.within fun s h _ => .atSymbol h ?_
  exact .advance h fun s h _ => .refl h

theorem call {callee : SourceExpr} {args : List SourceExpr}
    (ihts : Accepts ts (.expr .call callee)) (hus : Derives g us (.exprs args))
    (ihus : Accepts us (.exprs args)) :
    Accepts (ts ++ .symbol .lparen :: us ++ [.symbol .rparen])
      (.expr .call (.call callee args)) := by
  intro n s c cs h _
  have h : s.At n (ts ++ .symbol .lparen :: (us ++ .symbol .rparen :: c :: cs)) := by
    simpa using h
  refine (ihts n s _ _ h (Level.not_goesOn rfl)).within.trans fun s h _ => ?_
  refine .next h (.current ?_)
  rw [h.current]
  refine .advance h fun s h _ => ?_
  exact .bind (separated hus ihus h (by simp) (.inl rfl)).within fun s h _ => .refl h

theorem member {target : SourceExpr} {l : Lexeme} {name : String} {optional : Bool}
    (ih : Accepts ts (.expr .call target)) (hl : l.word? = some name) :
    Accepts (ts ++ [.symbol (accessSymbol optional), l])
      (.expr .call (.member target name optional)) := by
  intro n s c cs h _
  have h : s.At n (ts ++ .symbol (accessSymbol optional) :: l :: c :: cs) := by simpa using h
  have hstop : Level.call.Stops (.symbol (accessSymbol optional)) := by
    cases optional <;> exact Level.not_goesOn rfl
  refine (ih n s _ _ h hstop).within.trans fun s h _ => ?_
  refine .next h (.current ?_) (by simp)
  rw [h.current]
  cases optional with
  | true | false =>
    refine .advance h fun s h _ => ?_
    exact .bind (.memberName h hl) fun s h _ => .refl h

theorem unaryOp {e : SourceExpr} {op : UnaryOp} (ih : Accepts ts (.expr .unary e)) :
    Accepts (.symbol (unarySymbol op) :: ts) (.expr .unary (.unary op e)) := by
  intro n s c cs h hc
  refine .current ?_
  rw [h.current]
  cases op with
  | plus | neg | not =>
    refine .advance h fun s h _ => ?_
    exact .bind (ih.unary h hc) fun s h _ => .refl h

theorem operator (op : Operator) {lhs rhs : SourceExpr} (ihts : Accepts ts (.expr op.level lhs))
    (ihus : Accepts us (.expr op.level.tighter rhs)) :
    Accepts (ts ++ .symbol op.symbol :: us) (.expr op.level (op.apply lhs rhs)) := by
  intro n s c cs h hc
  have h : s.At n (ts ++ .symbol op.symbol :: (us ++ c :: cs)) := by simpa using h
  have hloop (e : SourceExpr) : op.level.resume (levels n) e =
      repeatUntil (operatorPass (op.level.tighter.reader (levels n)) op.level.operator?) e := by
    unfold Operator.level
    split <;> rfl
  have hstops (l : Lexeme) : op.level.Stops l ↔ ¬ op.level.tighter.GoesOn l := by
    unfold Operator.level
    split <;> rfl
  have hop : op.level.Stops (.symbol op.symbol) := by
    refine (hstops _).2 (Level.not_goesOn ?_)
    rw [joins?_symbol]
    unfold Operator.level
    split <;> rfl
  have hlhs := ihts n s _ _ h hop
  have hrhs := fun s (h : State.At s n (us ++ c :: cs)) => ihus.expr h ((hstops c).1 hc)
  -- the left operand is found by the same loop, which goes on with the operator after it
  rw [hloop] at hlhs ⊢
  refine hlhs.within.trans fun s h _ => .next h (.current ?_)
  rw [h.current, operator?_symbol]
  refine .advance h fun s h _ => ?_
  exact .bind (hrhs s h).within fun s h _ => .refl h

theorem conditional {vs : List Lexeme} {test yes no : SourceExpr}
    (ihts : Accepts ts (.expr .logical test)) (ihus : Accepts us (.expr .assignment yes))
    (ihvs : Accepts vs (.expr .assignment no)) :
    Accepts (ts ++ .symbol .question :: us ++ .symbol .colon :: vs)
      (.expr .conditional (.conditional test yes no)) := by
  intro n s c cs h hc
  have h : s.At n (ts ++ .symbol .question :: (us ++ .symbol .colon :: (vs ++ c :: cs))) := by
    simpa using h
  -- an assignment may come last, and more goes on with it than with a conditional
  have hc' : ¬ Level.assignment.GoesOn c := fun hl => hc (Level.conditional_goesOn hl)
  refine .bind (ihts.expr h (Level.not_goesOn rfl)).within fun s h _ => .atSymbol h ?_
  refine .advance h fun s h _ => ?_
  refine .bind (ihus.assignment h (Level.not_goesOn rfl)).within fun s h _ => .atSymbol h ?_
  refine .advance h fun s h _ => ?_
  exact .bind (ihvs.assignment h hc').within fun s h _ => .refl h

theorem tighter {level : Level} {e : SourceExpr} (hd : Derives g ts (.expr level.tighter e))
    (ih : Accepts ts (.expr level.tighter e)) : Accepts ts (.expr level e) := by
  cases level with
  | primary => exact ih
  | logical | equality | relational | additive | multiplicative | call =>
    intro n s c cs h hc
    exact .bind (ih.expr h hc) fun s h _ => .refl h
  | assignment =>
    intro n s c cs h hc
    have hread := ih.expr h fun hl => hc (hl.loosen (by decide))
    refine .current (.bind hread fun s h _ => .current ?_)
    rw [h.current]
    cases hop : assignmentOp? c with
    | none => exact .refl h
    | some op =>
      obtain rfl := symbol_of_assignmentOp? hop
      refine absurd (Level.goesOn_symbol.2 ⟨.conditional, ?_, by decide⟩) hc
      unfold assignSymbol
      split <;> rfl
  | conditional =>
    intro n s c cs h hc
    refine .bind (ih.expr h fun hl => hc (hl.loosen (by decide))) fun s h _ =>
      .not_atSymbol h ?_ (.refl h)
    rintro rfl
    exact hc (Level.goesOn_symbol.2 ⟨.conditional, rfl, by decide⟩)
  | unary =>
    intro n s c cs h hc
    -- what is no unary expression of its own begins with no unary operator
    obtain ⟨l, us, rfl, hl⟩ := hd.opens
    have hun : unaryOp? l = none := by
      cases hop : unaryOp? l with
      | none => rfl
      | some op =>
        obtain rfl := symbol_of_unaryOp? hop
        have hl : Level.postfixed.rank ≤ Level.unary.rank := by cases op <;> exact hl
        exact absurd hl (by decide)
    have hup : updateOp? l = none := by
      cases hop : updateOp? l with
      | none => rfl
      | some op =>
        obtain rfl := symbol_of_updateOp? hop
        have hl : Level.postfixed.rank ≤ Level.unary.rank := by cases op <;> exact hl
        exact absurd hl (by decide)
    have hread := ih.expr h fun hl => hc (hl.loosen (by decide))
    refine .current ?_
    rw [h.current]
    dsimp only
    rw [hun, hup]
    exact hread
  | postfixed =>
    intro n s c cs h hc
    refine .bind (ih.expr h fun hl => hc (hl.loosen (by decide))) fun s h _ => .current ?_
    rw [h.current]
    cases hop : updateOp? c with
    | none => exact .refl h
    | some op =>
      obtain rfl := symbol_of_updateOp? hop
      refine absurd (Level.goesOn_symbol.2 ⟨.postfixed, ?_, by decide⟩) hc
      cases op <;> rfl

theorem loosen {level level' : Level} {e : SourceExpr} (hd : Derives g ts (.expr level e))
    (h : Accepts ts (.expr level e)) (hl : level'.rank ≤ level.rank) :
    Accepts ts (.expr level' e) := by
  generalize hn : level.rank - level'.rank = n
  induction n generalizing level' with
  | zero =>
    obtain rfl : level = level' := Level.rank_injective (by omega)
    exact h
  | succ n ih =>
    have hle := level.rank_le
    have hr := @Level.rank_tighter level' (by omega)
    exact tighter (hd.loosen (by omega)) (ih (by omega) (by omega))

theorem updated {x : String} {op : UpdateOp} (hd : Derives g ts (.expr .primary (.var x)))
    (ih : Accepts ts (.expr .primary (.var x))) :
    Accepts (ts ++ [.symbol (updateSymbol op)]) (.expr .postfixed (.update op false x)) := by
  intro n s c cs h _
  have h : s.At n (ts ++ .symbol (updateSymbol op) :: c :: cs) := by simpa using h
  have hstop : ¬ Level.call.GoesOn (.symbol (updateSymbol op)) := by
    cases op <;> exact Level.not_goesOn rfl
  have ih : Accepts ts (.expr .call (.var x)) := ih.loosen hd (by decide)
  refine .bind (ih.expr h hstop).within fun s h _ => .current ?_
  rw [h.current]
  cases op with
  | inc | dec =>
    refine .bind (.refl h) fun s h _ => ?_
    exact .advance h fun s h _ => .refl h

theorem update {x : String} {op : UpdateOp} (hd : Derives g ts (.expr .primary (.var x)))
    (ih : Accepts ts (.expr .primary (.var x))) :
    Accepts (.symbol (updateSymbol op) :: ts) (.expr .unary (.update op true x)) := by
  intro n s c cs h hc
  refine .current ?_
  rw [h.current]
  have ih : Accepts ts (.expr .unary (.var x)) := ih.loosen hd (by decide)
  cases op with
  | inc | dec =>
    refine .advance h fun s h _ => ?_
    exact .bind (ih.unary h hc) fun s h _ => .refl h

theorem assign {x : String} {op : Option ArithmeticOp} {value : SourceExpr}
    (hts : Derives g ts (.expr .primary (.var x))) (ihts : Accepts ts (.expr .primary (.var x)))
    (ihus : Accepts us (.expr .assignment value)) :
    Accepts (ts ++ .symbol (assignSymbol op) :: us) (.expr .assignment (.assign x op value)) := by
  intro n s c cs h hc
  have h : s.At n (ts ++ .symbol (assignSymbol op) :: (us ++ c :: cs)) := by simpa using h
  have hvar : Accepts ts (.expr .logical (.var x)) := ihts.loosen hts (by decide)
  have hstop : ¬ Level.logical.GoesOn (.symbol (assignSymbol op)) := by
    unfold assignSymbol
    split <;> exact Level.not_goesOn rfl
  have hne : Lexeme.symbol (assignSymbol op) ≠ .symbol .question := by
    unfold assignSymbol
    split <;> nofun
  have hop : assignmentOp? (.symbol (assignSymbol op)) = some op := by
    unfold assignSymbol
    split <;> rfl
  have htarget : Reaches n (n ≤ (ts ++ .symbol (assignSymbol op) :: us).length)
      (Grammar.conditional (levels n)) s (pure (.var x))
      (.symbol (assignSymbol op) :: (us ++ c :: cs)) := by
    refine .bind (hvar.expr h hstop).within fun s h _ => ?_
    exact .not_atSymbol h hne (.refl h)
  refine .current (.bind htarget fun s h _ => .current ?_)
  rw [h.current, hop]
  refine .advance h fun s h _ => ?_
  exact .bind (ihus.assignment h hc).within fun s h _ => .refl h

end Accepts

end TextTemplate.Grammar
