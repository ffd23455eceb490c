import TextTemplate.Render.Evaluate
import TextTemplate.Proofs.Tree.Prints
import TextTemplate.Proofs.Value.Lambdas
import Mathlib.Order.CompleteBooleanAlgebra
import Mathlib.Order.CompletePartialOrder

/-! The interpreter uses its monad only through a few operations. A relation between two monads that
each of these respects is respected by whole runs. The relation may speak of the stage that a run
has reached, of the levels of nesting that are left, of the lambdas in results and of what may be
printed; what it says of them is left to its instances. -/

namespace TextTemplate

def Program.Alike (p q : Program) : Prop := p.body = q.body ∧ p.slots = q.slots

inductive ResultKind : Type → Type 1
  | any {α : Type} : ResultKind α
  | value : ResultKind Value
  | values : ResultKind (List Value)
  | entries : ResultKind (List (String × Value))
  | attempted {α : Type} (k : ResultKind α) : ResultKind (Except Halt α)

namespace ResultKind

def Only (p : Closure → Prop) {α : Type} : ResultKind α → α → Prop
  | .any, _ => True
  | .value, v => v.Only p
  | .values, vs => ∀ v ∈ vs, v.Only p
  | .entries, es => ∀ e ∈ es, e.2.Only p
  | .attempted k, .ok a => k.Only p a
  | .attempted _, .error _ => True

theorem Only.mono {p q : Closure → Prop} (hpq : ∀ f, p f → q f) {α : Type} {k : ResultKind α}
    {a : α} (h : k.Only p a) : k.Only q a := by
  induction k with
  | any => trivial
  | value => exact Value.Only.mono h hpq
  | values => exact fun v hv => (h v hv).mono hpq
  | entries => exact fun e he => (h e he).mono hpq
  | attempted k ih =>
    cases a with
    | ok a => exact ih h
    | error _ => trivial

theorem only_of_forall {p : Closure → Prop} (h : ∀ f, p f) {α : Type} (k : ResultKind α) (a : α) :
    k.Only p a := by
  induction k with
  | any => trivial
  | value => exact fun f _ => h f
  | values => exact fun _ _ f _ => h f
  | entries => exact fun _ _ f _ => h f
  | attempted k ih =>
    cases a with
    | ok a => exact ih a
    | error _ => trivial

end ResultKind

/-- What runs may use, by the stage they have reached, and what they may print. What they may use
once they may use from then on. -/
structure Discipline (W : Type) [Preorder W] where
  slot : W → Nat → Nat → Prop
  lambda : W → Closure → Prop
  program : Program → Prop
  print : Print → Prop := fun _ => True
  slot_mono {w w' : W} {frame x : Nat} : w ≤ w' → slot w frame x → slot w' frame x
  lambda_mono {w w' : W} {f : Closure} : w ≤ w' → lambda w f → lambda w' f

namespace Discipline

variable {W : Type} [Preorder W] (T : Discipline W)

def Code (w : W) (frame : Nat) (body : List SlotStmt) : Prop :=
  Stmt.FitsList (T.slot w frame) T.print body

variable {T}

theorem code_iff {w : W} {frame : Nat} {body : List SlotStmt} : T.Code w frame body ↔
    Stmt.OverList (T.slot w frame) body ∧ ∀ a ∈ Stmt.printsList body, T.print a :=
  Stmt.fitsList_iff body

theorem Code.mono {w w' : W} {frame : Nat} {body : List SlotStmt} (hw : w ≤ w')
    (h : T.Code w frame body) : T.Code w' frame body := by
  obtain ⟨hover, hprint⟩ := code_iff.1 h
  refine code_iff.2 ⟨(Stmt.overList_iff body).2 fun x hx => ?_, hprint⟩
  exact T.slot_mono hw ((Stmt.overList_iff body).1 hover x hx)

def free : Discipline Unit where
  slot _ _ _ := True
  lambda _ _ := True
  program _ := True
  slot_mono _ h := h
  lambda_mono _ h := h

theorem free_code {w : Unit} {frame : Nat} (body : List SlotStmt) : free.Code w frame body :=
  code_iff.2 ⟨(Stmt.overList_iff body).2 fun _ _ => trivial, fun _ _ => trivial⟩

end Discipline

namespace Run

variable {σ₁ σ₂ W : Type} {m₁ m₂ : Type → Type} [MonadRender σ₁ m₁] [MonadRender σ₂ m₂] [Preorder W]

structure Sequential (T : Discipline W)
    (R : Nat → W → ⦃α : Type⦄ → ResultKind α → m₁ α → m₂ α → Prop) : Prop where
  pure {n : Nat} {w : W} {α : Type} {k : ResultKind α} {a : α} :
    k.Only (T.lambda w) a → R n w k (pure a) (pure a)
  bind {n : Nat} {w : W} {α β : Type} {k : ResultKind α} {k' : ResultKind β} {x : m₁ α} {y : m₂ α}
    {f : α → m₁ β} {g : α → m₂ β} :
    R n w k x y → (∀ w', w ≤ w' → ∀ a, k.Only (T.lambda w') a → R n w' k' (f a) (g a)) →
      R n w k' (x >>= f) (y >>= g)
  load {n : Nat} {w : W} {frame x : Nat} :
    T.slot w frame x → R n w .value (load frame x) (load frame x)
  store {n : Nat} {w : W} {frame x : Nat} {v : Value} :
    T.slot w frame x → v.Only (T.lambda w) → R n w .any (store frame x v) (store frame x v)

/-- A relation that the operations of the interpreter respect, as long as the discipline is kept.
The surroundings may differ, but they load programs that are alike. -/
structure LogicalRelation (T : Discipline W) (world₁ : World σ₁) (world₂ : World σ₂)
    (R : Nat → W → ⦃α : Type⦄ → ResultKind α → m₁ α → m₂ α → Prop) : Prop
    extends Sequential T R where
  fail {n : Nat} {w : W} {α : Type} {k : ResultKind α} (e : Error) :
    R n w k (fail e : m₁ α) (fail e)
  self {n : Nat} {w : W} : R n w .value (get Context.self) (get Context.self)
  extendMode {n : Nat} {w : W} : R n w .any (get Context.extendMode) (get Context.extendMode)
  append {n : Nat} {w : W} {text : String} :
    T.print (.text text) →
      R n w .any (update fun c => c.append text) (update fun c => c.append text)
  print {n : Nat} {w : W} {escape : Bool} (v : Value) :
    T.print (.value escape) →
      R n w .any (update fun c => c.print escape v) (update fun c => c.print escape v)
  define {n : Nat} {w : W} {frame : Nat} {body : List SlotStmt} (name : String) :
    T.Code w frame body →
      R n w .any (update fun c => c.define name (.compiled body frame))
        (update fun c => c.define name (.compiled body frame))
  requestLayout {n : Nat} {w : W} (layout : String) :
    R n w .any (update fun c => { c with pendingLayout := some layout })
      (update fun c => { c with pendingLayout := some layout })
  defineContent {n : Nat} {w : W} {text : String} :
    T.print (.text text) →
      R n w .any
        (update fun c => if Text.isBlankText text && c.hasBlock defaultBlock then c
          else c.define defaultBlock (.text text))
        (update fun c => if Text.isBlankText text && c.hasBlock defaultBlock then c
          else c.define defaultBlock (.text text))
  block {n : Nat} {w : W} {α : Type} {k : ResultKind α} {f : Block → m₁ α} {g : Block → m₂ α}
    (name : String) :
    (∀ w', w ≤ w' → ∀ text, T.print (.text text) → R n w' k (f (.text text)) (g (.text text))) →
    (∀ w', w ≤ w' → ∀ body frame, T.Code w' frame body →
        R n w' k (f (.compiled body frame)) (g (.compiled body frame))) →
      R n w k (get (fun c => c.block name) >>= f) (get (fun c => c.block name) >>= g)
  lambda {n : Nat} {w : W} {frame id : Nat} {params : List Nat} {body : List SlotStmt} :
    (∀ x ∈ params, T.slot w frame x) → T.Code w frame body →
      R n w .value
        (get Context.render >>= fun render =>
          Pure.pure (.closure ⟨⟨render, frame⟩, id, params, body⟩))
        (get Context.render >>= fun render =>
          Pure.pure (.closure ⟨⟨render, frame⟩, id, params, body⟩))
  keeps {n : Nat} {w : W} {α : Type} {k : ResultKind α} {f : Closure} {g₁ : Bool → m₁ α}
    {g₂ : Bool → m₂ α} :
    T.lambda w f → (∀ w', w ≤ w' → R n w' k (g₁ false) (g₂ false)) →
      (∀ w', w ≤ w' → (∀ x ∈ f.params, T.slot w' f.frame.index x) →
        T.Code w' f.frame.index f.body → R n w' k (g₁ true) (g₂ true)) →
      R n w k (get (fun c => c.keeps f.frame) >>= g₁) (get (fun c => c.keeps f.frame) >>= g₂)
  fresh {n : Nat} {w : W} {α : Type} {k : ResultKind α} {p : Program} {f : Nat → m₁ α}
    {g : Nat → m₂ α} :
    T.program p → (∀ w', w ≤ w' → ∀ frame, T.Code w' frame p.body → R n w' k (f frame) (g frame)) →
      R n w k
        (get (fun c => c.frames.size) >>= fun frame =>
          update (fun c => (c.newFrame p.slots.length).2) >>= fun _ => f frame)
        (get (fun c => c.frames.size) >>= fun frame =>
          update (fun c => (c.newFrame p.slots.length).2) >>= fun _ => g frame)
  inside {n : Nat} {w : W} {α : Type} {k : ResultKind α} {x : m₁ α} {y : m₂ α} (name : String) :
    R n w k x y → R (n + 1) w k (inside name x) (inside name y)
  withSelf {n : Nat} {w : W} {α : Type} {k : ResultKind α} {x : m₁ α} {y : m₂ α} {self : Value} :
    self.Only (T.lambda w) → R n w k x y → R n w k (withSelf self x) (withSelf self y)
  holding {n : Nat} {w : W} {α : Type} {k : ResultKind α} {x : m₁ α} {y : m₂ α} (frame : Nat) :
    R n w k x y → R n w k (holding frame x) (holding frame y)
  captured {n : Nat} {w : W} {α : Type} {k : ResultKind α} {x : m₁ Unit} {y : m₂ Unit}
    {f : Rendered → m₁ α} {g : Rendered → m₂ α} :
    R n w .any x y → (∀ w', w ≤ w' → ∀ rendered : Rendered, T.print (.text rendered.text) →
        R n w' k (f rendered) (g rendered)) →
      R n w k (captured x >>= f) (captured y >>= g)
  binding {n : Nat} {w : W} {α : Type} {k : ResultKind α} {frame : Nat} {params : List Nat}
    {args : List Value} {x : m₁ α} {y : m₂ α} :
    (∀ x ∈ params, T.slot w frame x) → (∀ v ∈ args, v.Only (T.lambda w)) →
      (∀ w', w ≤ w' → R n w' k x y) →
      R n w k (binding frame params args x) (binding frame params args y)
  host {n : Nat} {w : W} (f : HostFunction) (args : List Value) :
    (∀ v ∈ args, v.Only (T.lambda w)) →
      R n w .value (withWorld (world₁.call f args)) (withWorld (world₂.call f args))
  template {n : Nat} {w : W} {α : Type} {k : ResultKind α} {f : Program → m₁ α}
    {g : Program → m₂ α} (name : String) :
    (∀ w', w ≤ w' → ∀ p q, p.Alike q → T.program p → R n w' k (f p) (g q)) →
      R n w k (withWorld (world₁.load name) >>= f) (withWorld (world₂.load name) >>= g)

namespace Sequential

variable {T : Discipline W} {R : Nat → W → ⦃α : Type⦄ → ResultKind α → m₁ α → m₂ α → Prop}
  (S : Sequential T R)
include S

theorem forEffect {n : Nat} {w : W} {α : Type} {k : ResultKind α} {x : m₁ α} {y : m₂ α}
    (h : R n w k x y) : R n w .any (forEffect x) (forEffect y) :=
  S.bind h fun _ _ _ _ => S.pure trivial

theorem thenNull {n : Nat} {w : W} {α : Type} {k : ResultKind α} {x : m₁ α} {y : m₂ α}
    (h : R n w k x y) :
    R n w .value (x >>= fun _ => Pure.pure .null) (y >>= fun _ => Pure.pure .null) :=
  S.bind h fun _ _ _ _ => S.pure Value.only_null

theorem forEach {n : Nat} {w₀ w : W} (hw : w₀ ≤ w) {f : Value → m₁ Unit} {g : Value → m₂ Unit}
    {vs : List Value} (hvs : ∀ v ∈ vs, v.Only (T.lambda w))
    (h : ∀ w', w₀ ≤ w' → ∀ v, v.Only (T.lambda w') → R n w' .any (f v) (g v)) :
    R n w .any (Run.forEach f vs) (Run.forEach g vs) := by
  induction vs generalizing w with
  | nil => exact S.pure trivial
  | cons v vs ih =>
    rw [List.forall_mem_cons] at hvs
    refine S.bind (h w hw v hvs.1) fun w' hw' _ _ => ih (hw.trans hw') fun u hu => ?_
    exact (hvs.2 u hu).mono fun _ => T.lambda_mono hw'

theorem replaceAll {n : Nat} {w : W} {frame : Nat} {vs : List (Nat × Value)}
    (hvs : ∀ e ∈ vs, T.slot w frame e.1 ∧ e.2.Only (T.lambda w)) :
    R n w .values (Run.replaceAll frame vs) (Run.replaceAll frame vs) := by
  induction vs generalizing w with
  | nil => exact S.pure fun _ hv => nomatch hv
  | cons e vs ih =>
    rw [List.forall_mem_cons] at hvs
    refine S.bind (S.load hvs.1.1) fun w₁ h₁ old hold => ?_
    have he : e.2.Only (T.lambda w₁) := hvs.1.2.mono fun _ => T.lambda_mono h₁
    refine S.bind (S.store (T.slot_mono h₁ hvs.1.1) he) fun w₂ h₂ _ _ => ?_
    refine S.bind (ih fun e' he' => ?_) fun w₃ h₃ olds holds => S.pure ?_
    · obtain ⟨hslot, hv⟩ := hvs.2 e' he'
      exact ⟨T.slot_mono (h₁.trans h₂) hslot, hv.mono fun _ => T.lambda_mono (h₁.trans h₂)⟩
    · exact List.forall_mem_cons.2 ⟨hold.mono fun _ => T.lambda_mono (h₂.trans h₃), holds⟩

theorem binding_of_attempt
    (attempt : ∀ {n : Nat} {w : W} {α : Type} {k : ResultKind α} {x : m₁ α} {y : m₂ α},
      R n w k x y → R n w (.attempted k) (attempt x) (attempt y))
    (halt : ∀ {n : Nat} {w : W} {α : Type} {k : ResultKind α} (h : Halt),
      R n w k (halt h : m₁ α) (halt h))
    {n : Nat} {w : W} {α : Type} {k : ResultKind α} {frame : Nat} {params : List Nat}
    {args : List Value} {x : m₁ α} {y : m₂ α} (hparams : ∀ x ∈ params, T.slot w frame x)
    (hargs : ∀ v ∈ args, v.Only (T.lambda w))
    (h : ∀ w', w ≤ w' → R n w' k x y) :
    R n w k (Run.binding frame params args x) (Run.binding frame params args y) := by
  have hzip {w' : W} (hw : w ≤ w') {vs : List Value} (hvs : ∀ v ∈ vs, v.Only (T.lambda w')) :
      ∀ e ∈ params.zip vs, T.slot w' frame e.1 ∧ e.2.Only (T.lambda w') := fun e he =>
    have hmem := List.of_mem_zip he
    ⟨T.slot_mono hw (hparams _ hmem.1), hvs _ hmem.2⟩
  refine S.bind (S.replaceAll (hzip le_rfl hargs)) fun w₁ h₁ olds holds => ?_
  refine S.bind (attempt (h w₁ h₁)) fun w₂ h₂ a ha => ?_
  have holds₂ : ∀ v ∈ olds, v.Only (T.lambda w₂) := fun v hv =>
    (holds v hv).mono fun _ => T.lambda_mono h₂
  refine S.bind (S.forEffect (S.replaceAll (hzip (h₁.trans h₂) holds₂))) fun w₃ h₃ _ _ => ?_
  cases a with
  | error e => exact halt e
  | ok a => exact S.pure (ResultKind.Only.mono (fun _ => T.lambda_mono h₃) ha)

end Sequential

namespace LogicalRelation

structure Levels (T : Discipline W) (R : Nat → W → ⦃α : Type⦄ → ResultKind α → m₁ α → m₂ α → Prop)
    (n : Nat) (deep₁ : Deep m₁) (deep₂ : Deep m₂) : Prop where
  body {w : W} {frame : Nat} {b : List SlotStmt} :
    T.Code w frame b → R n w .value (deep₁.body frame b) (deep₂.body frame b)
  program {w : W} {p q : Program} :
    p.Alike q → T.program p → R n w .any (deep₁.program p) (deep₂.program q)

variable {T : Discipline W} {world₁ : World σ₁} {world₂ : World σ₂}
  {R : Nat → W → ⦃α : Type⦄ → ResultKind α → m₁ α → m₂ α → Prop} {n : Nat} {deep₁ : Deep m₁}
  {deep₂ : Deep m₂} (L : LogicalRelation T world₁ world₂ R)
include L

theorem ofExcept {w : W} {α : Type} {k : ResultKind α} (r : Except Error α)
    (h : ∀ a, r = .ok a → k.Only (T.lambda w) a) :
    R n w k (Run.ofExcept r) (Run.ofExcept r) := by
  cases r with
  | ok a => exact L.pure (h a rfl)
  | error e => exact L.fail e

theorem includeTemplate (D : Levels T R n deep₁ deep₂) {w : W} (name : String) {argument : Value}
    (h : argument.Only (T.lambda w)) :
    R (n + 1) w .any (Run.includeTemplate world₁ deep₁ name argument)
      (Run.includeTemplate world₂ deep₂ name argument) := by
  refine L.template name fun w' hw p q halike hp => L.inside name ?_
  split
  · exact D.program halike hp
  · exact L.withSelf (h.mono fun _ => T.lambda_mono hw) (D.program halike hp)

theorem extend (D : Levels T R n deep₁ deep₂) {w : W} (layout : String) :
    R (n + 1) w .any (Run.extend world₁ deep₁ layout) (Run.extend world₂ deep₂ layout) := by
  refine L.bind L.extendMode fun w' _ mode _ => ?_
  cases mode with
  | eager => exact L.includeTemplate D layout Value.only_null
  | deferred => exact L.requestLayout layout

theorem callBlock (D : Levels T R n deep₁ deep₂) {w : W} (name : String) :
    R (n + 1) w .any (Run.callBlock deep₁ name) (Run.callBlock deep₂ name) := by
  refine L.block name (fun w' _ content h => ?_) fun w' _ body frame h => ?_
  · exact L.inside name (L.append h)
  · exact L.inside name (L.forEffect (D.body h))

theorem callClosure (D : Levels T R n deep₁ deep₂) {w : W} {f : Closure} {args : List Value}
    (hf : T.lambda w f) (hargs : ∀ v ∈ args, v.Only (T.lambda w)) :
    R (n + 1) w .value (Run.callClosure deep₁ f args) (Run.callClosure deep₂ f args) := by
  refine L.keeps hf (fun w' _ => L.fail _) fun w' hw hparams hbody => ?_
  simp only [Bool.not_true, Bool.false_eq_true, if_false]
  split
  · exact L.fail _
  · refine L.inside "lambda" (L.binding hparams (fun v hv => ?_) fun w'' hw' => ?_)
    · exact (hargs v hv).mono fun _ => T.lambda_mono hw
    · exact D.body (hbody.mono hw')

theorem call (D : Levels T R n deep₁ deep₂) {w : W} {callee : Value} {args : List Value}
    (hcallee : callee.Only (T.lambda w)) (hargs : ∀ v ∈ args, v.Only (T.lambda w)) :
    R (n + 1) w .value (Run.call world₁ deep₁ callee args)
      (Run.call world₂ deep₂ callee args) := by
  unfold Run.call
  split
  · exact L.host _ _ hargs
  · exact L.callClosure D (Value.only_closure.1 hcallee) hargs
  · exact L.fail _

-- Code that keeps the discipline at one stage is related at all later ones: what runs before it
-- moves the stage on.
mutual

theorem eval (D : Levels T R n deep₁ deep₂) {w₀ : W} {frame : Nat} : ∀ e : SlotExpr,
    e.Fits (T.slot w₀ frame) T.print → ∀ w, w₀ ≤ w →
      R (n + 1) w .value (Run.eval world₁ deep₁ frame e) (Run.eval world₂ deep₂ frame e)
  | .literal value, _, w, _ => by
    simp only [Run.eval]
    exact L.pure (Value.only_of_closures_eq_nil (Value.closures_literal value))
  | .var x, he, w, hw => by
    simp only [Run.eval]
    exact L.load (T.slot_mono hw he)
  | .selfMember name, _, w, _ => by
    simp only [Run.eval]
    exact L.bind L.self fun w' _ v hv => L.ofExcept _ fun m hm => hv.member hm
  | .member target name optional, he, w, hw => by
    simp only [Run.eval]
    refine L.bind (eval D target he w hw) fun w' _ v hv => ?_
    split
    · exact L.pure Value.only_null
    · exact L.ofExcept _ fun m hm => hv.member hm
  | .call callee args, he, w, hw => by
    simp only [Run.eval]
    refine L.bind (eval D callee he.1 w hw) fun w₁ h₁ f hf => ?_
    refine L.bind (evalAll D args he.2 w₁ (hw.trans h₁)) fun w₂ h₂ vs hvs => ?_
    exact L.call D (hf.mono fun _ => T.lambda_mono h₂) hvs
  | .array items, he, w, hw => by
    simp only [Run.eval]
    exact L.bind (evalAll D items he w hw) fun w' _ vs hvs => L.pure (Value.only_array.2 hvs)
  | .map entries, he, w, hw => by
    simp only [Run.eval]
    refine L.bind (evalEntries D [] (fun _ h => nomatch h) entries he hw) fun w' _ es hes => ?_
    exact L.pure (Value.only_map.2 hes)
  | .unary op operand, he, w, hw => by
    simp only [Run.eval]
    refine L.bind (eval D operand he w hw) fun w' _ v _ => L.ofExcept _ fun u hu => ?_
    exact Value.only_of_closures_eq_nil (Value.closures_unary hu)
  | .update op before x, he, w, hw => by
    simp only [Run.eval]
    refine L.bind (L.load (T.slot_mono hw he)) fun w₁ h₁ old hold => ?_
    refine L.bind (L.ofExcept (k := .value) _ fun v hv =>
      Value.only_of_closures_eq_nil (Value.closures_arithmetic hv)) fun w₂ h₂ new hnew => ?_
    have hx := T.slot_mono ((hw.trans h₁).trans h₂) he
    refine L.bind (L.store hx hnew) fun w₃ h₃ _ _ => L.pure ?_
    split
    · exact hnew.mono fun _ => T.lambda_mono h₃
    · exact hold.mono fun _ => T.lambda_mono (h₂.trans h₃)
  | .binary op lhs rhs, he, w, hw => by
    simp only [Run.eval]
    refine L.bind (eval D lhs he.1 w hw) fun w₁ h₁ a _ => ?_
    refine L.bind (eval D rhs he.2 w₁ (hw.trans h₁)) fun w₂ h₂ b _ => L.ofExcept _ fun v hv => ?_
    exact Value.only_of_closures_eq_nil (Value.closures_binary hv)
  | .logical .and lhs rhs, he, w, hw => by
    simp only [Run.eval]
    refine L.bind (eval D lhs he.1 w hw) fun w₁ h₁ a _ => ?_
    split
    · refine L.bind (eval D rhs he.2 w₁ (hw.trans h₁)) fun w₂ _ b _ => L.pure ?_
      exact Value.only_bool _
    · exact L.pure (Value.only_bool false)
  | .logical .or lhs rhs, he, w, hw => by
    simp only [Run.eval]
    refine L.bind (eval D lhs he.1 w hw) fun w₁ h₁ a _ => ?_
    split
    · exact L.pure (Value.only_bool true)
    · refine L.bind (eval D rhs he.2 w₁ (hw.trans h₁)) fun w₂ _ b _ => L.pure ?_
      exact Value.only_bool _
  | .logical .coalesce lhs rhs, he, w, hw => by
    simp only [Run.eval]
    refine L.bind (eval D lhs he.1 w hw) fun w₁ h₁ a ha => ?_
    split
    · exact eval D rhs he.2 w₁ (hw.trans h₁)
    · exact L.pure ha
  | .conditional test yes no, he, w, hw => by
    simp only [Run.eval]
    refine L.bind (eval D test he.1 w hw) fun w₁ h₁ v _ => ?_
    split
    · exact eval D yes he.2.1 w₁ (hw.trans h₁)
    · exact eval D no he.2.2 w₁ (hw.trans h₁)
  | .assign x none value, he, w, hw => by
    simp only [Run.eval]
    refine L.bind (eval D value he.2 w hw) fun w₁ h₁ v hv => ?_
    refine L.bind (L.store (T.slot_mono (hw.trans h₁) he.1) hv) fun w₂ h₂ _ _ => L.pure ?_
    exact hv.mono fun _ => T.lambda_mono h₂
  | .assign x (some op) value, he, w, hw => by
    simp only [Run.eval]
    refine L.bind (eval D value he.2 w hw) fun w₁ h₁ v _ => ?_
    refine L.bind (L.load (T.slot_mono (hw.trans h₁) he.1)) fun w₂ h₂ old _ => ?_
    refine L.bind (L.ofExcept (k := .value) _ fun v hv =>
      Value.only_of_closures_eq_nil (Value.closures_arithmetic hv)) fun w₃ h₃ new hnew => ?_
    have hx := T.slot_mono (((hw.trans h₁).trans h₂).trans h₃) he.1
    refine L.bind (L.store hx hnew) fun w₄ h₄ _ _ => L.pure ?_
    exact hnew.mono fun _ => T.lambda_mono h₄
  | .sequence items, he, w, hw => by
    simp only [Run.eval]
    refine L.bind (evalAll D items he w hw) fun w' _ vs hvs => L.pure ?_
    cases hlast : vs.getLast? with
    | none => exact Value.only_null
    | some v => exact hvs v (List.mem_of_getLast? hlast)
  | .lambda id params body, he, w, hw => by
    simp only [Run.eval]
    exact L.lambda (fun x hx => T.slot_mono hw (he.1 x hx)) (Discipline.Code.mono hw he.2)

theorem evalAll (D : Levels T R n deep₁ deep₂) {w₀ : W} {frame : Nat} : ∀ es : List SlotExpr,
    Expr.FitsList (T.slot w₀ frame) T.print es → ∀ w, w₀ ≤ w →
      R (n + 1) w .values (Run.evalAll world₁ deep₁ frame es) (Run.evalAll world₂ deep₂ frame es)
  | [], _, w, _ => by
    simp only [Run.evalAll]
    exact L.pure fun _ h => nomatch h
  | e :: es, he, w, hw => by
    simp only [Run.evalAll]
    refine L.bind (eval D e he.1 w hw) fun w₁ h₁ v hv => ?_
    refine L.bind (evalAll D es he.2 w₁ (hw.trans h₁)) fun w₂ h₂ vs hvs => L.pure ?_
    exact List.forall_mem_cons.2 ⟨hv.mono fun _ => T.lambda_mono h₂, hvs⟩

theorem evalEntries (D : Levels T R n deep₁ deep₂) {w₀ : W} {frame : Nat}
    (read : List (String × Value)) {w : W} (hread : ∀ e ∈ read, e.2.Only (T.lambda w)) :
    ∀ es : List (String × SlotExpr), Expr.FitsEntries (T.slot w₀ frame) T.print es → w₀ ≤ w →
      R (n + 1) w .entries (Run.evalEntries world₁ deep₁ frame read es)
        (Run.evalEntries world₂ deep₂ frame read es)
  | [], _, _ => by
    simp only [Run.evalEntries]
    exact L.pure hread
  | (key, e) :: es, he, hw => by
    simp only [Run.evalEntries]
    refine L.bind (eval D e he.1 w hw) fun w₁ h₁ v hv => ?_
    refine evalEntries D _ (Entries.forall_insert (p := Value.Only _) hv fun e he => ?_) es
      he.2 (hw.trans h₁)
    exact (hread e he).mono fun _ => T.lambda_mono h₁

theorem exec (D : Levels T R n deep₁ deep₂) {w₀ : W} {frame : Nat} : ∀ s : SlotStmt,
    s.Fits (T.slot w₀ frame) T.print → ∀ w, w₀ ≤ w →
      R (n + 1) w .value (Run.exec world₁ deep₁ frame s) (Run.exec world₂ deep₂ frame s)
  | .text content, he, w, _ => by
    simp only [Run.exec]
    exact L.thenNull (L.append he)
  | .output escape value, he, w, hw => by
    simp only [Run.exec]
    refine L.bind (eval D value he.2 w hw) fun w₁ _ v _ => ?_
    exact L.thenNull (L.print v he.1)
  | .extend layout, _, w, _ => by
    simp only [Run.exec]
    exact L.thenNull (L.extend D layout)
  | .include name none, _, w, _ => by
    simp only [Run.exec]
    exact L.thenNull (L.includeTemplate D name Value.only_null)
  | .include name (some argument), he, w, hw => by
    simp only [Run.exec]
    refine L.bind (eval D argument he w hw) fun w₁ _ v hv => ?_
    exact L.thenNull (L.includeTemplate D name hv)
  | .block name body, he, w, hw => by
    simp only [Run.exec]
    exact L.thenNull (L.define name (Discipline.Code.mono hw he))
  | .content name, _, w, _ => by
    simp only [Run.exec]
    exact L.thenNull (L.callBlock D name)
  | .branch test yes no, he, w, hw => by
    simp only [Run.exec]
    refine L.bind (eval D test he.1 w hw) fun w₁ h₁ v _ => ?_
    split
    · exact L.thenNull (L.forEffect (execAll D .null yes he.2.1 w₁ (hw.trans h₁) Value.only_null))
    · exact L.thenNull (L.forEffect (execAll D .null no he.2.2 w₁ (hw.trans h₁) Value.only_null))
  | .loop x collection body, he, w, hw => by
    simp only [Run.exec]
    refine L.bind (eval D collection he.2.1 w hw) fun w₁ h₁ v hv => ?_
    refine L.bind (L.ofExcept (k := .values) _ fun vs hvs => hv.elements hvs)
      fun w₂ h₂ items hitems => ?_
    have hw₂ := (hw.trans h₁).trans h₂
    refine L.thenNull (L.forEach hw₂ hitems fun w₃ h₃ item hitem => ?_)
    refine L.bind (L.store (T.slot_mono h₃ he.1) hitem) fun w₄ h₄ _ _ => ?_
    exact L.forEffect (execAll D .null body he.2.2 w₄ (h₃.trans h₄) Value.only_null)
  | .switch subject arms, he, w, hw => by
    simp only [Run.exec]
    refine L.bind (eval D subject he.1 w hw) fun w₁ h₁ v _ => ?_
    refine L.bind (execMatching D v arms he.2 w₁ (hw.trans h₁)) fun w₂ h₂ found _ => ?_
    split
    · exact L.thenNull (execElse D arms he.2 w₂ ((hw.trans h₁).trans h₂))
    · exact L.pure Value.only_null
  | .expr value, he, w, hw => by
    simp only [Run.exec]
    exact eval D value he w hw

theorem execAll (D : Levels T R n deep₁ deep₂) {w₀ : W} {frame : Nat} (last : Value) :
    ∀ ss : List SlotStmt, Stmt.FitsList (T.slot w₀ frame) T.print ss → ∀ w, w₀ ≤ w →
      last.Only (T.lambda w) →
      R (n + 1) w .value (Run.execAll world₁ deep₁ frame last ss)
        (Run.execAll world₂ deep₂ frame last ss)
  | [], _, w, _, hlast => by
    simp only [Run.execAll]
    exact L.pure hlast
  | s :: ss, hs, w, hw, _ => by
    simp only [Run.execAll]
    refine L.bind (exec D s hs.1 w hw) fun w' hw' v hv => ?_
    exact execAll D v ss hs.2 w' (hw.trans hw') hv

theorem execMatching (D : Levels T R n deep₁ deep₂) {w₀ : W} {frame : Nat} (subject : Value) :
    ∀ arms : List (Option SlotExpr × List SlotStmt), Stmt.FitsArms (T.slot w₀ frame) T.print arms →
      ∀ w, w₀ ≤ w →
      R (n + 1) w .any (Run.execMatching world₁ deep₁ frame subject arms)
        (Run.execMatching world₂ deep₂ frame subject arms)
  | [], _, w, _ => by
    simp only [Run.execMatching]
    exact L.pure trivial
  | (none, _) :: arms, ha, w, hw => by
    simp only [Run.execMatching]
    exact execMatching D subject arms ha.2 w hw
  | (some e, body) :: arms, ha, w, hw => by
    simp only [Run.execMatching]
    refine L.bind (eval D e ha.1 w hw) fun w₁ h₁ v _ => ?_
    split
    · have hbody := execAll D .null body ha.2.1 w₁ (hw.trans h₁) Value.only_null
      exact L.bind (L.forEffect hbody) fun _ _ _ _ => L.pure trivial
    · exact execMatching D subject arms ha.2.2 w₁ (hw.trans h₁)

theorem execElse (D : Levels T R n deep₁ deep₂) {w₀ : W} {frame : Nat} :
    ∀ arms : List (Option SlotExpr × List SlotStmt), Stmt.FitsArms (T.slot w₀ frame) T.print arms →
      ∀ w, w₀ ≤ w →
      R (n + 1) w .any (Run.execElse world₁ deep₁ frame arms) (Run.execElse world₂ deep₂ frame arms)
  | [], _, w, _ => by
    simp only [Run.execElse]
    exact L.pure trivial
  | (none, body) :: _, ha, w, hw => by
    simp only [Run.execElse]
    exact L.forEffect (execAll D .null body ha.1 w hw Value.only_null)
  | (some _, _) :: arms, ha, w, hw => by
    simp only [Run.execElse]
    exact execElse D arms ha.2.2 w hw

end

theorem runBody (D : Levels T R n deep₁ deep₂) {w : W} {frame : Nat} {body : List SlotStmt}
    (h : T.Code w frame body) :
    R (n + 1) w .value (Run.runBody world₁ deep₁ frame body)
      (Run.runBody world₂ deep₂ frame body) :=
  L.holding frame (L.execAll D .null body h w le_rfl Value.only_null)

theorem renderProgram (D : Levels T R n deep₁ deep₂) {w : W} {p q : Program} (h : p.Alike q)
    (hp : T.program p) :
    R (n + 1) w .any (Run.renderProgram world₁ deep₁ p) (Run.renderProgram world₂ deep₂ q) := by
  obtain ⟨hbody, hslots⟩ := h
  have hrun : R (n + 1) w .any (Run.runProgram world₁ deep₁ p) (Run.runProgram world₂ deep₂ q) := by
    unfold Run.runProgram
    rw [← hbody, ← hslots]
    exact L.fresh hp fun w' _ frame hcode => L.forEffect (L.runBody D hcode)
  refine L.captured hrun fun w' _ rendered hrendered => ?_
  split
  · exact L.append hrendered
  · refine L.bind (L.defineContent hrendered) fun w'' _ _ _ => ?_
    exact L.includeTemplate D _ Value.only_null

/-- Whatever runs deeper is related, with as many levels left as are added to levels for which
nothing is claimed. -/
theorem levels {i j : Nat} (h : Levels T R 0 (Run.levels world₁ i) (Run.levels world₂ j))
    (n : Nat) :
    Levels T R n (Run.levels world₁ (i + n)) (Run.levels world₂ (j + n)) := by
  induction n with
  | zero => exact h
  | succ n ih => exact ⟨L.runBody ih, L.renderProgram ih⟩

theorem levels_of_outOfLevels
    (h : ∀ {w : W} {α : Type} {k : ResultKind α}, R 0 w k (outOfLevels : m₁ α) outOfLevels)
    (n : Nat) :
    Levels T R n (Run.levels world₁ n) (Run.levels world₂ n) := by
  have hn := L.levels (i := 0) (j := 0) ⟨fun _ => h, fun _ _ => h⟩ n
  rwa [Nat.zero_add] at hn

end LogicalRelation
end Run
end TextTemplate
