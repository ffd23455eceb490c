import TextTemplate.Proofs.Render.LogicalRelation

/-! Relations between the runs of two monads that each operation of the interpreter respects,
whatever variables it uses and however many levels are left. Every run respects such a relation. -/

namespace TextTemplate
namespace Run

variable {σ₁ σ₂ : Type} {m₁ m₂ : Type → Type} [MonadRender σ₁ m₁] [MonadRender σ₂ m₂]

/-- A relation between the runs of two monads that respect the operations of the interpreter, except
for those that nest or that go on after an early end. The surroundings may differ as long as they
load programs that are alike. -/
structure Operations (world₁ : World σ₁) (world₂ : World σ₂)
    (R : ⦃α : Type⦄ → m₁ α → m₂ α → Prop) : Prop where
  pure {α : Type} (a : α) : R (pure a) (pure a)
  bind {α β : Type} {x : m₁ α} {y : m₂ α} {f : α → m₁ β} {g : α → m₂ β} :
    R x y → (∀ a, R (f a) (g a)) → R (x >>= f) (y >>= g)
  self : R (get Context.self) (get Context.self)
  extendMode : R (get Context.extendMode) (get Context.extendMode)
  render : R (get Context.render) (get Context.render)
  block (name : String) : R (get fun c => c.block name) (get fun c => c.block name)
  keeps (f : FrameId) : R (get fun c => c.keeps f) (get fun c => c.keeps f)
  frameCount : R (get fun c => c.frames.size) (get fun c => c.frames.size)
  load (frame slot : Nat) : R (load frame slot) (load frame slot)
  store (frame slot : Nat) (v : Value) : R (store frame slot v) (store frame slot v)
  newFrame (slots : Nat) :
    R (update fun c => (c.newFrame slots).2) (update fun c => (c.newFrame slots).2)
  append (text : String) : R (update fun c => c.append text) (update fun c => c.append text)
  print (escape : Bool) (v : Value) :
    R (update fun c => c.print escape v) (update fun c => c.print escape v)
  define (name : String) (b : Block) :
    R (update fun c => c.define name b) (update fun c => c.define name b)
  requestLayout (layout : String) :
    R (update fun c => { c with pendingLayout := some layout })
      (update fun c => { c with pendingLayout := some layout })
  defineContent (text : String) :
    R (update fun c => if Text.isBlankText text && c.hasBlock defaultBlock then c
        else c.define defaultBlock (.text text))
      (update fun c => if Text.isBlankText text && c.hasBlock defaultBlock then c
        else c.define defaultBlock (.text text))
  withSelf {α : Type} {x : m₁ α} {y : m₂ α} (self : Value) :
    R x y → R (withSelf self x) (withSelf self y)
  holding {α : Type} {x : m₁ α} {y : m₂ α} (frame : Nat) :
    R x y → R (holding frame x) (holding frame y)
  captured {x : m₁ Unit} {y : m₂ Unit} : R x y → R (captured x) (captured y)
  host (f : HostFunction) (args : List Value) :
    R (withWorld (world₁.call f args)) (withWorld (world₂.call f args))
  template {α : Type} {f : Program → m₁ α} {g : Program → m₂ α} (name : String) :
    (∀ p q, p.Alike q → R (f p) (g q)) →
      R (withWorld (world₁.load name) >>= f) (withWorld (world₂.load name) >>= g)

structure Simulation (world₁ : World σ₁) (world₂ : World σ₂)
    (R : ⦃α : Type⦄ → m₁ α → m₂ α → Prop) : Prop extends Operations world₁ world₂ R where
  halt {α : Type} (h : Halt) : R (halt h : m₁ α) (halt h)
  attempt {α : Type} {x : m₁ α} {y : m₂ α} : R x y → R (attempt x) (attempt y)
  inside {α : Type} {x : m₁ α} {y : m₂ α} (name : String) :
    R x y → R (inside name x) (inside name y)

/-- A relation to the runs in another monad that any reading of the context respects, and every
change but those of what is under way. -/
structure Mirrors {σ : Type} {m : Type → Type} [MonadRender σ m]
    (R : ⦃α : Type⦄ → m α → Run σ α → Prop) : Prop where
  pure {α : Type} (a : α) : R (pure a) (pure a)
  bind {α β : Type} {x : m α} {y : Run σ α} {f : α → m β} {g : α → Run σ β} :
    R x y → (∀ a, R (f a) (g a)) → R (x >>= f) (y >>= g)
  get {α : Type} (f : Context σ → α) : R (get f) (get f)
  update {f : Context σ → Context σ} :
    (∀ c, (f c).render = c.render ∧ (f c).running = c.running) → R (update f) (update f)
  halt {α : Type} (h : Halt) : R (halt h : m α) (halt h)
  attempt {α : Type} {x : m α} {y : Run σ α} : R x y → R (attempt x) (attempt y)
  load (frame slot : Nat) : R (load frame slot) (load frame slot)
  store (frame slot : Nat) (v : Value) : R (store frame slot v) (store frame slot v)
  holding {α : Type} {x : m α} {y : Run σ α} (frame : Nat) :
    R x y → R (holding frame x) (holding frame y)

namespace Mirrors

variable {σ α : Type} {m : Type → Type} [MonadRender σ m] {R : ⦃α : Type⦄ → m α → Run σ α → Prop}
  (M : Mirrors R)
include M

theorem endAs (a : Except Halt α) : R (endAs a) (endAs a) := by
  cases a with
  | ok a => exact M.pure a
  | error h => exact M.halt h

theorem between {before : Context σ → Context σ} {after : Context σ → Context σ → Context σ}
    {x : m α} {y : Run σ α}
    (hbefore : ∀ c, (before c).render = c.render ∧ (before c).running = c.running)
    (hafter : ∀ c c', (after c c').render = c'.render ∧ (after c c').running = c'.running)
    (h : R x y) : R (between before after x) (between before after y) :=
  M.bind (M.get id) fun c => M.bind (M.update hbefore) fun _ => M.bind (M.attempt h) fun a =>
    M.bind (M.update (hafter c)) fun _ => M.endAs a

theorem inside {x : m α} {y : Run σ α} (name : String) (h : R x y) :
    R (inside name x) (inside name y) := by
  refine M.bind (M.get id) fun c => ?_
  split
  · exact M.halt _
  · exact M.between (fun _ => ⟨rfl, rfl⟩) (fun _ _ => ⟨rfl, rfl⟩) h

theorem captured {x : m Unit} {y : Run σ Unit} (h : R x y) : R (captured x) (captured y) := by
  refine M.bind (M.get id) fun c => M.bind (M.update fun _ => ⟨rfl, rfl⟩) fun _ => ?_
  refine M.bind (M.attempt h) fun a => M.bind (M.get _) fun rendered => ?_
  cases a with
  | ok _ => exact M.bind (M.update fun _ => ⟨rfl, rfl⟩) fun _ => M.pure rendered
  | error h => exact M.bind (M.update fun _ => ⟨rfl, rfl⟩) fun _ => M.halt h

theorem withWorld (f : σ → Except Error α × σ) : R (withWorld f) (withWorld f) := by
  refine M.bind (M.get _) fun s => M.bind (M.update fun _ => ⟨rfl, rfl⟩) fun _ => ?_
  cases (f s).1 with
  | ok a => exact M.pure a
  | error e => exact M.halt _

theorem simulation (world : World σ) : Simulation world world R where
  pure := M.pure
  bind := M.bind
  halt := M.halt
  attempt := M.attempt
  self := M.get _
  extendMode := M.get _
  render := M.get _
  block _ := M.get _
  keeps _ := M.get _
  frameCount := M.get _
  load := M.load
  store := M.store
  newFrame _ := M.update fun _ => ⟨rfl, rfl⟩
  append _ := M.update fun _ => ⟨rfl, rfl⟩
  print _ _ := M.update fun _ => ⟨rfl, rfl⟩
  define _ _ := M.update fun _ => ⟨rfl, rfl⟩
  requestLayout _ := M.update fun _ => ⟨rfl, rfl⟩
  defineContent _ := M.update fun _ => by split <;> exact ⟨rfl, rfl⟩
  inside := M.inside
  withSelf _ := M.between (fun _ => ⟨rfl, rfl⟩) fun _ _ => ⟨rfl, rfl⟩
  holding := M.holding
  captured := M.captured
  host _ _ := M.withWorld _
  template _ h := M.bind (M.withWorld _) fun p => h p p ⟨rfl, rfl⟩

end Mirrors

abbrev Unstaged (R : Nat → ⦃α : Type⦄ → m₁ α → m₂ α → Prop) (n : Nat) (_ : Unit) ⦃α : Type⦄
    (_ : ResultKind α) (x : m₁ α) (y : m₂ α) : Prop :=
  R n x y

namespace Operations

variable {world₁ : World σ₁} {world₂ : World σ₂} {R : Nat → ⦃α : Type⦄ → m₁ α → m₂ α → Prop}

theorem sequential (S : ∀ n, Operations world₁ world₂ (R n)) :
    Sequential Discipline.free (Unstaged R) where
  pure _ := (S _).pure _
  bind h hf :=
    (S _).bind h fun a => hf () le_rfl a (ResultKind.only_of_forall (fun _ => trivial) _ a)
  load _ := (S _).load ..
  store _ _ := (S _).store ..

theorem logicalRelation (S : ∀ n, Operations world₁ world₂ (R n))
    (fail : ∀ {n : Nat} {α : Type} (e : Error), R n (fail e : m₁ α) (fail e))
    (inside : ∀ {n : Nat} {α : Type} {x : m₁ α} {y : m₂ α} (name : String), R n x y →
      R (n + 1) (inside name x) (inside name y))
    (binding : ∀ {n : Nat} {α : Type} {x : m₁ α} {y : m₂ α} (frame : Nat) (params : List Nat)
      (args : List Value), R n x y →
        R n (binding frame params args x) (binding frame params args y)) :
    LogicalRelation Discipline.free world₁ world₂ (Unstaged R) where
  toSequential := sequential S
  fail := fail
  self := (S _).self
  extendMode := (S _).extendMode
  append _ := (S _).append _
  print v _ := (S _).print _ v
  define name _ := (S _).define name _
  requestLayout := (S _).requestLayout
  defineContent _ := (S _).defineContent _
  block name htext hcompiled := (S _).bind ((S _).block name) fun b => by
    cases b with
    | compiled body frame => exact hcompiled () le_rfl body frame (Discipline.free_code body)
    | text content => exact htext () le_rfl content trivial
  lambda _ _ := (S _).bind (S _).render fun _ => (S _).pure _
  keeps _ hgone hkept := (S _).bind ((S _).keeps _) fun kept => by
    cases kept with
    | false => exact hgone () le_rfl
    | true => exact hkept () le_rfl (fun _ _ => trivial) (Discipline.free_code _)
  fresh _ h := (S _).bind (S _).frameCount fun frame =>
    (S _).bind ((S _).newFrame _) fun _ => h () le_rfl frame (Discipline.free_code _)
  inside := inside
  withSelf _ := (S _).withSelf _
  holding := (S _).holding
  captured h hf := (S _).bind ((S _).captured h) fun rendered => hf () le_rfl rendered trivial
  binding _ _ h := binding _ _ _ (h () le_rfl)
  host f args _ := (S _).host f args
  template name h := (S _).template name fun p q halike => h () le_rfl p q halike trivial

end Operations

namespace Simulation

variable {world₁ : World σ₁} {world₂ : World σ₂} {R : ⦃α : Type⦄ → m₁ α → m₂ α → Prop}
  {deep₁ : Deep m₁} {deep₂ : Deep m₂}

abbrev Levels (R : ⦃α : Type⦄ → m₁ α → m₂ α → Prop) (deep₁ : Deep m₁) (deep₂ : Deep m₂) : Prop :=
  LogicalRelation.Levels Discipline.free (Unstaged fun _ => R) 0 deep₁ deep₂

variable (S : Simulation world₁ world₂ R)
include S

theorem logicalRelation :
    LogicalRelation Discipline.free world₁ world₂ (Unstaged fun _ => R) :=
  Operations.logicalRelation (fun _ => S.toOperations) (fun _ => S.halt _) S.inside
    fun _ _ _ h => (Operations.sequential fun _ => S.toOperations).binding_of_attempt (n := 0)
      (w := ()) (k := .any) S.attempt S.halt (fun _ _ => trivial) (fun _ _ _ _ => trivial)
      fun _ _ => h

theorem includeTemplate (D : Levels R deep₁ deep₂) (name : String) (argument : Value) :
    R (Run.includeTemplate world₁ deep₁ name argument)
      (Run.includeTemplate world₂ deep₂ name argument) :=
  S.logicalRelation.includeTemplate (w := ()) D name fun _ _ => trivial

theorem extend (D : Levels R deep₁ deep₂) (layout : String) :
    R (Run.extend world₁ deep₁ layout) (Run.extend world₂ deep₂ layout) :=
  S.logicalRelation.extend (w := ()) D layout

theorem callBlock (D : Levels R deep₁ deep₂) (name : String) :
    R (Run.callBlock deep₁ name) (Run.callBlock deep₂ name) :=
  S.logicalRelation.callBlock (w := ()) D name

theorem call (D : Levels R deep₁ deep₂) (callee : Value) (args : List Value) :
    R (Run.call world₁ deep₁ callee args) (Run.call world₂ deep₂ callee args) :=
  S.logicalRelation.call (w := ()) D (fun _ _ => trivial) fun _ _ _ _ => trivial

theorem execAll (D : Levels R deep₁ deep₂) (frame : Nat) (last : Value) (ss : List SlotStmt) :
    R (Run.execAll world₁ deep₁ frame last ss) (Run.execAll world₂ deep₂ frame last ss) :=
  S.logicalRelation.execAll D last ss (Discipline.free_code ss) () le_rfl
    fun _ _ => trivial

theorem renderProgram (D : Levels R deep₁ deep₂) {p q : Program} (h : p.Alike q) :
    R (Run.renderProgram world₁ deep₁ p) (Run.renderProgram world₂ deep₂ q) :=
  S.logicalRelation.renderProgram (w := ()) D h trivial

theorem levels (n : Nat) : Levels R (Run.levels world₁ n) (Run.levels world₂ n) := by
  have hn := S.logicalRelation.levels_of_outOfLevels (S.halt _) n
  -- the relation does not depend on the number of levels left
  exact ⟨hn.body, fun h => hn.program (w := ()) h⟩

end Simulation
end Run
end TextTemplate
