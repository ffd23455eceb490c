import TextTemplate.Render.Context

/-! Computations on a context that may end early. One that does leaves the context as it was then.
They are written against `MonadRender`, so that one text can be run for its outcome and can also be
watched while it runs. -/

namespace TextTemplate

inductive Halt where
  | error (e : Error)
  | outOfLevels
  deriving Repr, DecidableEq

/-- The monads in which templates can be rendered. To read and write variables and to have them in
use are operations of their own, so that they can be told from other uses of the context. -/
class MonadRender (σ : outParam Type) (m : Type → Type) extends Monad m where
  get {α : Type} (f : Context σ → α) : m α
  update (f : Context σ → Context σ) : m Unit
  halt {α : Type} (h : Halt) : m α
  attempt {α : Type} (r : m α) : m (Except Halt α)
  load (frame slot : Nat) : m Value := get fun c => c.load frame slot
  store (frame slot : Nat) (v : Value) : m Unit := update fun c => c.store frame slot v
  holding {α : Type} (frame : Nat) (r : m α) : m α := do
    let c ← get id
    update (Context.hold frame)
    let a ← attempt r
    update c.release
    match a with
    | .ok a => pure a
    | .error h => halt h

abbrev Run (σ : Type) := ExceptT Halt (StateM (Context σ))

instance {σ : Type} : MonadRender σ (Run σ) where
  get f := fun c => (.ok (f c), c)
  update f := fun c => (.ok (), f c)
  halt h := fun c => (.error h, c)
  attempt r := fun c =>
    let (a, c) := r c
    (.ok a, c)

namespace Run

export MonadRender (get update halt attempt load store holding)

variable {σ α : Type} {m : Type → Type} [MonadRender σ m]

def fail (e : Error) : m α := halt (.error e)

def outOfLevels : m α := halt .outOfLevels

def ofExcept : Except Error α → m α
  | .ok a => pure a
  | .error e => fail e

def endAs : Except Halt α → m α
  | .ok a => pure a
  | .error h => halt h

def forEffect (r : m α) : m Unit := do
  let _ ← r
  pure ()

def withWorld (f : σ → Except Error α × σ) : m α := do
  let (a, world) := f (← get Context.world)
  update fun c => { c with world }
  ofExcept a

/-- Runs `r` between two changes of the context; the second is made whether `r` succeeds or not,
and knows the context before the first. -/
def between (before : Context σ → Context σ) (after : Context σ → Context σ → Context σ)
    (r : m α) : m α := do
  let c ← get id
  update before
  let a ← attempt r
  update (after c)
  endAs a

def inside (name : String) (r : m α) : m α := do
  let c ← get id
  if c.maxDepth ≤ c.depth then fail (.recursionLimit name c.maxDepth)
  else
    between (fun c => { c with depth := c.depth + 1 })
      (fun _ c' => { c' with depth := c'.depth - 1 }) r

def withSelf (self : Value) (r : m α) : m α :=
  between (fun c => { c with self }) (fun c c' => { c' with self := c.self }) r

structure Rendered where
  text : String
  layout : Option String

/-- Runs `r` as a template of its own: what it prints is set aside, and a layout that it asks for
is not that of the template around it. If it fails, what it printed stays printed. -/
def captured (r : m Unit) : m Rendered := do
  let c ← get id
  update Context.aside
  let result ← attempt r
  let rendered ← get fun c' => ⟨c'.output, c'.pendingLayout⟩
  match result with
  | .ok () =>
    update c.resume
    pure rendered
  | .error h =>
    -- what was printed before the failure stays printed
    update fun c' => (c.resume c').append c'.output
    halt h

def replaceAll (frame : Nat) : List (Nat × Value) → m (List Value)
  | [] => pure []
  | (slot, v) :: rest => do
    let old ← load frame slot
    store frame slot v
    let olds ← replaceAll frame rest
    pure (old :: olds)

def binding (frame : Nat) (params : List Nat) (args : List Value) (r : m α) : m α := do
  let olds ← replaceAll frame (params.zip args)
  let a ← attempt r
  forEffect (replaceAll frame (params.zip olds))
  endAs a

def forEach (f : Value → m Unit) : List Value → m Unit
  | [] => pure ()
  | v :: vs => do
    f v
    forEach f vs

section

variable {β : Type}

theorem pure_apply (a : α) (c : Context σ) : (pure a : Run σ α) c = (.ok a, c) := rfl

theorem bind_apply {S : Type} (r : ExceptT Halt (StateM S) α) (f : α → ExceptT Halt (StateM S) β)
    (s : S) :
    (r >>= f) s = match r s with
      | (.ok a, s') => f a s'
      | (.error h, s') => (.error h, s') := by
  show (match r s with | (a, s) => ExceptT.bindCont f a s) = _
  rcases r s with ⟨_ | a, s'⟩ <;> rfl

theorem get_apply (f : Context σ → α) (c : Context σ) : (get f : Run σ α) c = (.ok (f c), c) := rfl

theorem update_apply (f : Context σ → Context σ) (c : Context σ) :
    (update f : Run σ Unit) c = (.ok (), f c) := rfl

theorem attempt_apply (r : Run σ α) (c : Context σ) : attempt r c = (.ok (r c).1, (r c).2) := rfl

theorem endAs_apply (a : Except Halt α) (c : Context σ) : (endAs a : Run σ α) c = (a, c) := by
  cases a <;> rfl

theorem withWorld_apply (f : σ → Except Error α × σ) (c : Context σ) :
    (withWorld f : Run σ α) c =
      ((f c.world).1.mapError .error, { c with world := (f c.world).2 }) := by
  simp only [withWorld, bind_apply, get_apply, update_apply]
  cases (f c.world).1 <;> rfl

theorem between_apply (before : Context σ → Context σ) (after : Context σ → Context σ → Context σ)
    (r : Run σ α) (c : Context σ) :
    between before after r c = ((r (before c)).1, after c (r (before c)).2) := by
  simp only [between, bind_apply, get_apply, update_apply, attempt_apply, endAs_apply, id]

theorem holding_eq_between (frame : Nat) (r : Run σ α) :
    holding frame r = between (Context.hold frame) Context.release r := rfl

theorem holding_apply (frame : Nat) (r : Run σ α) (c : Context σ) :
    holding frame r c = ((r (c.hold frame)).1, c.release (r (c.hold frame)).2) := by
  rw [holding_eq_between, between_apply]

theorem inside_apply (name : String) (r : Run σ α) (c : Context σ) :
    inside name r c =
      if c.maxDepth ≤ c.depth then (.error (.error (.recursionLimit name c.maxDepth)), c)
      else
        ((r { c with depth := c.depth + 1 }).1,
          { (r { c with depth := c.depth + 1 }).2 with
            depth := (r { c with depth := c.depth + 1 }).2.depth - 1 }) := by
  simp only [inside, bind_apply, get_apply, id]
  split
  · rfl
  · simp only [between_apply]

theorem inside_eq (name : String) (r : Run σ α) :
    inside name r = (get fun c => (c.maxDepth, c.depth)) >>= fun levels =>
      if levels.1 ≤ levels.2 then fail (.recursionLimit name levels.1)
      else
        between (fun c => { c with depth := c.depth + 1 })
          (fun _ c' => { c' with depth := c'.depth - 1 }) r := rfl

theorem captured_apply (r : Run σ Unit) (c : Context σ) :
    captured r c =
      match r c.aside with
      | (.ok (), c') => (.ok ⟨c'.output, c'.pendingLayout⟩, c.resume c')
      | (.error h, c') => (.error h, (c.resume c').append c'.output) := by
  simp only [captured, bind_apply, get_apply, update_apply, attempt_apply, id]
  rcases r c.aside with ⟨_ | a, c'⟩ <;> rfl

end

end Run
end TextTemplate
