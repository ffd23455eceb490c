import TextTemplate.Proofs.Render.Simulation

/-! Runs with a limited number of steps. Every run ends: with the levels of nesting that the depth
limit leaves, each takes some number of steps, and further levels change nothing, as what needs them
is stopped by the limit first. -/

namespace TextTemplate

/-- Runs that take a step for each operation, with the number of steps that they may take. There is
no result if these are not enough. -/
def Fueled (σ α : Type) := Context σ → Nat → Option (Except Halt α × Context σ × Nat)

namespace Fueled

variable {σ α β : Type}

def step (r : Fueled σ α) : Fueled σ α
  | _, 0 => none
  | c, fuel + 1 => r c fuel

instance : MonadRender σ (Fueled σ) where
  pure a := step fun c fuel => some (.ok a, c, fuel)
  bind r f := step fun c fuel =>
    match r c fuel with
    | some (.ok a, c, fuel) => f a c fuel
    | some (.error h, c, fuel) => some (.error h, c, fuel)
    | none => none
  get f := step fun c fuel => some (.ok (f c), c, fuel)
  update f := step fun c fuel => some (.ok (), f c, fuel)
  halt h := step fun c fuel => some (.error h, c, fuel)
  attempt r := step fun c fuel =>
    match r c fuel with
    | some (a, c, fuel) => some (.ok a, c, fuel)
    | none => none

theorem bind_succ (r : Fueled σ α) (f : α → Fueled σ β) (c : Context σ) (fuel : Nat) :
    (r >>= f) c (fuel + 1) = match r c fuel with
      | some (.ok a, c, fuel) => f a c fuel
      | some (.error h, c, fuel) => some (.error h, c, fuel)
      | none => none := rfl

theorem attempt_succ (r : Fueled σ α) (c : Context σ) (fuel : Nat) :
    Run.attempt r c (fuel + 1) = match r c fuel with
      | some (a, c, fuel) => some (Except.ok a, c, fuel)
      | none => none := rfl

end Fueled

namespace Run

variable {σ α β : Type}

def Takes ⦃α : Type⦄ (x : Fueled σ α) (y : Run σ α) : Prop :=
  ∀ c, ∃ steps, ∀ fuel, x c (fuel + steps) = some ((y c).1, (y c).2, fuel)

namespace Takes

theorem bind {x : Fueled σ α} {y : Run σ α} {f : α → Fueled σ β} {g : α → Run σ β}
    (h : Takes x y) (hf : ∀ a, Takes (f a) (g a)) : Takes (x >>= f) (y >>= g) := by
  intro c
  obtain ⟨m, hm⟩ := h c
  rw [bind_apply]
  generalize y c = r at hm
  obtain ⟨e | a, c'⟩ := r
  · refine ⟨m + 1, fun fuel => ?_⟩
    rw [← Nat.add_assoc, Fueled.bind_succ, hm]
  · obtain ⟨k, hk⟩ := hf a c'
    refine ⟨k + m + 1, fun fuel => ?_⟩
    rw [← Nat.add_assoc, Fueled.bind_succ, ← Nat.add_assoc, hm]
    exact hk fuel

theorem get (f : Context σ → α) : Takes (get f) (get f) := fun _ => ⟨1, fun _ => rfl⟩

theorem update (f : Context σ → Context σ) : Takes (update f) (update f) :=
  fun _ => ⟨1, fun _ => rfl⟩

theorem halt (h : Halt) : Takes (halt h : Fueled σ α) (halt h) := fun _ => ⟨1, fun _ => rfl⟩

theorem attempt {x : Fueled σ α} {y : Run σ α} (h : Takes x y) : Takes (attempt x) (attempt y) := by
  intro c
  obtain ⟨m, hm⟩ := h c
  refine ⟨m + 1, fun fuel => ?_⟩
  rw [← Nat.add_assoc, Fueled.attempt_succ, hm]
  rfl

theorem holding {x : Fueled σ α} {y : Run σ α} (frame : Nat) (h : Takes x y) :
    Takes (holding frame x) (holding frame y) := by
  refine bind (get id) fun c => bind (update (Context.hold frame)) fun _ => ?_
  refine bind (attempt h) fun a => bind (update c.release) fun _ => ?_
  cases a with
  | ok a => exact get fun _ => a
  | error h => exact halt h

end Takes

theorem mirrors_takes : Mirrors (Takes (σ := σ)) where
  pure a := Takes.get fun _ => a
  bind := Takes.bind
  get := Takes.get
  update _ := Takes.update _
  halt := Takes.halt
  attempt := Takes.attempt
  load frame slot := Takes.get fun c => c.load frame slot
  store frame slot v := Takes.update fun c => c.store frame slot v
  holding := Takes.holding

def Same (P : Except Halt α → Context σ → Prop) (c : Context σ) (x y : Fueled σ α) : Prop :=
  ∀ fuel, x c fuel = y c fuel ∧ ∀ a c' left, x c fuel = some (a, c', left) → P a c'

namespace Same

variable {P : Except Halt α → Context σ → Prop} {Q : Except Halt β → Context σ → Prop}
  {c : Context σ}

theorem mono {P' : Except Halt α → Context σ → Prop} {x y : Fueled σ α} (h : Same P c x y)
    (hP : ∀ a c', P a c' → P' a c') : Same P' c x y :=
  fun fuel => ⟨(h fuel).1, fun a c' left hx => hP a c' ((h fuel).2 a c' left hx)⟩

theorem single {a : Except Halt α} {c' : Context σ} {x : Fueled σ α}
    (hx : ∀ fuel, x c fuel = match fuel with
      | 0 => none
      | fuel + 1 => some (a, c', fuel)) (h : P a c') : Same P c x x := by
  refine fun fuel => ⟨rfl, fun b d left hb => ?_⟩
  rw [hx] at hb
  cases fuel with
  | zero => cases hb
  | succ fuel =>
    cases hb
    exact h

theorem get {f : Context σ → α} (h : P (.ok (f c)) c) : Same P c (get f) (get f) :=
  single (fun fuel => by cases fuel <;> rfl) h

theorem update {P : Except Halt Unit → Context σ → Prop} {f : Context σ → Context σ}
    (h : P (.ok ()) (f c)) : Same P c (update f) (update f) :=
  single (fun fuel => by cases fuel <;> rfl) h

theorem halt {e : Halt} (h : P (.error e) c) : Same P c (halt e) (halt e) :=
  single (fun fuel => by cases fuel <;> rfl) h

theorem bind {x y : Fueled σ α} {f g : α → Fueled σ β} (h : Same P c x y)
    (hok : ∀ a c', P (.ok a) c' → Same Q c' (f a) (g a))
    (herror : ∀ e c', P (.error e) c' → Q (.error e) c') : Same Q c (x >>= f) (y >>= g) := by
  intro fuel
  cases fuel with
  | zero => exact ⟨rfl, fun _ _ _ h => nomatch h⟩
  | succ fuel =>
    obtain ⟨hxy, hP⟩ := h fuel
    rw [Fueled.bind_succ, Fueled.bind_succ, ← hxy]
    generalize x c fuel = r at hP
    obtain _ | ⟨e | a, c', left⟩ := r
    · exact ⟨rfl, fun _ _ _ h => nomatch h⟩
    · refine ⟨rfl, fun b d l hb => ?_⟩
      cases hb
      exact herror e c' (hP _ _ _ rfl)
    · exact hok a c' (hP _ _ _ rfl) left

theorem attempt {x y : Fueled σ α} {P : Except Halt (Except Halt α) → Context σ → Prop}
    (h : Same (fun a c' => P (.ok a) c') c x y) : Same P c (attempt x) (attempt y) := by
  intro fuel
  cases fuel with
  | zero => exact ⟨rfl, fun _ _ _ h => nomatch h⟩
  | succ fuel =>
    obtain ⟨hxy, hP⟩ := h fuel
    rw [Fueled.attempt_succ, Fueled.attempt_succ, ← hxy]
    generalize x c fuel = r at hP
    obtain _ | ⟨a, c', left⟩ := r
    · exact ⟨rfl, fun _ _ _ h => nomatch h⟩
    · refine ⟨rfl, fun b d l hb => ?_⟩
      cases hb
      exact hP a c' left rfl

theorem endAs {a : Except Halt α} (h : P a c) : Same P c (endAs a) (endAs a) := by
  cases a with
  | ok a => exact get (f := fun _ => a) h
  | error e => exact halt h

theorem get_bind {f : Context σ → α} {x y : α → Fueled σ β} (h : Same Q c (x (f c)) (y (f c))) :
    Same Q c (MonadRender.get f >>= x) (MonadRender.get f >>= y) := by
  refine bind (P := fun a c' => a = .ok (f c) ∧ c' = c) (get ⟨rfl, rfl⟩) ?_ fun _ _ h => nomatch h.1
  rintro _ _ ⟨⟨⟩, rfl⟩
  exact h

theorem update_bind {f : Context σ → Context σ} {x y : Fueled σ β} (h : Same Q (f c) x y) :
    Same Q c (MonadRender.update f >>= fun _ => x) (MonadRender.update f >>= fun _ => y) := by
  refine bind (P := fun a c' => a = .ok () ∧ c' = f c) (update ⟨rfl, rfl⟩) ?_
    fun _ _ h => nomatch h.1
  rintro _ _ ⟨-, rfl⟩
  exact h

theorem attempt_bind {x y : Fueled σ α} {f g : Except Halt α → Fueled σ β} (h : Same P c x y)
    (hf : ∀ a c', P a c' → Same Q c' (f a) (g a)) :
    Same Q c (MonadRender.attempt x >>= f) (MonadRender.attempt y >>= g) := by
  refine bind (P := fun b c' => ∃ a, b = .ok a ∧ P a c')
    (attempt (h.mono fun a c' ha => ⟨a, rfl, ha⟩)) ?_ fun _ _ ⟨_, h, _⟩ => nomatch h
  rintro a c' ⟨_, ⟨⟩, ha⟩
  exact hf a c' ha

theorem between {before : Context σ → Context σ} {after : Context σ → Context σ → Context σ}
    {x y : Fueled σ α} (h : Same (fun a c' => P a (after c c')) (before c) x y) :
    Same P c (between before after x) (between before after y) :=
  get_bind (update_bind (attempt_bind h fun _ _ ha => update_bind (endAs ha)))

end Same

structure Ends (c : Context σ) (a : Except Halt α) (c' : Context σ) : Prop where
  levels : a ≠ .error .outOfLevels
  depth : c'.depth = c.depth
  maxDepth : c'.maxDepth = c.maxDepth

theorem Ends.trans {c c' c'' : Context σ} {a : Except Halt α} {b : Except Halt β}
    (h : Ends c a c') (h' : Ends c' b c'') : Ends c b c'' :=
  ⟨h'.levels, h'.depth.trans h.depth, h'.maxDepth.trans h.maxDepth⟩

theorem Ends.error {c c' : Context σ} {e : Halt} (h : Ends c (.error e : Except Halt α) c') :
    Ends c (.error e : Except Halt β) c' :=
  ⟨fun he => h.levels (congrArg Except.error (Except.error.inj he)), h.depth, h.maxDepth⟩

/-- Within the depth limit, and where the limit leaves fewer than `n` levels, the runs are the same
and the levels do not run out. -/
def Steady (n : Nat) ⦃α : Type⦄ (x y : Fueled σ α) : Prop :=
  ∀ c : Context σ, c.depth ≤ c.maxDepth → c.maxDepth < c.depth + n → Same (Ends c) c x y

namespace Steady

variable {n : Nat}

theorem get (f : Context σ → α) : Steady n (get f) (get f) := fun _ _ _ =>
  Same.get ⟨(nomatch ·), rfl, rfl⟩

theorem update {f : Context σ → Context σ}
    (h : ∀ c, (f c).depth = c.depth ∧ (f c).maxDepth = c.maxDepth) :
    Steady n (update f) (update f) := fun c _ _ => Same.update ⟨(nomatch ·), (h c).1, (h c).2⟩

theorem fail (e : Error) : Steady n (fail e : Fueled σ α) (fail e) := fun _ _ _ =>
  Same.halt ⟨(nomatch ·), rfl, rfl⟩

theorem after {c c' : Context σ} {a : Except Halt α} {x y : Fueled σ β} (h : Steady n x y)
    (he : Ends c a c') (hc : c.depth ≤ c.maxDepth) (hn : c.maxDepth < c.depth + n) :
    Same (Ends c) c' x y := by
  refine (h c' ?_ ?_).mono fun _ _ => he.trans
  · rw [he.depth, he.maxDepth]
    exact hc
  · rw [he.depth, he.maxDepth]
    exact hn

theorem bind {x y : Fueled σ α} {f g : α → Fueled σ β} (h : Steady n x y)
    (hf : ∀ a, Steady n (f a) (g a)) : Steady n (x >>= f) (y >>= g) := fun c hc hn =>
  (h c hc hn).bind (fun a _ he => (hf a).after he hc hn) fun _ _ he => he.error

theorem inside {x y : Fueled σ α} (name : String) (h : Steady n x y) :
    Steady (n + 1) (inside name x) (inside name y) := by
  intro c hc hn
  refine Same.get_bind ?_
  simp only [id]
  split
  · exact Same.halt ⟨(nomatch ·), rfl, rfl⟩
  · rename_i hlt
    have hin := h { c with depth := c.depth + 1 } (Nat.not_le.1 hlt) (by simp only; omega)
    exact Same.between (hin.mono fun a c' he => ⟨he.levels, by simp [he.depth], he.maxDepth⟩)

theorem between {before : Context σ → Context σ} {after : Context σ → Context σ → Context σ}
    {x y : Fueled σ α} (h : Steady n x y)
    (hb : ∀ c, (before c).depth = c.depth ∧ (before c).maxDepth = c.maxDepth)
    (ha : ∀ c c', (after c c').depth = c'.depth ∧ (after c c').maxDepth = c'.maxDepth) :
    Steady n (between before after x) (between before after y) := by
  intro c hc hn
  obtain ⟨hdepth, hmax⟩ := hb c
  refine Same.between ((h (before c) ?_ ?_).mono fun a c' he => ?_)
  · rw [hdepth, hmax]
    exact hc
  · rw [hdepth, hmax]
    exact hn
  · exact ⟨he.levels, ((ha c c').1.trans he.depth).trans hdepth,
      ((ha c c').2.trans he.maxDepth).trans hmax⟩

theorem captured {x y : Fueled σ Unit} (h : Steady n x y) :
    Steady n (captured x) (captured y) := by
  intro c hc hn
  refine Same.get_bind (Same.update_bind (Same.attempt_bind (h c.aside hc hn) fun a c' he => ?_))
  refine Same.get_bind ?_
  cases a with
  | ok _ => exact Same.update_bind (Same.get (f := fun _ => _) ⟨(nomatch ·), he.depth, he.maxDepth⟩)
  | error e => exact Same.update_bind (Same.halt ⟨he.error.levels, he.depth, he.maxDepth⟩)

theorem withWorld (f : σ → Except Error α × σ) : Steady n (withWorld f) (withWorld f) := by
  refine bind (get _) fun s => bind (update fun _ => ⟨rfl, rfl⟩) fun _ => ?_
  cases (f s).1 with
  | ok a => exact get fun _ => a
  | error e => exact fail e

end Steady

theorem operations_steady (world : World σ) (n : Nat) :
    Operations world world (Steady (σ := σ) n) where
  pure a := Steady.get fun _ => a
  bind := Steady.bind
  self := Steady.get _
  extendMode := Steady.get _
  render := Steady.get _
  block _ := Steady.get _
  keeps _ := Steady.get _
  frameCount := Steady.get _
  load frame slot := Steady.get fun c => c.load frame slot
  store frame slot v := Steady.update (f := fun c => c.store frame slot v) fun _ => ⟨rfl, rfl⟩
  newFrame _ := Steady.update fun _ => ⟨rfl, rfl⟩
  append _ := Steady.update fun _ => ⟨rfl, rfl⟩
  print _ _ := Steady.update fun _ => ⟨rfl, rfl⟩
  define _ _ := Steady.update fun _ => ⟨rfl, rfl⟩
  requestLayout _ := Steady.update fun _ => ⟨rfl, rfl⟩
  defineContent _ := Steady.update fun _ => by split <;> exact ⟨rfl, rfl⟩
  withSelf _ h := Steady.between h (fun _ => ⟨rfl, rfl⟩) fun _ _ => ⟨rfl, rfl⟩
  holding {_ x y} frame h := by
    change Steady n (between (Context.hold frame) Context.release x)
      (between (Context.hold frame) Context.release y)
    exact Steady.between h (fun _ => ⟨rfl, rfl⟩) fun _ _ => ⟨rfl, rfl⟩
  captured := Steady.captured
  host _ _ := Steady.withWorld _
  template _ h := Steady.bind (Steady.withWorld _) fun p => h p p ⟨rfl, rfl⟩

theorem Steady.binding {n : Nat} (world : World σ) {x y : Fueled σ α} (frame : Nat)
    (params : List Nat) (args : List Value) (h : Steady n x y) :
    Steady n (binding frame params args x) (binding frame params args y) := by
  have S := Operations.sequential (operations_steady world)
  have hreplace (vs : List (Nat × Value)) :
      Steady n (replaceAll frame vs : Fueled σ _) (replaceAll frame vs) :=
    S.replaceAll (n := n) (w := ()) fun _ _ => ⟨trivial, fun _ _ => trivial⟩
  refine Steady.bind (hreplace _) fun olds c hc hn => ?_
  refine Same.attempt_bind (h c hc hn) fun a c' he => ?_
  have hback : Steady n (forEffect (replaceAll frame (params.zip olds)) : Fueled σ _)
      (forEffect (replaceAll frame (params.zip olds))) :=
    S.forEffect (n := n) (w := ()) (k := .any) (hreplace _)
  exact (hback.after he hc hn).bind
    (fun _ _ he' => Same.endAs ⟨he.levels, he'.depth, he'.maxDepth⟩)
    fun _ _ he' => he'.error

theorem logicalRelation_steady (world : World σ) :
    LogicalRelation Discipline.free world world (Unstaged (Steady (σ := σ))) :=
  Operations.logicalRelation (operations_steady world) Steady.fail Steady.inside
    (Steady.binding world)

theorem steady_levels (world : World σ) (n i j : Nat) :
    LogicalRelation.Levels Discipline.free (Unstaged Steady) n
      (levels (m := Fueled σ) world (i + n)) (levels world (j + n)) :=
  -- there is no context within the limit that leaves fewer than no levels
  (logicalRelation_steady world).levels
    ⟨fun _ _ hc hn => absurd hn (Nat.not_lt.2 hc), fun _ _ _ hc hn => absurd hn (Nat.not_lt.2 hc)⟩ n

theorem Same.eq_of_takes {P : Except Halt α → Context σ → Prop} {c : Context σ} {x x' : Fueled σ α}
    {y y' : Run σ α} (h : Same P c x x') (hx : Takes x y) (hx' : Takes x' y') :
    y c = y' c ∧ P (y c).1 (y c).2 := by
  obtain ⟨m, hm⟩ := hx c
  obtain ⟨m', hm'⟩ := hx' c
  obtain ⟨heq, hP⟩ := h (m' + m)
  refine ⟨?_, hP _ _ _ (hm m')⟩
  rw [hm, Nat.add_comm, hm'] at heq
  obtain ⟨h₁, h₂⟩ := Prod.mk.inj (Option.some.inj heq)
  exact Prod.ext h₁ (Prod.mk.inj h₂).1

end Run

namespace Context

variable {σ : Type}

def executing {m : Type → Type} [MonadRender σ m] (world : World σ) (p : Program) (self : Value)
    (levels : Nat) : m Unit :=
  Run.withSelf self (Run.renderProgram world (Run.levels world levels) p)

/-- Executes a program in a limited number of steps, and of levels of nesting whatever the depth
limit allows. There is no result if either runs out. -/
def executeWithin (world : World σ) (fuel : Nat) (c : Context σ) (p : Program) (self : Value) :
    Option (Except Error Unit × Context σ) :=
  match executing (m := Fueled σ) world p self fuel c fuel with
  | some (.ok (), c, _) => some (.ok (), c)
  | some (.error (.error e), c, _) => some (.error e, c)
  | some (.error .outOfLevels, _, _) => none
  | none => none

theorem same_executing (world : World σ) {c : Context σ} (hc : c.depth ≤ c.maxDepth) (p : Program)
    (self : Value) (i : Nat) :
    Run.Same (Run.Ends c) c (executing world p self (i + (c.maxDepth - c.depth)))
      (executing world p self (c.maxDepth - c.depth)) := by
  have hlevels := Run.steady_levels world (c.maxDepth - c.depth) i 0
  rw [Nat.zero_add] at hlevels
  have hrender := (Run.logicalRelation_steady world).renderProgram (w := ()) hlevels (p := p)
    ⟨rfl, rfl⟩ trivial
  exact (Run.operations_steady world _).withSelf self hrender c hc (by omega)

theorem takes_executing (world : World σ) (p : Program) (self : Value) (n : Nat) :
    Run.Takes (σ := σ) (executing world p self n) (executing world p self n) :=
  have S := Run.mirrors_takes.simulation world
  S.withSelf self (S.renderProgram (S.levels n) ⟨rfl, rfl⟩)

theorem executing_eq_execute (world : World σ) {c : Context σ} (hc : c.depth ≤ c.maxDepth)
    (p : Program) (self : Value) {n : Nat} (hn : c.maxDepth - c.depth ≤ n) :
    executing (m := Run σ) world p self n c =
      ((c.execute world p self).1.mapError .error, (c.execute world p self).2) := by
  obtain ⟨i, rfl⟩ := Nat.exists_eq_add_of_le' hn
  obtain ⟨heq, hends⟩ := (same_executing world hc p self i).eq_of_takes
    (takes_executing world p self _) (takes_executing world p self _)
  rw [heq] at hends ⊢
  unfold execute outcome
  rw [Run.leveled_apply, ← executing]
  generalize executing (m := Run σ) world p self (c.maxDepth - c.depth) c = r at hends
  obtain ⟨(e | _) | a, c'⟩ := r
  · rfl
  · exact absurd rfl hends.levels
  · rfl

/-- Every execution ends: from some number of steps on, all give the same result, which is that of
the execution without a limit on steps. -/
theorem execute_ends (world : World σ) (c : Context σ) (hc : c.depth ≤ c.maxDepth) (p : Program)
    (self : Value) :
    ∃ enough, ∀ fuel, enough ≤ fuel →
      c.executeWithin world fuel p self = some (c.execute world p self) := by
  generalize hk : c.maxDepth - c.depth = k
  obtain ⟨steps, hsteps⟩ := takes_executing world p self k c
  refine ⟨k + steps, fun fuel hfuel => ?_⟩
  obtain ⟨left, rfl⟩ := Nat.exists_eq_add_of_le' hfuel
  -- levels are left over, which change nothing, and steps are left over
  have hsame := (same_executing world hc p self (left + steps) (left + (k + steps))).1
  rw [hk, show left + steps + k = left + (k + steps) by omega, ← Nat.add_assoc left k steps,
    hsteps, executing_eq_execute world hc p self (Nat.le_of_eq hk)] at hsame
  unfold executeWithin
  rw [← Nat.add_assoc, hsame]
  generalize c.execute world p self = r
  obtain ⟨e | a, c'⟩ := r <;> rfl

def selfCalling : Program where
  name := "/t"
  body := [.expr (.assign 0 none (.lambda 0 [] [.expr (.call (.var 0) [])])),
    .expr (.call (.var 0) [])]
  slots := ["f"]

theorem self_calling_ends :
    let world : World Unit := ⟨fun name s => (.error (.templateNotFound name), s),
      fun _ _ s => (.ok .null, s)⟩
    let c := start { maxDepth := 3 } 0 .null ()
    c.depth ≤ c.maxDepth ∧
      (c.execute world selfCalling .null).1 = .error (.recursionLimit "lambda" 3) ∧
      (c.executeWithin world 20 selfCalling .null).isNone ∧
      ∃ enough, ∀ fuel, enough ≤ fuel →
        c.executeWithin world fuel selfCalling .null = some (c.execute world selfCalling .null) :=
  ⟨by decide, by decide +kernel, by decide +kernel, execute_ends _ _ (by decide) _ _⟩

end Context
end TextTemplate
