import TextTemplate.Engine
import TextTemplate.Proofs.Render.Steps

/-! Raising the depth limit. Until it hits its limit, a run goes as it does under a higher one:
nothing else looks at the depth. -/

namespace TextTemplate

def Context.raise {σ : Type} (lift : σ → σ) (limit : Nat) (c : Context σ) : Context σ :=
  { c with maxDepth := limit, world := lift c.world }

namespace Run

variable {σ α β : Type} {lift : σ → σ} {m m' : Nat}

def HitsLimit (a : Except Halt α) : Prop :=
  ∃ entered limit, a = .error (.error (.recursionLimit entered limit))

theorem HitsLimit.error {h : Halt} (hh : HitsLimit (.error h : Except Halt α)) :
    HitsLimit (.error h : Except Halt β) := by
  obtain ⟨entered, limit, hlimit⟩ := hh
  exact ⟨entered, limit, congrArg Except.error (Except.error.inj hlimit)⟩

/-- Under the limit `m` the run `x` hits its limit, or does what `y` does under `m'`. -/
def Raised (lift : σ → σ) (m m' : Nat) ⦃α : Type⦄ (x y : Run σ α) : Prop :=
  ∀ c : Context σ, c.maxDepth = m → HitsLimit (x c).1 ∨
    y (c.raise lift m') = ((x c).1, (x c).2.raise lift m') ∧ (x c).2.maxDepth = m

namespace Raised

theorem get {f : Context σ → α} (hf : ∀ c, f (c.raise lift m') = f c) :
    Raised lift m m' (get f) (get f) := fun c hc =>
  .inr ⟨by rw [get_apply, get_apply, hf], hc⟩

theorem update {f : Context σ → Context σ}
    (hf : ∀ c, f (c.raise lift m') = (f c).raise lift m')
    (hm : ∀ c, (f c).maxDepth = c.maxDepth) : Raised lift m m' (update f) (update f) := fun c hc =>
  .inr ⟨by rw [update_apply, update_apply, hf], (hm c).trans hc⟩

theorem halt (h : Halt) : Raised lift m m' (halt h : Run σ α) (halt h) := fun _ hc =>
  .inr ⟨rfl, hc⟩

theorem bind {x y : Run σ α} {f g : α → Run σ β} (h : Raised lift m m' x y)
    (hf : ∀ a, Raised lift m m' (f a) (g a)) : Raised lift m m' (x >>= f) (y >>= g) := by
  intro c hc
  have hx := h c hc
  rw [bind_apply, bind_apply]
  generalize x c = r at hx
  obtain ⟨e | a, c'⟩ := r
  · refine hx.imp HitsLimit.error fun ⟨hy, hm⟩ => ?_
    rw [hy]
    exact ⟨rfl, hm⟩
  · obtain ⟨_, _, hlimit⟩ | ⟨hy, hm⟩ := hx
    · cases hlimit
    · rw [hy]
      exact hf a c' hm

theorem attempt_bind {x y : Run σ α} {f g : Except Halt α → Run σ β} (h : Raised lift m m' x y)
    (hf : ∀ a, Raised lift m m' (f a) (g a))
    (hhit : ∀ a, HitsLimit a → ∀ c, HitsLimit (f a c).1) :
    Raised lift m m' (attempt x >>= f) (attempt y >>= g) := by
  intro c hc
  rw [bind_apply, bind_apply, attempt_apply, attempt_apply]
  obtain hlimit | ⟨hy, hm⟩ := h c hc
  · exact .inl (hhit _ hlimit _)
  · rw [hy]
    exact hf _ _ hm

theorem endAs (a : Except Halt α) : Raised lift m m' (endAs a) (endAs a) := by
  cases a with
  | ok a => exact get fun _ => rfl
  | error h => exact halt h

theorem between {before : Context σ → Context σ} {after : Context σ → Context σ → Context σ}
    {x y : Run σ α} (h : Raised lift m m' x y)
    (hb : ∀ c, before (c.raise lift m') = (before c).raise lift m')
    (hm : ∀ c, (before c).maxDepth = c.maxDepth)
    (ha : ∀ c c', after (c.raise lift m') (c'.raise lift m') = (after c c').raise lift m')
    (hm' : ∀ c c', (after c c').maxDepth = c'.maxDepth) :
    Raised lift m m' (between before after x) (between before after y) := by
  intro c hc
  rw [between_apply, between_apply, hb]
  refine (h (before c) ((hm c).trans hc)).imp_right fun ⟨hy, hx⟩ => ?_
  rw [hy, ha]
  exact ⟨rfl, (hm' _ _).trans hx⟩

theorem inside (hle : m ≤ m') {x y : Run σ α} (name : String) (h : Raised lift m m' x y) :
    Raised lift m m' (inside name x) (inside name y) := by
  intro c hc
  rw [inside_apply, inside_apply]
  by_cases hd : c.maxDepth ≤ c.depth
  · rw [if_pos hd]
    exact .inl ⟨_, _, rfl⟩
  · have hd' : ¬ (c.raise lift m').maxDepth ≤ (c.raise lift m').depth := fun h =>
      hd (hc ▸ Nat.le_trans hle h)
    rw [if_neg hd, if_neg hd']
    refine (h { c with depth := c.depth + 1 } hc).imp_right fun ⟨hy, hx⟩ => ?_
    change y { c.raise lift m' with depth := (c.raise lift m').depth + 1 } = _ at hy
    rw [hy]
    exact ⟨rfl, hx⟩

theorem captured {x y : Run σ Unit} (h : Raised lift m m' x y) :
    Raised lift m m' (captured x) (captured y) := by
  intro c hc
  have hx := h c.aside hc
  change _ ∨ y (c.raise lift m').aside = _ ∧ _ at hx
  rw [captured_apply, captured_apply]
  generalize x c.aside = r at hx
  obtain ⟨e | ⟨⟩, c'⟩ := r
  · refine hx.imp HitsLimit.error fun ⟨hy, hm⟩ => ?_
    rw [hy]
    exact ⟨rfl, hm⟩
  · obtain ⟨_, _, hlimit⟩ | ⟨hy, hm⟩ := hx
    · cases hlimit
    · rw [hy]
      exact .inr ⟨rfl, hm⟩

theorem withWorld {f : σ → Except Error α × σ} (hf : ∀ s, f (lift s) = ((f s).1, lift (f s).2)) :
    Raised lift m m' (withWorld f) (withWorld f) := by
  refine fun c hc => .inr ⟨?_, ?_⟩
  · rw [withWorld_apply, withWorld_apply, show (c.raise lift m').world = lift c.world from rfl, hf]
    rfl
  · rw [withWorld_apply]
    exact hc

end Raised

structure Lifts (world : World σ) (lift : σ → σ) : Prop where
  load (name : String) (s : σ) :
    world.load name (lift s) = ((world.load name s).1, lift (world.load name s).2)
  call (f : HostFunction) (args : List Value) (s : σ) :
    world.call f args (lift s) = ((world.call f args s).1, lift (world.call f args s).2)

theorem operations_raised {world : World σ} (hworld : Lifts world lift) (m m' : Nat) :
    Operations world world (Raised lift m m') where
  pure a := Raised.get (f := fun _ => a) fun _ => rfl
  bind := Raised.bind
  self := Raised.get fun _ => rfl
  extendMode := Raised.get fun _ => rfl
  render := Raised.get fun _ => rfl
  block _ := Raised.get fun _ => rfl
  keeps _ := Raised.get fun _ => rfl
  frameCount := Raised.get fun _ => rfl
  load _ _ := Raised.get fun _ => rfl
  store _ _ _ := Raised.update (fun _ => rfl) fun _ => rfl
  newFrame _ := Raised.update (fun _ => rfl) fun _ => rfl
  append _ := Raised.update (fun _ => rfl) fun _ => rfl
  print _ _ := Raised.update (fun _ => rfl) fun _ => rfl
  define _ _ := Raised.update (fun _ => rfl) fun _ => rfl
  requestLayout _ := Raised.update (fun _ => rfl) fun _ => rfl
  defineContent text := by
    refine Raised.update (fun c => ?_) fun c => ?_
    · show (if Text.isBlankText text && c.hasBlock defaultBlock then _ else _) = _
      split <;> rfl
    · split <;> rfl
  withSelf _ h := Raised.between h (fun _ => rfl) (fun _ => rfl) (fun _ _ => rfl) fun _ _ => rfl
  holding _ h := by
    rw [holding_eq_between, holding_eq_between]
    exact Raised.between h (fun _ => rfl) (fun _ => rfl) (fun _ _ => rfl) fun _ _ => rfl
  captured := Raised.captured
  host f args := Raised.withWorld (hworld.call f args)
  template name h := Raised.bind (Raised.withWorld (hworld.load name)) fun p => h p p ⟨rfl, rfl⟩

theorem replaceAll_apply (frame : Nat) (vs : List (Nat × Value)) (c : Context σ) :
    ∃ olds c', (replaceAll frame vs : Run σ _) c = (.ok olds, c') := by
  induction vs generalizing c with
  | nil => exact ⟨[], c, rfl⟩
  | cons v vs ih =>
    obtain ⟨olds, c', h⟩ := ih (c.store frame v.1 v.2)
    refine ⟨c.load frame v.1 :: olds, c', ?_⟩
    show ((replaceAll frame vs >>= fun olds => pure (c.load frame v.1 :: olds) : Run σ _)
      (c.store frame v.1 v.2)) = _
    rw [bind_apply, h]
    rfl

theorem Raised.binding {world : World σ} (hworld : Lifts world lift) {x y : Run σ α} (frame : Nat)
    (params : List Nat) (args : List Value) (h : Raised lift m m' x y) :
    Raised lift m m' (binding frame params args x) (binding frame params args y) := by
  have S := Operations.sequential fun _ => operations_raised hworld m m'
  have hreplace (vs : List (Nat × Value)) :
      Raised lift m m' (replaceAll frame vs : Run σ _) (replaceAll frame vs) :=
    S.replaceAll (n := 0) (w := ()) fun _ _ => ⟨trivial, fun _ _ => trivial⟩
  refine Raised.bind (hreplace _) fun olds => h.attempt_bind (fun a => ?_) fun a hhit c => ?_
  · exact Raised.bind (S.forEffect (n := 0) (w := ()) (k := .any) (hreplace _)) fun _ => .endAs a
  · -- the old values are put back whatever happens
    obtain ⟨olds', c', hback⟩ := replaceAll_apply frame (params.zip olds) c
    rw [bind_apply, forEffect, bind_apply, hback]
    show HitsLimit ((Run.endAs a : Run σ _) c').1
    rw [endAs_apply]
    exact hhit

theorem logicalRelation_raised {world : World σ} (hworld : Lifts world lift) (hle : m ≤ m') :
    LogicalRelation Discipline.free world world (Unstaged fun _ => Raised lift m m') :=
  Operations.logicalRelation (fun _ => operations_raised hworld m m') (fun _ => Raised.halt _)
    (Raised.inside hle) (Raised.binding hworld)

end Run

theorem Halt.mapError_inj {α : Type} {a b : Except Error α}
    (h : a.mapError Halt.error = b.mapError Halt.error) : a = b := by
  cases a <;> cases b <;> cases h <;> rfl

namespace Context

variable {σ : Type} {lift : σ → σ}

theorem execute_raise {world : World σ} (hworld : Run.Lifts world lift) {c : Context σ}
    (hc : c.depth ≤ c.maxDepth) {m' : Nat} (hle : c.maxDepth ≤ m') (p : Program) (self : Value) :
    (∃ entered limit, (c.execute world p self).1 = .error (.recursionLimit entered limit)) ∨
      (c.raise lift m').execute world p self =
        ((c.execute world p self).1, (c.execute world p self).2.raise lift m') := by
  have L := Run.logicalRelation_raised (m := c.maxDepth) hworld hle
  have D := L.levels_of_outOfLevels (Run.Raised.halt _) (m' - c.depth)
  have hraised : Run.Raised lift c.maxDepth m' (executing world p self (m' - c.depth))
      (executing (m := Run σ) world p self (m' - c.depth)) :=
    (Run.operations_raised hworld _ _).withSelf self
      (L.renderProgram (w := ()) D (p := p) ⟨rfl, rfl⟩ trivial)
  have hrun := hraised c rfl
  -- both executions have levels enough
  have hraise := executing_eq_execute world (c := c.raise lift m') (Nat.le_trans hc hle) p self
    (n := m' - c.depth) (Nat.le_refl _)
  rw [executing_eq_execute world hc p self (Nat.sub_le_sub_right hle _), hraise] at hrun
  obtain ⟨entered, limit, hlimit⟩ | ⟨heq, -⟩ := hrun
  · exact .inl ⟨entered, limit, Halt.mapError_inj hlimit⟩
  · obtain ⟨hresult, hcontext⟩ := Prod.mk.inj heq
    exact .inr (Prod.ext (Halt.mapError_inj hresult) hcontext)

end Context

def Engine.withMaxDepth (limit : Nat) (e : Engine) : Engine :=
  { e with options := { e.options with maxDepth := limit } }

theorem Engine.get_withMaxDepth (limit : Nat) (e : Engine) (name : String) :
    (e.withMaxDepth limit).get name =
      ((e.get name).1, (e.get name).2.withMaxDepth limit) := by
  have hload : (e.withMaxDepth limit).load name =
      ((e.load name).1, (e.load name).2.withMaxDepth limit) := by
    simp only [load, withMaxDepth, templateName, compile]
    cases e.library.resolve (TemplateDirectory.withExtension e.options.ext name) with
    | error err => rfl
    | ok resource =>
      dsimp only
      cases TextTemplate.compile e.delimiters
        (TemplateDirectory.withExtension e.options.ext name) resource.source with
      | error err => rfl
      | ok p =>
        by_cases hcache : e.options.cache <;> simp [hcache]
  unfold get
  rw [hload, show (e.withMaxDepth limit).key name = e.key name from rfl,
    show (e.withMaxDepth limit).options.cache = e.options.cache from rfl,
    show (e.withMaxDepth limit).cache = e.cache from rfl]
  split
  · cases e.key name with
    | error err => rfl
    | ok key =>
      dsimp only
      cases e.cache.find? key <;> rfl
  · rfl

theorem Engine.get_options (e : Engine) (name : String) : (e.get name).2.options = e.options := by
  have hload : (e.load name).2.options = e.options := by
    unfold load
    dsimp only
    split
    · rfl
    split
    · rfl
    dsimp only
    split <;> rfl
  unfold get
  split
  · split
    · rfl
    split
    · rfl
    · exact hload
  · exact hload

namespace Session

def withMaxDepth (limit : Nat) (s : Session) : Session :=
  s.mapEngine (Engine.withMaxDepth limit)

theorem lifts_withMaxDepth (limit : Nat) : Run.Lifts world (withMaxDepth limit) where
  load name s := by
    have hget := Engine.get_withMaxDepth limit s.engine name
    refine Prod.ext ?_ ?_
    · show ((s.engine.withMaxDepth limit).get name).1 = (s.engine.get name).1
      rw [hget]
    · show ({ s.withMaxDepth limit with engine := ((s.engine.withMaxDepth limit).get name).2 } :
        Session) = _
      rw [hget]
      rfl
  call _ _ _ := rfl

def HitsLimit (r : Except Error String) : Prop :=
  ∃ entered limit, r = .error (.recursionLimit entered limit)

variable {limit : Nat} {s : Session}

theorem run_withMaxDepth (h : s.engine.options.maxDepth ≤ limit) (p : Program) (data : Value) :
    HitsLimit (s.run p data).1 ∨ (s.withMaxDepth limit).run p data =
      ((s.run p data).1, (s.run p data).2.withMaxDepth limit) := by
  have hrun := Context.execute_raise (lifts_withMaxDepth limit)
    (c := s.start s.engine.options .null) (Nat.zero_le _) h p data
  unfold run
  change _ ∨ ((s.withMaxDepth limit).start (s.withMaxDepth limit).engine.options .null).execute
    world p data = _ at hrun
  obtain ⟨entered, n, hlimit⟩ | heq := hrun
  · left
    exact ⟨entered, n, by simp [hlimit, Except.map]⟩
  · right
    rw [heq]
    rfl

theorem render_withMaxDepth (h : s.engine.options.maxDepth ≤ limit) (name : String) (data : Value) :
    HitsLimit (s.render name data).1 ∨ (s.withMaxDepth limit).render name data =
      ((s.render name data).1, (s.render name data).2.withMaxDepth limit) := by
  unfold render
  rw [show (s.withMaxDepth limit).engine.get name = _ from
    Engine.get_withMaxDepth limit s.engine name]
  cases hget : s.engine.get name with
  | mk r e =>
    cases r with
    | error err => exact .inr rfl
    | ok p =>
      have he : e.options = s.engine.options := by rw [← s.engine.get_options name, hget]
      exact run_withMaxDepth (s := { s with engine := e }) (he ▸ h) p data

theorem renderSource_withMaxDepth (h : s.engine.options.maxDepth ≤ limit) (name source : String)
    (data : Value) :
    HitsLimit (s.renderSource name source data).1 ∨
      (s.withMaxDepth limit).renderSource name source data =
        ((s.renderSource name source data).1,
          (s.renderSource name source data).2.withMaxDepth limit) := by
  unfold renderSource
  rw [show (s.withMaxDepth limit).engine.compile name source =
    s.engine.compile name source from rfl]
  cases s.engine.compile name source with
  | error err => exact .inr rfl
  | ok p => exact run_withMaxDepth h p data

/-- Whether a render gives in `r'` what it gives in `r`, a text or an error, unless that is the
error of the depth limit. -/
def Keeps (r r' : Except Error String) : Prop :=
  (∀ text, r = .ok text → r' = .ok text) ∧
    ∀ e, r = .error e → (∀ entered limit, e ≠ .recursionLimit entered limit) → r' = .error e

theorem keeps_of_eq {r r' : Except Error String} (h : HitsLimit r ∨ r' = r) : Keeps r r' := by
  obtain ⟨entered, limit, rfl⟩ | rfl := h
  · exact ⟨fun _ h => (nomatch h), fun e he hne => absurd (Except.error.inj he).symm (hne _ _)⟩
  · exact ⟨fun _ h => h, fun _ h _ => h⟩

/-- A render that does not hit the depth limit gives the same text, or fails with the same error,
under every higher limit. -/
theorem results_kept_under_higher_limit (s : Session) {m m' : Nat} (h : m ≤ m') (data : Value) :
    (∀ name, Keeps ((s.withMaxDepth m).render name data).1
      ((s.withMaxDepth m').render name data).1) ∧
    ∀ name source, Keeps ((s.withMaxDepth m).renderSource name source data).1
      ((s.withMaxDepth m').renderSource name source data).1 := by
  have hm : (s.withMaxDepth m).engine.options.maxDepth ≤ m' := h
  constructor
  · intro name
    refine keeps_of_eq ((render_withMaxDepth hm name data).imp_right fun hrender => ?_)
    rw [show (s.withMaxDepth m').render name data = _ from hrender]
  · intro name source
    refine keeps_of_eq ((renderSource_withMaxDepth hm name source data).imp_right fun hrender => ?_)
    rw [show (s.withMaxDepth m').renderSource name source data = _ from hrender]

theorem nested_includes_kept :
    let store : TemplateStore := ⟨[("/page", "a<% include 'part' %>"),
      ("/part", "b<% include 'leaf' %>"), ("/leaf", "c<%= @x %>")]⟩
    let s : Session := { engine := ⟨.store store, .ofCapacity 2, {}, .default⟩ }
    let data : Value := .map [("x", .bool true)]
    2 ≤ 5 ∧
      (∀ name, Keeps ((s.withMaxDepth 2).render name data).1
        ((s.withMaxDepth 5).render name data).1) ∧
      ((s.withMaxDepth 1).render "page" data).1.toOption = none ∧
      ((s.withMaxDepth 2).render "page" data).1.toOption = some "abctrue" ∧
      ((s.withMaxDepth 5).render "page" data).1.toOption = some "abctrue" := by
  refine ⟨by decide, (results_kept_under_higher_limit _ (by decide) _).1, ?_, ?_, ?_⟩
  all_goals decide +kernel

end Session

end TextTemplate
