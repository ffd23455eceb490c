import TextTemplate.Proofs.Render.Simulation

/-! What a nested template, block or lambda call leaves of the context around it. Runs are watched
in a monad that keeps every context passed through; the depth limit is a statement about these. -/

namespace TextTemplate

abbrev Traced (σ : Type) := ExceptT Halt (StateM (Context σ × List (Context σ)))

instance {σ : Type} : MonadRender σ (Traced σ) where
  get f := fun s => (.ok (f s.1), s)
  update f := fun s => (.ok (), f s.1, f s.1 :: s.2)
  halt h := fun s => (.error h, s)
  attempt r := fun s =>
    let (a, s) := r s
    (.ok a, s)

/-- What nested runs keep of a context, whether they succeed or fail. -/
structure Context.Undisturbed {σ : Type} (c c' : Context σ) : Prop where
  depth : c'.depth = c.depth
  maxDepth : c'.maxDepth = c.maxDepth
  self : c'.self = c.self
  output : c.output.toList <+: c'.output.toList
  blocks : ∀ name, c.hasBlock name → c'.hasBlock name

namespace Context.Undisturbed

variable {σ : Type} {c c₁ c₂ : Context σ}

theorem refl (c : Context σ) : Undisturbed c c :=
  ⟨rfl, rfl, rfl, List.prefix_rfl, fun _ h => h⟩

theorem trans (h₁ : Undisturbed c c₁) (h₂ : Undisturbed c₁ c₂) : Undisturbed c c₂ where
  depth := h₂.depth.trans h₁.depth
  maxDepth := h₂.maxDepth.trans h₁.maxDepth
  self := h₂.self.trans h₁.self
  output := h₁.output.trans h₂.output
  blocks name h := h₂.blocks name (h₁.blocks name h)

theorem append (c : Context σ) (text : String) : Undisturbed c (c.append text) where
  depth := rfl
  maxDepth := rfl
  self := rfl
  output := by simp [Context.append]
  blocks _ h := h

theorem define (c : Context σ) (name : String) (b : Block) : Undisturbed c (c.define name b) where
  depth := rfl
  maxDepth := rfl
  self := rfl
  output := List.prefix_rfl
  blocks name' h := by
    simp only [hasBlock, Context.define, Entries.find?_insert]
    split
    · rfl
    · exact h

end Context.Undisturbed

namespace Traced

open Run

variable {σ α : Type}

theorem get_apply (f : Context σ → α) (s : Context σ × List (Context σ)) :
    (get f : Traced σ α) s = (.ok (f s.1), s) := rfl

theorem update_apply (f : Context σ → Context σ) (s : Context σ × List (Context σ)) :
    (update f : Traced σ Unit) s = (.ok (), f s.1, f s.1 :: s.2) := rfl

theorem attempt_apply (t : Traced σ α) (s : Context σ × List (Context σ)) :
    attempt t s = (.ok (t s).1, (t s).2) := rfl

theorem endAs_apply (a : Except Halt α) (s : Context σ × List (Context σ)) :
    (endAs a : Traced σ α) s = (a, s) := by
  cases a <;> rfl

theorem between_apply (before : Context σ → Context σ) (after : Context σ → Context σ → Context σ)
    (t : Traced σ α) (c : Context σ) (past : List (Context σ)) :
    between before after t (c, past) =
      let s := t (before c, before c :: past)
      (s.1, after c s.2.1, after c s.2.1 :: s.2.2) := by
  simp only [between, bind_apply, get_apply, update_apply, attempt_apply, endAs_apply, id]

theorem captured_apply (t : Traced σ Unit) (c : Context σ) (past : List (Context σ)) :
    captured t (c, past) =
      match t (c.aside, c.aside :: past) with
      | (.ok (), c', past') =>
        (.ok ⟨c'.output, c'.pendingLayout⟩, c.resume c', c.resume c' :: past')
      | (.error h, c', past') =>
        (.error h, (c.resume c').append c'.output, (c.resume c').append c'.output :: past') := by
  simp only [captured, bind_apply, get_apply, update_apply, attempt_apply, id]
  rcases t (c.aside, c.aside :: past) with ⟨_ | a, c', past'⟩ <;> rfl

end Traced

namespace Run

open Context (Undisturbed)

variable {σ α β : Type}

/-- Started within the depth limit, the traced run `t` does what `r` does, keeps within the limit
all the way, and leaves the context undisturbed. -/
def Watched ⦃α : Type⦄ (t : Traced σ α) (r : Run σ α) : Prop :=
  ∀ (c : Context σ) (past : List (Context σ)), c.depth ≤ c.maxDepth →
    ∃ passed, t (c, past) = ((r c).1, (r c).2, passed ++ past) ∧
      (∀ d ∈ passed, d.depth ≤ c.maxDepth) ∧ Undisturbed c (r c).2

namespace Watched

theorem bind {t : Traced σ α} {r : Run σ α} {f : α → Traced σ β} {g : α → Run σ β}
    (h : Watched t r) (hf : ∀ a, Watched (f a) (g a)) : Watched (t >>= f) (r >>= g) := by
  intro c past hc
  obtain ⟨p, ht, hp, hu⟩ := h c past hc
  rw [bind_apply, bind_apply, ht]
  generalize r c = x at hu
  obtain ⟨e | a, c'⟩ := x
  · exact ⟨p, rfl, hp, hu⟩
  · have hc' : c'.depth ≤ c'.maxDepth := by rw [hu.depth, hu.maxDepth]; exact hc
    obtain ⟨q, hs, hq, hv⟩ := hf a c' (p ++ past) hc'
    refine ⟨q ++ p, by rw [List.append_assoc]; exact hs, fun d hd => ?_, hu.trans hv⟩
    rcases List.mem_append.1 hd with hd | hd
    · exact hu.maxDepth ▸ hq d hd
    · exact hp d hd

theorem get (f : Context σ → α) : Watched (get f) (get f) := fun c past _ =>
  ⟨[], rfl, by simp, .refl c⟩

theorem update {f : Context σ → Context σ} (h : ∀ c, Undisturbed c (f c)) :
    Watched (update f) (update f) := by
  intro c past hc
  refine ⟨[f c], rfl, fun d hd => ?_, h c⟩
  rw [List.mem_singleton.1 hd, (h c).depth]
  exact hc

theorem halt (h : Halt) : Watched (halt h : Traced σ α) (halt h) := fun c past _ =>
  ⟨[], rfl, by simp, .refl c⟩

theorem attempt {t : Traced σ α} {r : Run σ α} (h : Watched t r) :
    Watched (attempt t) (attempt r) := by
  intro c past hc
  obtain ⟨p, ht, hp, hu⟩ := h c past hc
  refine ⟨p, ?_, hp, hu⟩
  show ((.ok (t (c, past)).1 : Except Halt _), (t (c, past)).2) = _
  rw [ht]
  rfl

theorem between {before : Context σ → Context σ} {after : Context σ → Context σ → Context σ}
    {t : Traced σ α} {r : Run σ α} (h : Watched t r) (c : Context σ) (past : List (Context σ))
    (hb : (before c).depth ≤ (before c).maxDepth) (hm : (before c).maxDepth = c.maxDepth)
    (ha : ∀ c', Undisturbed (before c) c' → Undisturbed c (after c c'))
    (hc : c.depth ≤ c.maxDepth) :
    ∃ passed, Run.between before after t (c, past) =
        ((Run.between before after r c).1, (Run.between before after r c).2, passed ++ past) ∧
      (∀ d ∈ passed, d.depth ≤ c.maxDepth) ∧
      Undisturbed c (Run.between before after r c).2 := by
  obtain ⟨p, ht, hp, hu⟩ := h (before c) (before c :: past) hb
  rw [Traced.between_apply, between_apply, ht]
  have hv := ha _ hu
  -- the two changes pass through one context each, before and after those of the run
  refine ⟨after c (r (before c)).2 :: (p ++ [before c]), by simp, fun d hd => ?_, hv⟩
  simp only [List.mem_cons, List.mem_append, List.not_mem_nil, or_false] at hd
  rcases hd with rfl | hd | rfl
  · exact hv.depth ▸ hc
  · exact hm ▸ hp d hd
  · exact hm ▸ hb

theorem inside {t : Traced σ α} {r : Run σ α} (name : String) (h : Watched t r) :
    Watched (inside name t) (inside name r) := by
  intro c past hc
  simp only [Run.inside, bind_apply, Traced.get_apply, get_apply, id]
  split
  · exact halt _ c past hc
  · rename_i hlt
    refine between h c past (Nat.not_le.1 hlt) rfl (fun c' hu => ?_) hc
    exact ⟨by simp [hu.depth], hu.maxDepth, hu.self, hu.output, hu.blocks⟩

theorem withSelf {t : Traced σ α} {r : Run σ α} (self : Value) (h : Watched t r) :
    Watched (withSelf self t) (withSelf self r) := fun c past hc =>
  between h c past hc rfl (fun _ hu => ⟨hu.depth, hu.maxDepth, rfl, hu.output, hu.blocks⟩) hc

theorem holding {t : Traced σ α} {r : Run σ α} (frame : Nat) (h : Watched t r) :
    Watched (holding frame t) (holding frame r) := fun c past hc =>
  between h c past hc rfl
    (fun _ hu => ⟨hu.depth, hu.maxDepth, hu.self, hu.output, hu.blocks⟩) hc

theorem captured {t : Traced σ Unit} {r : Run σ Unit} (h : Watched t r) :
    Watched (captured t) (captured r) := by
  intro c past hc
  obtain ⟨p, ht, hp, hu⟩ := h c.aside (c.aside :: past) hc
  rw [captured_apply, Traced.captured_apply, ht]
  generalize r c.aside = x at hu
  have hle (c' d : Context σ) (hc' : c'.depth = c.depth) (hd : d ∈ c' :: (p ++ [c.aside])) :
      d.depth ≤ c.maxDepth := by
    simp only [List.mem_cons, List.mem_append, List.not_mem_nil, or_false] at hd
    rcases hd with rfl | hd | rfl
    · exact hc' ▸ hc
    · exact hp d hd
    · exact hc
  have hr (c' : Context σ) (h : Undisturbed c.aside c') : Undisturbed c (c.resume c') :=
    ⟨h.depth, h.maxDepth, h.self, List.prefix_rfl, h.blocks⟩
  obtain ⟨e | ⟨⟩, c'⟩ := x
  · -- a failure leaves what was printed aside behind what was printed before
    have hv := (hr c' hu).trans (.append _ c'.output)
    exact ⟨(c.resume c').append c'.output :: (p ++ [c.aside]), by simp,
      fun d hd => hle _ d hv.depth hd, hv⟩
  · have hv := hr c' hu
    exact ⟨c.resume c' :: (p ++ [c.aside]), by simp, fun d hd => hle _ d hv.depth hd, hv⟩

theorem withWorld (f : σ → Except Error α × σ) : Watched (withWorld f) (withWorld f) := by
  refine bind (get _) fun s => bind (update fun c => ?_) fun _ => ?_
  · exact ⟨rfl, rfl, rfl, List.prefix_rfl, fun _ h => h⟩
  · cases (f s).1 with
    | ok a => exact get fun _ => a
    | error e => exact halt _

end Watched

theorem simulation_watched (world : World σ) : Simulation world world (Watched (σ := σ)) where
  pure a := Watched.get fun _ => a
  bind := Watched.bind
  halt := Watched.halt
  attempt := Watched.attempt
  self := Watched.get _
  extendMode := Watched.get _
  render := Watched.get _
  block _ := Watched.get _
  keeps _ := Watched.get _
  frameCount := Watched.get _
  load frame slot := Watched.get fun c => c.load frame slot
  store frame slot v := Watched.update (f := fun c => c.store frame slot v)
    fun c => ⟨rfl, rfl, rfl, List.prefix_rfl, fun _ h => h⟩
  newFrame _ := Watched.update fun c => ⟨rfl, rfl, rfl, List.prefix_rfl, fun _ h => h⟩
  append text := Watched.update fun c => .append c text
  print _ _ := Watched.update fun c => .append c _
  define name b := Watched.update fun c => .define c name b
  requestLayout _ := Watched.update fun c => ⟨rfl, rfl, rfl, List.prefix_rfl, fun _ h => h⟩
  defineContent text := Watched.update fun c => by
    split
    · exact .refl c
    · exact .define c defaultBlock _
  inside := Watched.inside
  withSelf := Watched.withSelf
  holding := Watched.holding
  captured := Watched.captured
  host f args := Watched.withWorld _
  template name h := Watched.bind (Watched.withWorld _) fun p => h p p ⟨rfl, rfl⟩

def KeepsLayout (r : Run σ α) : Prop :=
  ∀ c, (r c).2.pendingLayout = c.pendingLayout

namespace KeepsLayout

theorem bind {r : Run σ α} {f : α → Run σ β} (h : KeepsLayout r) (hf : ∀ a, KeepsLayout (f a)) :
    KeepsLayout (r >>= f) := by
  intro c
  have hr := h c
  rw [bind_apply]
  generalize r c = x at hr
  obtain ⟨e | a, c'⟩ := x
  · exact hr
  · exact (hf a c').trans hr

theorem withWorld (f : σ → Except Error α × σ) : KeepsLayout (withWorld f) := fun c => by
  rw [withWorld_apply]

theorem inside {r : Run σ α} (name : String) (h : KeepsLayout r) : KeepsLayout (inside name r) := by
  intro c
  rw [inside_apply]
  split
  · rfl
  · exact h _

theorem withSelf {r : Run σ α} (self : Value) (h : KeepsLayout r) :
    KeepsLayout (withSelf self r) := fun c => by
  rw [Run.withSelf, between_apply]
  exact h _

theorem captured (r : Run σ Unit) : KeepsLayout (captured r) := by
  intro c
  rw [captured_apply]
  split <;> rfl

theorem includeTemplate (world : World σ) {deep : Deep (Run σ)}
    (h : ∀ p, KeepsLayout (deep.program p)) (name : String) (argument : Value) :
    KeepsLayout (includeTemplate world deep name argument) := by
  refine bind (withWorld _) fun p => inside name ?_
  split
  · exact h p
  · exact withSelf argument (h p)

theorem renderProgram (world : World σ) {deep : Deep (Run σ)}
    (h : ∀ p, KeepsLayout (deep.program p)) (p : Program) :
    KeepsLayout (renderProgram world deep p) := by
  refine bind (captured _) fun rendered => ?_
  split
  · exact fun c => rfl
  · refine bind (fun c => ?_) fun _ => includeTemplate world h _ .null
    rw [update_apply]
    split <;> rfl

theorem levels (world : World σ) (n : Nat) (p : Program) :
    KeepsLayout ((levels world n).program p) := by
  induction n generalizing p with
  | zero => exact fun c => rfl
  | succ n ih => exact renderProgram world ih p

end KeepsLayout
end Run

namespace Context

variable {σ α : Type}

def trace (world : World σ) (c : Context σ) (r : Deep (Traced σ) → Traced σ α) :
    Except Halt α × Context σ × List (Context σ) :=
  Run.leveled world r (c, [])

/-- What the run `r` from `c` leaves behind in `c'`: it ends there, it stays within the depth limit
all the way, and it leaves the context undisturbed. -/
structure Restored (world : World σ) (c : Context σ) (r : Deep (Traced σ) → Traced σ α)
    (c' : Context σ) : Prop where
  ends : (c.trace world r).2.1 = c'
  depth_le : ∀ d ∈ (c.trace world r).2.2, d.depth ≤ c.maxDepth
  undisturbed : Undisturbed c c'

theorem outcome_snd (world : World σ) (c : Context σ) (r : Deep (Run σ) → Run σ α) :
    (c.outcome world r).2 = (r (Run.levels world (c.maxDepth - c.depth)) c).2 := by
  unfold outcome
  rw [Run.leveled_apply]
  split <;> simp_all

theorem restored_of_watched {world : World σ} {c : Context σ} (hc : c.depth ≤ c.maxDepth)
    {t : Deep (Traced σ) → Traced σ α} {r : Deep (Run σ) → Run σ α}
    (h : ∀ n, Run.Watched (t (Run.levels world n)) (r (Run.levels world n))) :
    Restored world c t (c.outcome world r).2 := by
  obtain ⟨p, ht, hp, hu⟩ := h (c.maxDepth - c.depth) c [] hc
  rw [outcome_snd]
  refine ⟨?_, ?_, hu⟩
  · exact congrArg (fun s => s.2.1) ht
  · intro d hd
    have hs : (c.trace world t).2.2 = p ++ [] := congrArg (fun s => s.2.2) ht
    exact hp d (by simpa [hs] using hd)

/-- Including a template, running a block, rendering or executing a program and calling a value all
restore the context around them, whatever is run and however it ends. -/
theorem nested_runs_restore_context (world : World σ) (c : Context σ)
    (hc : c.depth ≤ c.maxDepth) :
    (∀ name argument,
      Restored world c (fun deep => Run.includeTemplate world deep name argument)
        (c.includeTemplate world name argument).2 ∧
      (c.includeTemplate world name argument).2.pendingLayout = c.pendingLayout) ∧
    (∀ name,
      Restored world c (fun deep => Run.callBlock deep name) (c.callBlock world name).2) ∧
    (∀ p,
      Restored world c (fun deep => Run.renderProgram world deep p)
        (c.renderProgram world p).2 ∧
      (c.renderProgram world p).2.pendingLayout = c.pendingLayout) ∧
    (∀ p self,
      Restored world c (fun deep => Run.withSelf self (Run.renderProgram world deep p))
        (c.execute world p self).2 ∧
      (c.execute world p self).2.pendingLayout = c.pendingLayout) ∧
    ∀ callee args,
      Restored world c (fun deep => Run.call world deep callee args)
        (c.call world callee args).2 := by
  have S := Run.simulation_watched world
  have hlayout := Run.KeepsLayout.levels world (c.maxDepth - c.depth)
  refine ⟨fun name argument => ⟨?_, ?_⟩, fun name => ?_, fun p => ⟨?_, ?_⟩,
    fun p self => ⟨?_, ?_⟩, fun callee args => ?_⟩
  · exact restored_of_watched hc fun n => S.includeTemplate (S.levels n) name argument
  · rw [includeTemplate, outcome_snd]
    exact Run.KeepsLayout.includeTemplate world hlayout name argument c
  · exact restored_of_watched hc fun n => S.callBlock (S.levels n) name
  · exact restored_of_watched hc fun n => S.renderProgram (S.levels n) ⟨rfl, rfl⟩
  · rw [renderProgram, outcome_snd]
    exact Run.KeepsLayout.renderProgram world hlayout p c
  · exact restored_of_watched hc fun n =>
      S.withSelf self (S.renderProgram (S.levels n) ⟨rfl, rfl⟩)
  · rw [execute, outcome_snd]
    exact Run.KeepsLayout.withSelf self (Run.KeepsLayout.renderProgram world hlayout p) c
  · exact restored_of_watched hc fun n => S.call (S.levels n) callee args

def selfIncluding : World Unit where
  load name s := (.ok ⟨name, [.text "a", .include name none], []⟩, s)
  call _ _ s := (.ok .null, s)

theorem self_inclusion_restores_context :
    let c := (start { maxDepth := 2 } 0 .null ()).append "b"
    c.depth ≤ c.maxDepth ∧
      (c.includeTemplate selfIncluding "t" .null).1 = .error (.recursionLimit "t" 2) ∧
      (c.includeTemplate selfIncluding "t" .null).2.output = "baa" ∧
      Restored selfIncluding c (fun deep => Run.includeTemplate selfIncluding deep "t" .null)
        (c.includeTemplate selfIncluding "t" .null).2 :=
  ⟨by decide, by rfl, by rfl,
    ((nested_runs_restore_context selfIncluding _ (by decide)).1 "t" .null).1⟩

end Context
end TextTemplate
