import TextTemplate.Proofs.Render.Access

/-! Runs that commute with a change of variables: after the change they do what they do without it,
and it is still there when they end. With no change at all this says what a run keeps of a context,
and what its results are like. If all operations that a discipline allows keep a property of
contexts and commute with a change, so do all runs that keep the discipline. -/

namespace TextTemplate

namespace Context

variable {σ : Type}

def withFrames (h : Array (Array Value) → Array (Array Value)) (c : Context σ) : Context σ :=
  { c with frames := h c.frames }

def Elsewhere (I : Context σ → Prop) : Prop :=
  ∀ ⦃c : Context σ⦄, I c → ∀ depth pendingLayout running,
    I { c with depth, pendingLayout, running }

end Context

namespace Run

variable {σ α β : Type} {I J : Context σ → Prop} {h : Array (Array Value) → Array (Array Value)}
  {post : α → Prop} {post' : β → Prop} {r r' : Run σ α}

/-- Started after the change in a context that has the property, `r'` does what `r` does without it.
The property is kept, and results have `post`. -/
def Commutes (I : Context σ → Prop) (h : Array (Array Value) → Array (Array Value))
    (post : α → Prop) (r r' : Run σ α) : Prop :=
  ∀ c, I c → r' (c.withFrames h) = ((r c).1, (r c).2.withFrames h) ∧ I (r c).2 ∧
    ∀ a, (r c).1 = .ok a → post a

abbrev Keeps (I : Context σ → Prop) (post : α → Prop) (r : Run σ α) : Prop :=
  Commutes I id post r r

namespace Commutes

theorem pure {a : α} (ha : post a) : Commutes I h post (pure a) (pure a) := by
  refine fun c hc => ⟨rfl, hc, fun b hb => ?_⟩
  obtain rfl := Except.ok.inj hb
  exact ha

theorem weaken {also : α → Prop} (hr : Commutes I h post r r') (hpost : ∀ a, post a → also a) :
    Commutes I h also r r' := fun c hc =>
  have hrun := hr c hc
  ⟨hrun.1, hrun.2.1, fun a ha => hpost a (hrun.2.2 a ha)⟩

theorem bind {f f' : α → Run σ β} (hr : Commutes I h post r r')
    (hf : ∀ a, post a → Commutes I h post' (f a) (f' a)) :
    Commutes I h post' (r >>= f) (r' >>= f') := by
  intro c hc
  obtain ⟨heq, hc', hresult⟩ := hr c hc
  rw [bind_apply, bind_apply, heq]
  generalize r c = x at hc' hresult
  obtain ⟨e | a, c'⟩ := x
  · exact ⟨rfl, hc', fun _ h => nomatch h⟩
  · exact hf a (hresult a rfl) c' hc'

theorem halt (e : Halt) : Commutes I h post (halt e) (halt e) :=
  fun _ hc => ⟨rfl, hc, fun _ h => nomatch h⟩

theorem ofExcept {a : Except Error α} (ha : ∀ b, a = .ok b → post b) :
    Commutes I h post (ofExcept a) (ofExcept a) := by
  cases a with
  | ok b => exact pure (ha b rfl)
  | error e => exact halt _

theorem forEffect (hr : Commutes I h post r r') :
    Commutes I h (fun _ => True) (forEffect r) (forEffect r') :=
  hr.bind fun _ _ => pure trivial

theorem attempt (hr : Commutes I h post r r') :
    Commutes I h (fun a => ∀ b, a = .ok b → post b) (attempt r) (attempt r') := by
  intro c hc
  obtain ⟨heq, hc', hresult⟩ := hr c hc
  rw [attempt_apply, attempt_apply, heq]
  refine ⟨rfl, hc', fun a ha => ?_⟩
  obtain rfl := Except.ok.inj ha
  exact hresult

theorem get_bind {f : Context σ → α} {k k' : α → Run σ β}
    (hf : ∀ c : Context σ, I c → f (c.withFrames h) = f c)
    (hk : ∀ c : Context σ, I c → Commutes I h post' (k (f c)) (k' (f c))) :
    Commutes I h post' (get f >>= k) (get f >>= k') := by
  intro c hc
  rw [bind_apply, bind_apply, get_apply, get_apply, hf c hc]
  exact hk c hc c hc

theorem get {f : Context σ → α} (hf : ∀ c : Context σ, I c → f (c.withFrames h) = f c)
    (hpost : ∀ c : Context σ, I c → post (f c)) : Commutes I h post (get f) (get f) := by
  intro c hc
  rw [get_apply, get_apply, hf c hc]
  refine ⟨rfl, hc, fun a ha => ?_⟩
  obtain rfl := Except.ok.inj ha
  exact hpost c hc

theorem load_bind {frame x : Nat} {v : Value} {k : Value → Run σ α}
    (hv : ∀ c : Context σ, I c → (c.withFrames h).load frame x = v)
    (hr : Commutes I h post r (k v)) : Commutes I h post r (load frame x >>= k) := by
  intro c hc
  obtain ⟨heq, hrest⟩ := hr c hc
  rw [bind_apply]
  refine ⟨?_, hrest⟩
  rw [← heq, ← hv c hc]
  rfl

theorem update {f : Context σ → Context σ}
    (hf : ∀ c : Context σ, I c → f (c.withFrames h) = (f c).withFrames h)
    (hI : ∀ c : Context σ, I c → I (f c)) :
    Commutes I h (fun _ => True) (update f) (update f) := by
  intro c hc
  rw [update_apply, update_apply, hf c hc]
  exact ⟨rfl, hI c hc, fun _ _ => trivial⟩

theorem between {before : Context σ → Context σ} {after : Context σ → Context σ → Context σ}
    (hbefore : ∀ c : Context σ, before (c.withFrames h) = (before c).withFrames h)
    (hb : ∀ c : Context σ, I c → I (before c))
    (hafter : ∀ c c' : Context σ,
      after (c.withFrames h) (c'.withFrames h) = (after c c').withFrames h)
    (ha : ∀ c c' : Context σ, I c → I c' → I (after c c')) (hr : Commutes I h post r r') :
    Commutes I h post (between before after r) (between before after r') := by
  intro c hc
  obtain ⟨heq, hc', hresult⟩ := hr (before c) (hb c hc)
  rw [between_apply, between_apply, hbefore, heq, hafter]
  exact ⟨rfl, ha c _ hc hc', hresult⟩

theorem inside (hI : Context.Elsewhere I) (name : String) (hr : Commutes I h post r r') :
    Commutes I h post (inside name r) (inside name r') := by
  rw [inside_eq, inside_eq]
  refine get_bind (fun _ _ => rfl) fun c _ => ?_
  split
  · exact halt _
  · exact between (fun _ => rfl) (fun _ hc => hI hc ..) (fun _ _ => rfl)
      (fun _ _ _ hc' => hI hc' ..) hr

theorem holding (hI : Context.Elsewhere I) (frame : Nat) (hr : Commutes I h post r r') :
    Commutes I h post (holding frame r) (holding frame r') := by
  rw [holding_eq_between, holding_eq_between]
  exact between (fun _ => rfl) (fun _ hc => hI hc ..) (fun _ _ => rfl) (fun _ _ _ hc' => hI hc' ..)
    hr

theorem captured {also : Rendered → Prop} {x x' : Run σ Unit}
    (haside : ∀ c : Context σ, I c → I c.aside)
    (hresume : ∀ c c' : Context σ, I c → I c' →
      I (c.resume c') ∧ I ((c.resume c').append c'.output))
    (hprinted : ∀ c : Context σ, I c → also ⟨c.output, c.pendingLayout⟩)
    (hx : Commutes I h (fun _ => True) x x') :
    Commutes I h also (captured x) (captured x') := by
  intro c hc
  obtain ⟨heq, hc', -⟩ := hx c.aside (haside c hc)
  rw [captured_apply, captured_apply, show (c.withFrames h).aside = c.aside.withFrames h from rfl,
    heq]
  generalize x c.aside = y at hc'
  obtain ⟨e | _, c'⟩ := y
  · exact ⟨rfl, (hresume c c' hc hc').2, fun _ h => nomatch h⟩
  · refine ⟨rfl, (hresume c c' hc hc').1, fun a ha => ?_⟩
    obtain rfl := Except.ok.inj ha
    exact hprinted c' hc'

theorem withWorld {f : σ → Except Error α × σ}
    (hf : ∀ c : Context σ, I c →
      I { c with world := (f c.world).2 } ∧ ∀ a, (f c.world).1 = .ok a → post a) :
    Commutes I h post (withWorld f) (withWorld f) := by
  intro c hc
  obtain ⟨hc', hresult⟩ := hf c hc
  refine ⟨?_, ?_, fun a ha => hresult a (eq_ok_of_withWorld ha)⟩
  · rw [withWorld_apply, withWorld_apply]
    rfl
  · rw [withWorld_apply]
    exact hc'

theorem forEach {p : Value → Prop} {f f' : Value → Run σ Unit} {vs : List Value}
    (hvs : ∀ v ∈ vs, p v) (hf : ∀ v, p v → Commutes I h (fun _ => True) (f v) (f' v)) :
    Commutes I h (fun _ => True) (forEach f vs) (forEach f' vs) := by
  induction vs with
  | nil => exact pure trivial
  | cons v vs ih =>
    rw [List.forall_mem_cons] at hvs
    exact (hf v hvs.1).bind fun _ _ => ih hvs.2

theorem and {also : α → Prop} (hr : Commutes I h post r r') (hJ : Keeps J also r) :
    Commutes (fun c => I c ∧ J c) h (fun a => post a ∧ also a) r r' := by
  intro c hc
  obtain ⟨heq, hc', hresult⟩ := hr c hc.1
  obtain ⟨-, hJ', halso⟩ := hJ c hc.2
  exact ⟨heq, ⟨hc', hJ'⟩, fun a ha => ⟨hresult a ha, halso a ha⟩⟩

end Commutes
end Run

/-- What makes all runs that keep a discipline keep a property of contexts too, and commute with a
change of variables: each operation does. -/
structure Discipline.Guards {σ : Type} (T : Discipline Unit) (world : World σ)
    (I : Context σ → Prop) (h : Array (Array Value) → Array (Array Value)) : Prop where
  size (c : Context σ) : (c.withFrames h).frames.size = c.frames.size
  load {c : Context σ} {frame x : Nat} : I c → T.slot () frame x →
    (c.withFrames h).load frame x = c.load frame x ∧ (c.load frame x).Only (T.lambda ())
  store {c : Context σ} {frame x : Nat} {v : Value} :
    I c → T.slot () frame x → v.Only (T.lambda ()) →
      (c.withFrames h).store frame x v = (c.store frame x v).withFrames h ∧ I (c.store frame x v)
  newFrame {c : Context σ} {slots : Nat} : I c →
    ((c.withFrames h).newFrame slots).2 = (c.newFrame slots).2.withFrames h ∧
      I (c.newFrame slots).2
  fresh {c : Context σ} {p : Program} : I c → T.program p → T.Code () c.frames.size p.body
  self {c : Context σ} : I c → c.self.Only (T.lambda ())
  withSelf {c : Context σ} {self : Value} : I c → self.Only (T.lambda ()) → I { c with self }
  lambda {c : Context σ} {frame id : Nat} {params : List Nat} {body : List SlotStmt} : I c →
    (∀ x ∈ params, T.slot () frame x) → T.Code () frame body →
      T.lambda () ⟨⟨c.render, frame⟩, id, params, body⟩
  keeps {c : Context σ} {f : Closure} : I c → T.lambda () f → f.frame.render = c.render →
    (∀ x ∈ f.params, T.slot () f.frame.index x) ∧ T.Code () f.frame.index f.body
  compiled {c : Context σ} {name : String} {body : List SlotStmt} {frame : Nat} : I c →
    c.block name = .compiled body frame → T.Code () frame body
  content {c : Context σ} {name text : String} : I c → c.block name = .text text →
    T.print (.text text)
  define {c : Context σ} {name : String} {body : List SlotStmt} {frame : Nat} : I c →
    T.Code () frame body → I (c.define name (.compiled body frame))
  defineContent {c : Context σ} {text : String} : I c → T.print (.text text) →
    I (c.define defaultBlock (.text text))
  append {c : Context σ} {text : String} : I c → T.print (.text text) → I (c.append text)
  print {c : Context σ} {escape : Bool} (v : Value) : I c → T.print (.value escape) →
    I (c.print escape v)
  elsewhere : Context.Elsewhere I
  aside {c : Context σ} : I c → I c.aside
  resume {c c' : Context σ} : I c → I c' → I (c.resume c')
  printed {c : Context σ} : I c → T.print (.text c.output)
  program {c : Context σ} {name : String} : I c →
    I { c with world := (world.load name c.world).2 } ∧
      ∀ p, (world.load name c.world).1 = .ok p → T.program p
  call {c : Context σ} {f : HostFunction} {args : List Value} : I c →
    (∀ v ∈ args, v.Only (T.lambda ())) → I { c with world := (world.call f args c.world).2 } ∧
      ∀ v, (world.call f args c.world).1 = .ok v → v.Only (T.lambda ())

namespace Run

variable {σ α β : Type} {T : Discipline Unit} {world : World σ} {I : Context σ → Prop}
  {h : Array (Array Value) → Array (Array Value)} {n : Nat} {w : Unit}

def Guarded (T : Discipline Unit) (I : Context σ → Prop)
    (h : Array (Array Value) → Array (Array Value)) (_ : Nat) (_ : Unit) ⦃α : Type⦄
    (k : ResultKind α) (r r' : Run σ α) : Prop :=
  Commutes I h (k.Only (T.lambda ())) r r'

namespace Guarded

variable {k : ResultKind α} {k' : ResultKind β} {r r' : Run σ α}

theorem attempt (hr : Guarded T I h n w k r r') :
    Guarded T I h n w (.attempted k) (attempt r) (attempt r') := by
  refine (Commutes.attempt hr).weaken fun a ha => ?_
  cases a with
  | ok b => exact ha b rfl
  | error _ => exact trivial

variable (G : T.Guards world I h)
include G

theorem sequential : Sequential T (Guarded T I h) where
  pure := Commutes.pure
  bind hr hf := Commutes.bind hr fun a ha => hf () le_rfl a ha
  load hslot :=
    Commutes.get (fun _ hc => (G.load hc hslot).1) fun _ hc => (G.load hc hslot).2
  store hslot hv :=
    Commutes.update (fun _ hc => (G.store hc hslot hv).1) fun _ hc => (G.store hc hslot hv).2

theorem keeps {f : Closure} {g g' : Bool → Run σ β} (hf : T.lambda () f)
    (hgone : Guarded T I h n w k' (g false) (g' false))
    (hkept : (∀ x ∈ f.params, T.slot () f.frame.index x) → T.Code () f.frame.index f.body →
      Guarded T I h n w k' (g true) (g' true)) :
    Guarded T I h n w k' (MonadRender.get (fun c => c.keeps f.frame) >>= g)
      (MonadRender.get (fun c => c.keeps f.frame) >>= g') := by
  refine Commutes.get_bind (fun _ _ => rfl) fun c hc => ?_
  cases hkeeps : c.keeps f.frame with
  | false => exact hgone
  | true =>
    obtain ⟨hparams, hbody⟩ := G.keeps hc hf (Context.render_of_keeps hkeeps)
    exact hkept hparams hbody

theorem fresh {p : Program} (hp : T.program p) {g g' : Nat → Run σ β}
    (hg : ∀ frame, T.Code () frame p.body → Guarded T I h n w k' (g frame) (g' frame)) :
    Guarded T I h n w k'
      (MonadRender.get (fun c => c.frames.size) >>= fun frame =>
        MonadRender.update (fun c => (c.newFrame p.slots.length).2) >>= fun _ => g frame)
      (MonadRender.get (fun c => c.frames.size) >>= fun frame =>
        MonadRender.update (fun c => (c.newFrame p.slots.length).2) >>= fun _ => g' frame) := by
  refine Commutes.get_bind (fun c _ => G.size c) fun c hc => ?_
  have hnew : Commutes I h (fun _ => True)
      (MonadRender.update fun c : Context σ => (c.newFrame p.slots.length).2)
      (MonadRender.update fun c : Context σ => (c.newFrame p.slots.length).2) :=
    Commutes.update (fun _ hc => (G.newFrame hc).1) fun _ hc => (G.newFrame hc).2
  exact hnew.bind fun _ _ => hg _ (G.fresh hc hp)

theorem captured {x x' : Run σ Unit} {f f' : Rendered → Run σ β}
    (hx : Guarded T I h n w .any x x')
    (hf : ∀ rendered : Rendered, T.print (.text rendered.text) →
      Guarded T I h n w k' (f rendered) (f' rendered)) :
    Guarded T I h n w k' (captured x >>= f) (captured x' >>= f') := by
  have hrendered : Commutes I h (fun rendered => T.print (.text rendered.text)) (Run.captured x)
      (Run.captured x') :=
    Commutes.captured (fun _ hc => G.aside hc)
      (fun _ _ hc hc' => ⟨G.resume hc hc', G.append (G.resume hc hc') (G.printed hc')⟩)
      (fun _ hc => G.printed hc) hx
  exact hrendered.bind hf

theorem template {f f' : Program → Run σ β} (name : String)
    (hf : ∀ p : Program, T.program p → Guarded T I h n w k' (f p) (f' p)) :
    Guarded T I h n w k' (Run.withWorld (world.load name) >>= f)
      (Run.withWorld (world.load name) >>= f') := by
  have hload : Commutes I h T.program (Run.withWorld (world.load name))
      (Run.withWorld (world.load name)) := Commutes.withWorld fun _ hc => G.program hc
  exact hload.bind hf

end Guarded

theorem logicalRelation_guarded (G : T.Guards world I h) :
    LogicalRelation T world world (Guarded T I h) where
  toSequential := Guarded.sequential G
  fail _ := Commutes.halt _
  self := Commutes.get (fun _ _ => rfl) fun _ hc => G.self hc
  extendMode := Commutes.get (fun _ _ => rfl) fun _ _ => trivial
  append ht := Commutes.update (fun _ _ => rfl) fun _ hc => G.append hc ht
  print v he := Commutes.update (fun _ _ => rfl) fun _ hc => G.print v hc he
  define _ hcode := Commutes.update (fun _ _ => rfl) fun _ hc => G.define hc hcode
  requestLayout _ := Commutes.update (fun _ _ => rfl) fun _ hc => G.elsewhere hc ..
  defineContent {_ _ text} ht := Commutes.update
    (fun c _ => by
      show (if Text.isBlankText text && c.hasBlock defaultBlock then _ else _) = _
      split <;> rfl)
    fun _ hc => by
      split
      · exact hc
      · exact G.defineContent hc ht
  block name htext hcompiled := Commutes.get_bind (fun _ _ => rfl) fun c hc => by
    cases hb : c.block name with
    | text content => exact htext () le_rfl content (G.content hc hb)
    | compiled body frame => exact hcompiled () le_rfl body frame (G.compiled hc hb)
  lambda hparams hbody := Commutes.get_bind (fun _ _ => rfl) fun _ hc =>
    Commutes.pure (Value.only_closure.2 (G.lambda hc hparams hbody))
  keeps hf hgone hkept := Guarded.keeps G hf (hgone () le_rfl) fun hparams hbody =>
    hkept () le_rfl hparams hbody
  fresh hp hg := Guarded.fresh G hp fun frame hcode => hg () le_rfl frame hcode
  inside := Commutes.inside G.elsewhere
  withSelf hself := Commutes.between (fun _ => rfl) (fun _ hc => G.withSelf hc hself)
    (fun _ _ => rfl) fun _ _ hc hc' => G.withSelf hc' (G.self hc)
  holding := Commutes.holding G.elsewhere
  captured hx hf := Guarded.captured G hx fun rendered ht => hf () le_rfl rendered ht
  binding hparams hargs hr := (Guarded.sequential G).binding_of_attempt Guarded.attempt
    Commutes.halt hparams hargs hr
  host _ _ hargs := Commutes.withWorld fun _ hc => G.call hc hargs
  template name hf := Guarded.template G name fun p hp => hf () le_rfl p p ⟨rfl, rfl⟩ hp

end Run
end TextTemplate
