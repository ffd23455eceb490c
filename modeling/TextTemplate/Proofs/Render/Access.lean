import TextTemplate.Compile
import TextTemplate.Proofs.Render.LogicalRelation

/-! Uses of variables. Blocks and lambdas run long after the program that they come from, with the
number of its execution beside them. What ties them to it is how many variables each execution of
the render has; executions are added, and those that there are keep their variables. -/

namespace TextTemplate

structure Access where
  frame : Nat
  slot : Nat
  size : Nat
  deriving Repr, DecidableEq

def Context.size {σ : Type} (c : Context σ) (frame : Nat) : Nat :=
  (c.frames[frame]?.map Array.size).getD 0

abbrev Accessing (σ : Type) := ExceptT Halt (StateM (Context σ × List Access))

instance {σ : Type} : MonadRender σ (Accessing σ) where
  get f := fun s => (.ok (f s.1), s)
  update f := fun s => (.ok (), f s.1, s.2)
  halt h := fun s => (.error h, s)
  attempt r := fun s =>
    let (a, s) := r s
    (.ok a, s)
  load frame slot := fun s =>
    (.ok (s.1.load frame slot), s.1, s.2 ++ [⟨frame, slot, s.1.size frame⟩])
  store frame slot v := fun s =>
    (.ok (), s.1.store frame slot v, s.2 ++ [⟨frame, slot, s.1.size frame⟩])

structure Shape where
  render : Nat
  sizes : List Nat

namespace Shape

instance : Preorder Shape where
  le w w' := w.render = w'.render ∧ w.sizes <+: w'.sizes
  le_refl _ := ⟨rfl, List.prefix_rfl⟩
  le_trans _ _ _ h h' := ⟨h.1.trans h'.1, h.2.trans h'.2⟩

def Has (w : Shape) (frame slot : Nat) : Prop :=
  ∃ size, w.sizes[frame]? = some size ∧ slot < size

theorem Has.mono {w w' : Shape} {frame slot : Nat} (hw : w ≤ w') (h : w.Has frame slot) :
    w'.Has frame slot := by
  obtain ⟨size, hsize, hslot⟩ := h
  obtain ⟨hlt, rfl⟩ := List.getElem?_eq_some_iff.1 hsize
  exact ⟨_, List.prefix_iff_getElem?.1 hw.2 frame hlt, hslot⟩

/-- Variables are used where there are such variables. Lambdas of earlier renders may be about, as
they are not called. -/
def discipline : Discipline Shape where
  slot := Has
  lambda w f := f.frame.render < w.render ∨ f.frame.render = w.render ∧
    (∀ x ∈ f.params, w.Has f.frame.index x) ∧ Stmt.OverList (w.Has f.frame.index) f.body
  program p := Stmt.OverList (· < p.slots.length) p.body
  slot_mono := Has.mono
  lambda_mono hw h := by
    rw [← hw.1]
    refine h.imp_right fun ⟨hr, hparams, hbody⟩ => ⟨hr, fun x hx => (hparams x hx).mono hw, ?_⟩
    exact (Stmt.overList_iff _).2 fun x hx => ((Stmt.overList_iff _).1 hbody x hx).mono hw

end Shape

/-- What surroundings promise of their state: what is always true of it, and which lambdas it may
hold. -/
structure Custody (σ : Type) where
  valid : σ → Prop
  holds : σ → Closure → Prop

def Program.Compiled (p : Program) : Prop :=
  ∃ d name source, compile d name source = .ok p

theorem Program.exists_tree {d : Delimiters} {name source : String} {p : Program}
    (h : compile d name source = .ok p) : ∃ tree, p = ofTree name tree :=
  (readTemplate_of_compile h).imp fun _ => And.right

theorem Program.Compiled.overList {p : Program} (h : p.Compiled) :
    Stmt.OverList (· < p.slots.length) p.body := by
  obtain ⟨d, name, source, h⟩ := h
  obtain ⟨tree, rfl⟩ := exists_tree h
  exact overList_ofTree name tree

structure World.Trusted {σ : Type} (world : World σ) (K : Custody σ) : Prop where
  compiled {name : String} {s : σ} {p : Program} :
    K.valid s → (world.load name s).1 = .ok p → p.Compiled
  load_valid {name : String} {s : σ} : K.valid s → K.valid (world.load name s).2
  load_holds {name : String} {s : σ} {f : Closure} :
    K.valid s → K.holds (world.load name s).2 f → K.holds s f
  call_valid {f : HostFunction} {args : List Value} {s : σ} :
    K.valid s → K.valid (world.call f args s).2
  call_holds {f : HostFunction} {args : List Value} {s : σ} {g : Closure} :
    K.valid s → K.holds (world.call f args s).2 g → K.holds s g ∨ ∃ v ∈ args, g ∈ v.closures
  call_result {f : HostFunction} {args : List Value} {s : σ} {v : Value} :
    K.valid s → (world.call f args s).1 = .ok v →
      v.Only fun g => K.holds s g ∨ ∃ u ∈ args, g ∈ u.closures

theorem World.Trusted.called {σ : Type} {world : World σ} {K : Custody σ} (h : world.Trusted K)
    {s : σ} (hs : K.valid s) {P : Closure → Prop} (hheld : ∀ g, K.holds s g → P g)
    (f : HostFunction) {args : List Value} (hargs : ∀ v ∈ args, v.Only P) :
    K.valid (world.call f args s).2 ∧ (∀ g, K.holds (world.call f args s).2 g → P g) ∧
      ∀ v, (world.call f args s).1 = .ok v → v.Only P := by
  have hgiven (g : Closure) (hg : K.holds s g ∨ ∃ v ∈ args, g ∈ v.closures) : P g := by
    obtain hg | ⟨v, hv, hg⟩ := hg
    · exact hheld g hg
    · exact hargs v hv g hg
  exact ⟨h.call_valid hs, fun g hg => hgiven g (h.call_holds hs hg),
    fun v hv => (h.call_result hs hv).mono hgiven⟩

namespace Context

variable {σ : Type}

theorem render_of_keeps {c : Context σ} {f : FrameId} (h : c.keeps f = true) :
    f.render = c.render :=
  beq_iff_eq.1 (Bool.and_eq_true_iff.1 h).1

theorem mem_blocks_of_block {c : Context σ} {name : String} {body : List SlotStmt} {frame : Nat}
    (h : c.block name = .compiled body frame) : (name, .compiled body frame) ∈ c.blocks := by
  unfold Context.block at h
  cases hfind : Entries.find? name c.blocks with
  | none => simp [hfind, Block.empty] at h
  | some b =>
    rw [hfind] at h
    exact h ▸ Entries.mem_of_find? hfind

def shape (c : Context σ) : Shape := ⟨c.render, c.frames.toList.map Array.size⟩

/-- Whether all code in a context, that in the custody of its surroundings included, uses variables
that there are. -/
structure Sound (K : Custody σ) (c : Context σ) : Prop where
  blocks : ∀ b ∈ c.blocks, ∀ body frame, b.2 = .compiled body frame →
    Shape.discipline.Code c.shape frame body
  self : c.self.Only (Shape.discipline.lambda c.shape)
  frames : ∀ vars ∈ c.frames, ∀ v ∈ vars, v.Only (Shape.discipline.lambda c.shape)
  world : K.valid c.world
  held : ∀ f, K.holds c.world f → Shape.discipline.lambda c.shape f

theorem lt_size {c : Context σ} {frame slot : Nat} (h : c.shape.Has frame slot) :
    slot < c.size frame := by
  obtain ⟨size, hsize, hslot⟩ := h
  simp only [shape, List.getElem?_map, Array.getElem?_toList] at hsize
  simpa [Context.size, hsize] using hslot

theorem shape_store (c : Context σ) (frame slot : Nat) (v : Value) :
    (c.store frame slot v).shape = c.shape := by
  have h : ((c.frames.modify frame fun vars => vars.setIfInBounds slot v).toList.map Array.size) =
      c.frames.toList.map Array.size := by
    refine List.ext_getElem? fun i => ?_
    simp only [Array.toList_modify, List.getElem?_map, List.getElem?_modify]
    split <;> cases c.frames.toList[i]? <;> simp
  simp only [shape, store, h]

theorem shape_newFrame (c : Context σ) (slots : Nat) :
    (c.newFrame slots).2.shape = ⟨c.render, c.shape.sizes ++ [slots]⟩ := by
  simp [newFrame, shape]

section Variables

variable {c : Context σ} {P : Value → Prop}

theorem forall_load (h : ∀ vars ∈ c.frames, ∀ v ∈ vars, P v) (hnull : P .null) (frame slot : Nat) :
    P (c.load frame slot) := by
  unfold load
  cases hvars : c.frames[frame]? with
  | none => exact hnull
  | some vars =>
    cases hv : vars[slot]? with
    | none => simpa [hv] using hnull
    | some v => simpa [hv] using h vars (Array.mem_of_getElem? hvars) v (Array.mem_of_getElem? hv)

theorem forall_store (h : ∀ vars ∈ c.frames, ∀ v ∈ vars, P v) {v : Value} (hv : P v)
    (frame slot : Nat) : ∀ vars ∈ (c.store frame slot v).frames, ∀ u ∈ vars, P u := by
  intro vars hvars u hu
  obtain ⟨i, hi⟩ := Array.mem_iff_getElem?.1 hvars
  simp only [store, Array.getElem?_modify] at hi
  split at hi
  · obtain ⟨old, hold, rfl⟩ := Option.map_eq_some_iff.1 hi
    rcases Array.mem_or_eq_of_mem_setIfInBounds hu with hu | rfl
    · exact h old (Array.mem_of_getElem? hold) u hu
    · exact hv
  · exact h vars (Array.mem_of_getElem? hi) u hu

theorem forall_newFrame (h : ∀ vars ∈ c.frames, ∀ v ∈ vars, P v) (hnull : P .null) (slots : Nat) :
    ∀ vars ∈ (c.newFrame slots).2.frames, ∀ v ∈ vars, P v := by
  intro vars hvars v hv
  simp only [newFrame, Array.mem_push] at hvars
  rcases hvars with hvars | rfl
  · exact h vars hvars v hv
  · exact (Array.mem_replicate.1 hv).2 ▸ hnull

end Variables

theorem sound_start {K : Custody σ} {options : Options} {render : Nat} {self : Value} {s : σ}
    (hvalid : K.valid s) (hheld : ∀ f, K.holds s f → f.frame.render < render)
    (hself : self.Only fun f => f.frame.render < render) :
    (start options render self s).Sound K where
  blocks _ h := nomatch h
  self := hself.mono fun _ hf => .inl hf
  frames vars h := absurd h (Array.not_mem_empty vars)
  world := hvalid
  held f hf := .inl (hheld f hf)

namespace Sound

variable {K : Custody σ} {c : Context σ}

theorem store (h : c.Sound K) {v : Value} (hv : v.Only (Shape.discipline.lambda c.shape))
    (frame slot : Nat) : (c.store frame slot v).Sound K := by
  have hshape := shape_store c frame slot v
  refine ⟨?_, ?_, ?_, h.world, ?_⟩
  · rw [hshape]
    exact h.blocks
  · rw [hshape]
    exact h.self
  · rw [hshape]
    exact forall_store h.frames hv frame slot
  · rw [hshape]
    exact h.held

theorem newFrame (h : c.Sound K) (slots : Nat) :
    c.shape ≤ (c.newFrame slots).2.shape ∧ (c.newFrame slots).2.Sound K := by
  have hshape := shape_newFrame c slots
  have hle : c.shape ≤ (c.newFrame slots).2.shape := by
    rw [hshape]
    exact ⟨rfl, List.prefix_append ..⟩
  refine ⟨hle, fun b hb body frame hbody => (h.blocks b hb body frame hbody).mono hle,
    h.self.mono fun _ => Shape.discipline.lambda_mono hle,
    forall_newFrame (fun vars hvars v hv => ?_) Value.only_null slots, h.world,
    fun f hf => Shape.discipline.lambda_mono hle (h.held f hf)⟩
  exact (h.frames vars hvars v hv).mono fun _ => Shape.discipline.lambda_mono hle

theorem define (h : c.Sound K) {b : Block}
    (hb : ∀ body frame, b = .compiled body frame → Shape.discipline.Code c.shape frame body)
    (name : String) : (c.define name b).Sound K :=
  have hblocks := Entries.forall_insert (p := fun b => ∀ body frame, b = Block.compiled body frame →
    Shape.discipline.Code c.shape frame body) (k := name) hb h.blocks
  ⟨hblocks, h.self, h.frames, h.world, h.held⟩

theorem block (h : c.Sound K) {name : String} {body : List SlotStmt} {frame : Nat}
    (hb : c.block name = .compiled body frame) : Shape.discipline.Code c.shape frame body :=
  h.blocks _ (mem_blocks_of_block hb) body frame rfl

theorem elsewhere (h : c.Sound K) (output : String) (depth : Nat) (pendingLayout : Option String)
    (running : List Nat) :
    ({ c with output, depth, pendingLayout, running } : Context σ).Sound K :=
  ⟨h.blocks, h.self, h.frames, h.world, h.held⟩

theorem withSelf (h : c.Sound K) {self : Value}
    (hself : self.Only (Shape.discipline.lambda c.shape)) :
    ({ c with self } : Context σ).Sound K :=
  ⟨h.blocks, hself, h.frames, h.world, h.held⟩

end Sound
end Context

namespace Run

variable {σ : Type} {K : Custody σ} {n : Nat} {w : Shape} {α β : Type}

theorem eq_ok_of_withWorld {f : σ → Except Error α × σ} {c : Context σ} {a : α}
    (h : ((withWorld f : Run σ α) c).1 = .ok a) : (f c.world).1 = .ok a := by
  rw [withWorld_apply] at h
  generalize (f c.world).1 = r at h ⊢
  cases r with
  | error e => cases h
  | ok b => exact congrArg _ (Except.ok.inj h)

/-- How runs end: the executions there were are still there, and the code in the context and in the
result uses variables that there are. -/
structure Leaves (K : Custody σ) (w : Shape) (k : ResultKind α)
    (s : Except Halt α × Context σ) : Prop where
  grown : w ≤ s.2.shape
  sound : s.2.Sound K
  result : ∀ a, s.1 = .ok a → k.Only (Shape.discipline.lambda s.2.shape) a

def Finds (K : Custody σ) (_ : Nat) (w : Shape) ⦃α : Type⦄ (k : ResultKind α)
    (t : Accessing σ α) (r : Run σ α) : Prop :=
  ∀ (c : Context σ) (past : List Access), c.shape = w → c.Sound K →
    ∃ used, t (c, past) = ((r c).1, (r c).2, past ++ used) ∧ (∀ a ∈ used, a.slot < a.size) ∧
      Leaves K w k (r c)

namespace Finds

theorem pure {k : ResultKind α} {a : α} (h : k.Only (Shape.discipline.lambda w) a) :
    Finds K n w k (pure a) (pure a) := by
  rintro c past rfl hs
  refine ⟨[], by rw [List.append_nil]; rfl, by simp, le_rfl, hs, fun b hb => ?_⟩
  obtain rfl := Except.ok.inj hb
  exact h

theorem bind_result {k : ResultKind α} {k' : ResultKind β} {t : Accessing σ α} {r : Run σ α}
    {f : α → Accessing σ β} {g : α → Run σ β} (h : Finds K n w k t r)
    (hf : ∀ w', w ≤ w' → ∀ a, k.Only (Shape.discipline.lambda w') a →
      (∃ c : Context σ, c.Sound K ∧ (r c).1 = .ok a) → Finds K n w' k' (f a) (g a)) :
    Finds K n w k' (t >>= f) (r >>= g) := by
  intro c past hc hs
  obtain ⟨used, ht, hused, hl⟩ := h c past hc hs
  have hresult (a : α) (ha : (r c).1 = .ok a) := hf _ hl.grown a (hl.result a ha) ⟨c, hs, ha⟩
  rw [bind_apply, bind_apply, ht]
  generalize r c = x at hl hresult
  obtain ⟨e | a, c'⟩ := x
  · exact ⟨used, rfl, hused, hl.grown, hl.sound, fun _ h => nomatch h⟩
  · obtain ⟨more, hm, hmore, hl'⟩ := hresult a rfl c' (past ++ used) rfl hl.sound
    refine ⟨used ++ more, by rw [← List.append_assoc]; exact hm, ?_, ?_⟩
    · exact List.forall_mem_append.2 ⟨hused, hmore⟩
    · exact ⟨hl.grown.trans hl'.grown, hl'.sound, hl'.result⟩

theorem bind {k : ResultKind α} {k' : ResultKind β} {t : Accessing σ α} {r : Run σ α}
    {f : α → Accessing σ β} {g : α → Run σ β} (h : Finds K n w k t r)
    (hf : ∀ w', w ≤ w' → ∀ a, k.Only (Shape.discipline.lambda w') a →
      Finds K n w' k' (f a) (g a)) :
    Finds K n w k' (t >>= f) (r >>= g) :=
  bind_result h fun w' hw a ha _ => hf w' hw a ha

theorem halt {k : ResultKind α} (h : Halt) : Finds K n w k (halt h) (halt h) := by
  rintro c past rfl hs
  exact ⟨[], by rw [List.append_nil]; rfl, by simp, le_rfl, hs, fun _ h => nomatch h⟩

theorem attempt {k : ResultKind α} {t : Accessing σ α} {r : Run σ α} (h : Finds K n w k t r) :
    Finds K n w (.attempted k) (attempt t) (attempt r) := by
  intro c past hc hs
  obtain ⟨used, ht, hused, hl⟩ := h c past hc hs
  refine ⟨used, ?_, hused, hl.grown, hl.sound, fun a ha => ?_⟩
  · show ((.ok (t (c, past)).1 : Except Halt _), (t (c, past)).2) = _
    rw [ht]
    rfl
  · obtain rfl := Except.ok.inj ha
    cases hr : (r c).1 with
    | ok a => exact hl.result a hr
    | error e => exact trivial

theorem get_bind {k : ResultKind β} {f : Context σ → α} {t : α → Accessing σ β}
    {r : α → Run σ β}
    (h : ∀ c : Context σ, c.shape = w → c.Sound K → Finds K n w k (t (f c)) (r (f c))) :
    Finds K n w k (get f >>= t) (get f >>= r) :=
  fun c past hc hs => h c hc hs c past hc hs

theorem update_bind {w' : Shape} {k : ResultKind α} {f : Context σ → Context σ}
    {t : Accessing σ α} {r : Run σ α} (hw : w ≤ w')
    (hf : ∀ c : Context σ, c.shape = w → c.Sound K → (f c).shape = w' ∧ (f c).Sound K)
    (h : Finds K n w' k t r) :
    Finds K n w k (update f >>= fun _ => t) (update f >>= fun _ => r) := by
  intro c past hc hs
  obtain ⟨hc', hs'⟩ := hf c hc hs
  obtain ⟨used, ht, hused, hl⟩ := h (f c) past hc' hs'
  exact ⟨used, ht, hused, hw.trans hl.grown, hl.sound, hl.result⟩

theorem get {k : ResultKind α} {f : Context σ → α}
    (h : ∀ c : Context σ, c.shape = w → c.Sound K → k.Only (Shape.discipline.lambda w) (f c)) :
    Finds K n w k (get f) (get f) := by
  rintro c past rfl hs
  refine ⟨[], by rw [List.append_nil]; rfl, by simp, le_rfl, hs, fun b hb => ?_⟩
  obtain rfl := Except.ok.inj hb
  exact h c rfl hs

theorem update {f : Context σ → Context σ}
    (h : ∀ c : Context σ, c.shape = w → c.Sound K → w ≤ (f c).shape ∧ (f c).Sound K) :
    Finds K n w .any (update f) (update f) := by
  intro c past hc hs
  obtain ⟨hle, hs'⟩ := h c hc hs
  exact ⟨[], by rw [List.append_nil]; rfl, by simp, hle, hs', fun _ _ => trivial⟩

theorem endAs {k : ResultKind α} {a : Except Halt α}
    (h : (ResultKind.attempted k).Only (Shape.discipline.lambda w) a) :
    Finds K n w k (endAs a) (endAs a) := by
  cases a with
  | ok a => exact pure h
  | error e => exact halt e

theorem between {before : Context σ → Context σ} {after : Context σ → Context σ → Context σ}
    {k : ResultKind α} {t : Accessing σ α} {r : Run σ α}
    (hb : ∀ c : Context σ, c.shape = w → c.Sound K →
      (before c).shape = w ∧ (before c).Sound K)
    (ha : ∀ c c' : Context σ, c.shape = w → c.Sound K → w ≤ c'.shape → c'.Sound K →
      (after c c').shape = c'.shape ∧ (after c c').Sound K)
    (h : Finds K n w k t r) :
    Finds K n w k (between before after t) (between before after r) := by
  refine get_bind fun c hc hs => update_bind le_rfl hb ?_
  refine bind (attempt h) fun w₁ h₁ a hresult => ?_
  refine bind (update fun c' hc' hs' => ?_) fun w₂ h₂ _ _ => ?_
  · have := ha c c' hc hs (hc' ▸ h₁) hs'
    exact ⟨(this.1.trans hc').ge, this.2⟩
  · exact endAs (hresult.mono fun _ => Shape.discipline.lambda_mono h₂)

theorem withWorld {k : ResultKind α} {f : σ → Except Error α × σ}
    (h : ∀ c : Context σ, c.shape = w → c.Sound K → K.valid (f c.world).2 ∧
      (∀ g, K.holds (f c.world).2 g → Shape.discipline.lambda w g) ∧
      ∀ a, (f c.world).1 = .ok a → k.Only (Shape.discipline.lambda w) a) :
    Finds K n w k (withWorld f) (withWorld f) := by
  refine get_bind fun c hc hs => ?_
  obtain ⟨hworld, hheld, hresult⟩ := h c hc hs
  refine update_bind le_rfl (fun c' hc' hs' => ?_) ?_
  · exact ⟨hc', hs'.blocks, hs'.self, hs'.frames, hworld, fun g hg => hc' ▸ hheld g hg⟩
  · cases hf : (f c.world).1 with
    | ok a => exact pure (hresult a hf)
    | error e => exact halt _

theorem load {frame slot : Nat} (h : w.Has frame slot) :
    Finds K n w .value (load frame slot) (load frame slot) := by
  rintro c past rfl hs
  refine ⟨[⟨frame, slot, c.size frame⟩], rfl, ?_, le_rfl, hs, fun v hv => ?_⟩
  · exact fun a ha => List.mem_singleton.1 ha ▸ Context.lt_size h
  · obtain rfl := Except.ok.inj hv
    exact c.forall_load hs.frames Value.only_null frame slot

theorem store {frame slot : Nat} {v : Value} (h : w.Has frame slot)
    (hv : v.Only (Shape.discipline.lambda w)) :
    Finds K n w .any (store frame slot v) (store frame slot v) := by
  rintro c past rfl hs
  refine ⟨[⟨frame, slot, c.size frame⟩], rfl, ?_, ?_, hs.store hv frame slot, fun _ _ => trivial⟩
  · exact fun a ha => List.mem_singleton.1 ha ▸ Context.lt_size h
  · exact (Context.shape_store c frame slot v).ge

theorem sequential (K : Custody σ) : Sequential Shape.discipline (Finds K) :=
  ⟨pure, bind, load, store⟩

theorem keeps {k : ResultKind α} {f : Closure} {t : Bool → Accessing σ α} {r : Bool → Run σ α}
    (hf : Shape.discipline.lambda w f) (hgone : Finds K n w k (t false) (r false))
    (hkept : (∀ x ∈ f.params, w.Has f.frame.index x) →
      Shape.discipline.Code w f.frame.index f.body → Finds K n w k (t true) (r true)) :
    Finds K n w k (MonadRender.get (fun c => c.keeps f.frame) >>= t)
      (MonadRender.get (fun c => c.keeps f.frame) >>= r) := by
  refine get_bind fun c hc _ => ?_
  cases hkeeps : c.keeps f.frame with
  | false => exact hgone
  | true =>
    have hrender : f.frame.render = w.render := by
      rw [← hc]
      exact Context.render_of_keeps hkeeps
    obtain hlt | ⟨-, hparams, hbody⟩ := hf
    · exact absurd hrender (Nat.ne_of_lt hlt)
    · exact hkept hparams (Discipline.code_iff.2 ⟨hbody, fun _ _ => trivial⟩)

theorem fresh {k : ResultKind α} {p : Program} {t : Nat → Accessing σ α} {r : Nat → Run σ α}
    (hp : Shape.discipline.program p)
    (h : ∀ w', w ≤ w' → ∀ frame, Shape.discipline.Code w' frame p.body →
      Finds K n w' k (t frame) (r frame)) :
    Finds K n w k
      (MonadRender.get (fun c => c.frames.size) >>= fun frame =>
        MonadRender.update (fun c => (c.newFrame p.slots.length).2) >>= fun _ => t frame)
      (MonadRender.get (fun c => c.frames.size) >>= fun frame =>
        MonadRender.update (fun c => (c.newFrame p.slots.length).2) >>= fun _ => r frame) := by
  refine get_bind fun c hc hs => ?_
  have hle : w ≤ ⟨w.render, w.sizes ++ [p.slots.length]⟩ := ⟨rfl, List.prefix_append ..⟩
  refine update_bind hle (fun c' hc' hs' => ?_) (h _ hle _ ?_)
  · rw [← hc']
    exact ⟨Context.shape_newFrame .., (hs'.newFrame _).2⟩
  · refine Discipline.code_iff.2 ⟨(Stmt.overList_iff _).2 fun x hx => ?_, fun _ _ => trivial⟩
    refine ⟨p.slots.length, ?_, (Stmt.overList_iff _).1 hp x hx⟩
    simp [← hc, Context.shape]

theorem inside {k : ResultKind α} {t : Accessing σ α} {r : Run σ α} (name : String)
    (h : Finds K n w k t r) : Finds K n w k (inside name t) (inside name r) := by
  refine get_bind fun c _ _ => ?_
  split
  · exact halt _
  · exact between (fun _ hc hs => ⟨hc, hs.elsewhere ..⟩)
      (fun _ _ _ _ _ hs' => ⟨rfl, hs'.elsewhere ..⟩) h

theorem withSelf {k : ResultKind α} {t : Accessing σ α} {r : Run σ α} {self : Value}
    (hself : self.Only (Shape.discipline.lambda w)) (h : Finds K n w k t r) :
    Finds K n w k (withSelf self t) (withSelf self r) := by
  refine between (fun c hc hs => ⟨hc, hs.withSelf (hc ▸ hself)⟩)
    (fun c c' hc hs hle hs' => ⟨rfl, hs'.withSelf ?_⟩) h
  exact hs.self.mono fun _ => Shape.discipline.lambda_mono (hc ▸ hle)

theorem holding {k : ResultKind α} {t : Accessing σ α} {r : Run σ α} (frame : Nat)
    (h : Finds K n w k t r) : Finds K n w k (holding frame t) (holding frame r) := by
  change Finds K n w k (Run.between (Context.hold frame) Context.release t)
    (Run.between (Context.hold frame) Context.release r)
  exact between (fun _ hc hs => ⟨hc, hs.elsewhere ..⟩)
    (fun _ _ _ _ _ hs' => ⟨rfl, hs'.elsewhere ..⟩) h

theorem captured {t : Accessing σ Unit} {r : Run σ Unit} (h : Finds K n w .any t r) :
    Finds K n w .any (captured t) (captured r) := by
  refine get_bind fun c _ _ => update_bind le_rfl (fun _ hc hs => ⟨hc, hs.elsewhere ..⟩) ?_
  refine bind (attempt h) fun _ _ a _ => ?_
  refine bind (k := .any) (get fun _ _ _ => trivial) fun _ _ rendered _ => ?_
  cases a with
  | ok _ => exact bind (update fun _ hc hs => ⟨hc.ge, hs.elsewhere ..⟩) fun _ _ _ _ => pure trivial
  | error e => exact bind (update fun _ hc hs => ⟨hc.ge, hs.elsewhere ..⟩) fun _ _ _ _ => halt e

theorem host {world : World σ} (hworld : world.Trusted K) (f : HostFunction) {args : List Value}
    (hargs : ∀ v ∈ args, v.Only (Shape.discipline.lambda w)) :
    Finds K n w .value (Run.withWorld (world.call f args)) (Run.withWorld (world.call f args)) := by
  refine withWorld fun c hc hs => hworld.called hs.world (fun g hg => ?_) f hargs
  exact hc ▸ hs.held g hg

theorem template {world : World σ} (hworld : world.Trusted K) {k : ResultKind α}
    {t : Program → Accessing σ α} {r : Program → Run σ α} (name : String)
    (h : ∀ w', w ≤ w' → ∀ p q : Program, p.Alike q → Shape.discipline.program p →
      Finds K n w' k (t p) (r q)) :
    Finds K n w k (Run.withWorld (world.load name) >>= t)
      (Run.withWorld (world.load name) >>= r) := by
  have hload : Finds K n w .any (Run.withWorld (world.load name))
      (Run.withWorld (world.load name)) := withWorld fun c hc hs =>
    ⟨hworld.load_valid hs.world, fun g hg => hc ▸ hs.held g (hworld.load_holds hs.world hg),
      fun _ _ => trivial⟩
  refine bind_result hload fun w' hw p _ ⟨c, hs, hp⟩ => h w' hw p p ⟨rfl, rfl⟩ ?_
  exact (hworld.compiled hs.world (eq_ok_of_withWorld hp)).overList

end Finds

theorem logicalRelation_finds {world : World σ} {K : Custody σ} (hworld : world.Trusted K) :
    LogicalRelation Shape.discipline world world (Finds K) where
  toSequential := Finds.sequential K
  fail _ := Finds.halt _
  self := Finds.get fun c hc hs => hc ▸ hs.self
  extendMode := Finds.get fun _ _ _ => trivial
  append _ := Finds.update fun _ hc hs => ⟨hc.ge, hs.elsewhere ..⟩
  print _ _ := Finds.update fun _ hc hs => ⟨hc.ge, hs.elsewhere ..⟩
  define name h := Finds.update fun c hc hs => ⟨hc.ge, hs.define (fun _ _ hb => by
    cases hb
    exact hc ▸ h) name⟩
  requestLayout _ := Finds.update fun _ hc hs => ⟨hc.ge, hs.elsewhere ..⟩
  defineContent _ := Finds.update fun c hc hs => by
    split
    · exact ⟨hc.ge, hs⟩
    · exact ⟨hc.ge, hs.define (fun _ _ hb => by cases hb) defaultBlock⟩
  block name htext hcompiled := Finds.get_bind fun c hc hs => by
    cases hb : c.block name with
    | text content => exact htext _ le_rfl content trivial
    | compiled body frame => exact hcompiled _ le_rfl body frame (hc ▸ hs.block hb)
  lambda hparams hbody := Finds.get_bind fun c hc _ =>
    have hover := (Discipline.code_iff.1 hbody).1
    Finds.pure (Value.only_closure.2 (.inr ⟨congrArg Shape.render hc, hparams, hover⟩))
  keeps hf hgone hkept := Finds.keeps hf (hgone _ le_rfl) (hkept _ le_rfl)
  fresh := Finds.fresh
  inside := Finds.inside
  withSelf := Finds.withSelf
  holding := Finds.holding
  captured h hf := Finds.bind (Finds.captured h) fun w' hw rendered _ => hf w' hw rendered trivial
  binding hparams hargs h :=
    (Finds.sequential K).binding_of_attempt Finds.attempt Finds.halt hparams hargs h
  host f args hargs := Finds.host hworld f hargs
  template := Finds.template hworld

end Run
end TextTemplate
