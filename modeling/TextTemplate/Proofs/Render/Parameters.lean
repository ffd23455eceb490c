import TextTemplate.Proofs.Render.Access
import TextTemplate.Proofs.Render.Simulation

/-! What the parameters of a lambda hold after a call. They get new values one after the other and
their old values back in the same order, so that a parameter named twice gets back what it held
when its name came up last: an argument. -/

namespace TextTemplate

namespace Context

variable {σ : Type} {c : Context σ} {frame slot other : Nat} {v : Value}

theorem size_eq (c : Context σ) (frame : Nat) : c.size frame = (c.shape.sizes[frame]?).getD 0 := by
  simp [size, shape]

theorem size_le_of_shape_le {c' : Context σ} (h : c.shape ≤ c'.shape) (frame : Nat) :
    c.size frame ≤ c'.size frame := by
  rw [size_eq, size_eq]
  cases hsize : c.shape.sizes[frame]? with
  | none => exact Nat.zero_le _
  | some size =>
    obtain ⟨hlt, rfl⟩ := List.getElem?_eq_some_iff.1 hsize
    rw [List.prefix_iff_getElem?.1 h.2 frame hlt]

theorem size_store : (c.store frame slot v).size other = c.size other := by
  rw [size_eq, size_eq, shape_store]

theorem load_store_self (h : slot < c.size frame) :
    (c.store frame slot v).load frame slot = v := by
  unfold size at h
  cases hvars : c.frames[frame]? with
  | none => simp [hvars] at h
  | some vars =>
    rw [hvars] at h
    simp [load, store, Array.getElem?_modify, hvars, show slot < vars.size from h]

theorem load_store_ne (h : other ≠ slot) :
    (c.store frame slot v).load frame other = c.load frame other := by
  cases hvars : c.frames[frame]? with
  | none => simp [load, store, Array.getElem?_modify, hvars]
  | some vars =>
    simp [load, store, Array.getElem?_modify, hvars, Array.getElem?_setIfInBounds_ne h.symm]

def exchange (frame : Nat) : List (Nat × Value) → Context σ → List Value × Context σ
  | [], c => ([], c)
  | (slot, v) :: rest, c =>
    let later := exchange frame rest (c.store frame slot v)
    (c.load frame slot :: later.1, later.2)

def valuesFor (slot : Nat) (vs : List (Nat × Value)) : List Value :=
  (vs.filter (·.1 == slot)).map Prod.snd

variable {vs : List (Nat × Value)}

theorem valuesFor_cons_self : valuesFor slot ((slot, v) :: vs) = v :: valuesFor slot vs := by
  simp [valuesFor]

theorem valuesFor_cons_ne (h : other ≠ slot) :
    valuesFor slot ((other, v) :: vs) = valuesFor slot vs := by
  simp [valuesFor, h]

theorem length_valuesFor {params : List Nat} {args : List Value}
    (h : args.length = params.length) :
    (valuesFor slot (params.zip args)).length = params.count slot := by
  induction params generalizing args with
  | nil => rfl
  | cons other params ih =>
    cases args with
    | nil => simp at h
    | cons v args =>
      have hrest := ih (Nat.succ.inj h)
      rw [List.zip_cons_cons, List.count_cons]
      by_cases he : other = slot
      · rw [he, valuesFor_cons_self, List.length_cons, hrest, if_pos (beq_self_eq_true slot)]
      · rw [valuesFor_cons_ne he, hrest, if_neg (by simpa using he)]
        rfl

theorem shape_exchange : (exchange frame vs c).2.shape = c.shape := by
  induction vs generalizing c with
  | nil => rfl
  | cons e vs ih => rw [exchange, ih, shape_store]

theorem load_exchange (h : slot < c.size frame) :
    (exchange frame vs c).2.load frame slot =
      (valuesFor slot vs).getLast?.getD (c.load frame slot) := by
  induction vs generalizing c with
  | nil => rfl
  | cons e vs ih =>
    obtain ⟨other, v⟩ := e
    rw [exchange, ih (size_store.symm ▸ h)]
    by_cases he : other = slot
    · subst he
      rw [valuesFor_cons_self, List.getLast?_cons, load_store_self h]
      rfl
    · rw [valuesFor_cons_ne he, load_store_ne (Ne.symm he)]

/-- What a variable has had: its old value, and then all that was meant for it but the last. -/
theorem valuesFor_exchange (vs : List (Nat × Value)) (h : slot < c.size frame) :
    valuesFor slot ((vs.map Prod.fst).zip (exchange frame vs c).1) =
      (c.load frame slot :: valuesFor slot vs).dropLast := by
  induction vs generalizing c with
  | nil => rfl
  | cons e vs ih =>
    obtain ⟨other, v⟩ := e
    have hlater := ih (c := c.store frame other v) (size_store.symm ▸ h)
    rw [exchange, List.map_cons, List.zip_cons_cons]
    by_cases he : other = slot
    · subst he
      rw [valuesFor_cons_self, valuesFor_cons_self, hlater, load_store_self h]
      rfl
    · rw [valuesFor_cons_ne he, valuesFor_cons_ne he, hlater, load_store_ne (Ne.symm he)]

end Context

namespace Run

variable {σ α β : Type}

def Growing ⦃α : Type⦄ (r _r' : Run σ α) : Prop :=
  ∀ c : Context σ, c.shape ≤ (r c).2.shape

namespace Growing

variable {r r' : Run σ α}

theorem bind {f f' : α → Run σ β} (h : Growing r r') (hf : ∀ a, Growing (f a) (f' a)) :
    Growing (r >>= f) (r' >>= f') := by
  intro c
  have hr := h c
  rw [bind_apply]
  generalize r c = x at hr
  obtain ⟨_ | a, c'⟩ := x
  · exact hr
  · exact hr.trans (hf a c')

theorem get (f : Context σ → α) : Growing (get f) (get f) := fun _ => le_rfl

theorem update {f : Context σ → Context σ} (h : ∀ c, c.shape ≤ (f c).shape) :
    Growing (update f) (update f) := h

theorem halt (h : Halt) : Growing (halt h : Run σ α) (halt h) := fun _ => le_rfl

theorem attempt (h : Growing r r') : Growing (attempt r) (attempt r') := h

theorem between {before : Context σ → Context σ} {after : Context σ → Context σ → Context σ}
    (hbefore : ∀ c, (before c).shape = c.shape) (hafter : ∀ c c', (after c c').shape = c'.shape)
    (h : Growing r r') : Growing (between before after r) (between before after r') := by
  intro c
  rw [between_apply, hafter, ← hbefore c]
  exact h (before c)

theorem inside (name : String) (h : Growing r r') : Growing (inside name r) (inside name r') := by
  rw [inside_eq, inside_eq]
  refine bind (get _) fun levels => ?_
  split
  · exact halt _
  · exact between (fun _ => rfl) (fun _ _ => rfl) h

theorem captured {x x' : Run σ Unit} (h : Growing x x') : Growing (captured x) (captured x') := by
  intro c
  have hx := h c.aside
  rw [captured_apply]
  generalize x c.aside = y at hx
  obtain ⟨_ | _, c'⟩ := y
  · exact hx
  · exact hx

theorem withWorld (f : σ → Except Error α × σ) : Growing (withWorld f) (withWorld f) := by
  intro c
  rw [withWorld_apply]
  exact le_rfl

end Growing

theorem simulation_growing (world : World σ) : Simulation world world (Growing (σ := σ)) where
  pure a := Growing.get fun _ => a
  bind := Growing.bind
  halt := Growing.halt
  attempt := Growing.attempt
  self := Growing.get _
  extendMode := Growing.get _
  render := Growing.get _
  block _ := Growing.get _
  keeps _ := Growing.get _
  frameCount := Growing.get _
  load _ _ := Growing.get _
  store _ _ _ := Growing.update fun c => (c.shape_store ..).ge
  newFrame slots := Growing.update fun c => by
    rw [c.shape_newFrame]
    exact ⟨rfl, List.prefix_append ..⟩
  append _ := Growing.update fun _ => le_rfl
  print _ _ := Growing.update fun _ => le_rfl
  define _ _ := Growing.update fun _ => le_rfl
  requestLayout _ := Growing.update fun _ => le_rfl
  defineContent _ := Growing.update fun c => by split <;> exact le_rfl
  inside := Growing.inside
  withSelf _ := Growing.between (fun _ => rfl) fun _ _ => rfl
  holding _ := Growing.between (fun _ => rfl) fun _ _ => rfl
  captured := Growing.captured
  host _ _ := Growing.withWorld _
  template _ h := Growing.bind (Growing.withWorld _) fun p => h p p ⟨rfl, rfl⟩

theorem replaceAll_eq_exchange (frame : Nat) (vs : List (Nat × Value)) (c : Context σ) :
    (replaceAll frame vs : Run σ _) c =
      (.ok (c.exchange frame vs).1, (c.exchange frame vs).2) := by
  induction vs generalizing c with
  | nil => rfl
  | cons e vs ih =>
    show ((replaceAll frame vs >>= fun olds => pure (c.load frame e.1 :: olds) : Run σ _)
      (c.store frame e.1 e.2)) = _
    rw [bind_apply, ih]
    rfl

theorem binding_apply (frame : Nat) (params : List Nat) (args : List Value) (r : Run σ α)
    (c : Context σ) :
    binding frame params args r c =
      let given := c.exchange frame (params.zip args)
      ((r given.2).1, ((r given.2).2.exchange frame (params.zip given.1)).2) := by
  simp only [binding, bind_apply, forEffect, replaceAll_eq_exchange, attempt_apply, pure_apply,
    endAs_apply]

theorem load_binding {frame x : Nat} {params : List Nat} {args : List Value} {r : Run σ α}
    {c : Context σ} (hr : Growing r r) (hargs : args.length = params.length) (hx : x ∈ params)
    (hsize : x < c.size frame) :
    (binding frame params args r c).2.load frame x =
      (Context.valuesFor x (params.zip args)).dropLast.getLast?.getD (c.load frame x) := by
  have hparams : (params.zip args).map Prod.fst = params :=
    List.map_fst_zip (Nat.le_of_eq hargs.symm)
  have hhad := c.valuesFor_exchange (params.zip args) hsize
  have hne : Context.valuesFor x (params.zip args) ≠ [] := by
    obtain ⟨e, he, hfst⟩ := List.mem_map.1 (hparams.symm ▸ hx)
    have hmem : e.2 ∈ Context.valuesFor x (params.zip args) :=
      List.mem_map_of_mem (List.mem_filter.2 ⟨he, by simpa using hfst⟩)
    exact List.ne_nil_of_mem hmem
  rw [hparams, List.dropLast_cons_of_ne_nil hne] at hhad
  have hgrown := Context.size_le_of_shape_le (hr (c.exchange frame (params.zip args)).2) frame
  rw [Context.size_eq, Context.shape_exchange, ← Context.size_eq] at hgrown
  rw [binding_apply]
  dsimp only
  rw [Context.load_exchange (Nat.lt_of_lt_of_le hsize hgrown), hhad, List.getLast?_cons]
  rfl

end Run

/-- Whether a lambda can be called: its variables are still there, it gets as many arguments as it
has parameters, and the depth limit leaves a level. -/
def Context.CanCall {σ : Type} (c : Context σ) (f : Closure) (args : List Value) : Prop :=
  c.keeps f.frame = true ∧ args.length = f.params.length ∧ c.depth < c.maxDepth

namespace Run

variable {σ : Type} {deep : Deep (Run σ)} {f : Closure} {args : List Value} {c : Context σ}

theorem callClosure_of_canCall (h : c.CanCall f args) :
    callClosure deep f args c =
      let s := binding f.frame.index f.params args (deep.body f.frame.index f.body)
        { c with depth := c.depth + 1 }
      (s.1, { s.2 with depth := s.2.depth - 1 }) := by
  obtain ⟨hkeeps, hargs, hdepth⟩ := h
  simp only [callClosure, bind_apply, get_apply, hkeeps, hargs]
  simp [inside_apply, Nat.not_le.2 hdepth]

theorem callClosure_of_not_canCall (h : ¬ c.CanCall f args) :
    (callClosure deep f args c).2 = c := by
  rw [callClosure, bind_apply, get_apply]
  dsimp only
  split
  · rfl
  rename_i hkeeps
  split
  · rfl
  rename_i hargs
  rw [inside_apply]
  split
  · rfl
  · rename_i hdepth
    exact absurd ⟨by simpa using hkeeps, not_not.1 hargs, Nat.not_le.1 hdepth⟩ h

theorem load_callClosure (world : World σ) (n : Nat) {x : Nat} (hx : x ∈ f.params)
    (hsize : x < c.size f.frame.index) (h : c.CanCall f args) :
    (callClosure (levels (m := Run σ) world n) f args c).2.load f.frame.index x =
      (Context.valuesFor x (f.params.zip args)).dropLast.getLast?.getD
        (c.load f.frame.index x) := by
  have hbody : Growing ((levels (m := Run σ) world n).body f.frame.index f.body) _ :=
    ((simulation_growing world).levels n).body (w := ()) (Discipline.free_code f.body)
  rw [callClosure_of_canCall h]
  exact load_binding hbody h.2.1 hx (c := { c with depth := c.depth + 1 }) hsize

/-- A parameter that is named once holds after a call what it held before, however the call ends.
One that is named several times holds the argument that was meant for it last but one. -/
theorem callClosure_parameters (world : World σ) (n : Nat) (f : Closure) (args : List Value)
    (c : Context σ) {x : Nat} (hx : x ∈ f.params) (hsize : x < c.size f.frame.index) :
    let after := (callClosure (levels (m := Run σ) world n) f args c).2
    (f.params.count x = 1 → after.load f.frame.index x = c.load f.frame.index x) ∧
      (c.CanCall f args → after.load f.frame.index x =
        (Context.valuesFor x (f.params.zip args)).dropLast.getLast?.getD
          (c.load f.frame.index x)) ∧
      (¬ c.CanCall f args → after = c) := by
  intro after
  have hcall (h : c.CanCall f args) : after.load f.frame.index x = _ :=
    load_callClosure world n hx hsize h
  have hstay (h : ¬ c.CanCall f args) : after = c := callClosure_of_not_canCall h
  refine ⟨fun hcount => ?_, hcall, hstay⟩
  by_cases h : c.CanCall f args
  · have hlength : (Context.valuesFor x (f.params.zip args)).length = 1 :=
      (Context.length_valuesFor h.2.1).trans hcount
    obtain ⟨v, hv⟩ := List.length_eq_one_iff.1 hlength
    rw [hcall h, hv]
    rfl
  · rw [hstay h]

/-- The body of a lambda with the parameters `(a, b, a)` assigns to `b` and fails. Then `b` holds
what it held, and `a` the first of the two arguments that were meant for it. -/
theorem callClosure_parameters_a_b_a :
    let world : World Unit := ⟨fun name s => (.ok ⟨name, [], []⟩, s), fun _ _ s => (.ok .null, s)⟩
    let c : Context Unit :=
      { Context.start {} 0 .null () with frames := #[#[.int 1, .int 2]], running := [0] }
    let f : Closure := ⟨⟨0, 0⟩, 0, [0, 1, 0],
      [.expr (.assign 1 none (.literal (.int 9))), .expr (.call (.literal .null) [])]⟩
    let called := callClosure (levels (m := Run Unit) world 9) f [.int 5, .int 6, .int 7] c
    called.1 = .error (.error (.invalidInvocation (.notCallable Value.null.describe))) ∧
      (0 ∈ f.params ∧ 1 ∈ f.params) ∧ 0 < c.size 0 ∧ 1 < c.size 0 ∧
      called.2.load 0 0 = .int 5 ∧ called.2.load 0 1 = .int 2 := by
  intro world c f called
  have hcan : c.CanCall f [.int 5, .int 6, .int 7] := ⟨by decide, rfl, by decide⟩
  have ha := (callClosure_parameters world 9 f [.int 5, .int 6, .int 7] c
    (x := 0) (by decide) (by decide)).2.1 hcan
  have hb := (callClosure_parameters world 9 f [.int 5, .int 6, .int 7] c
    (x := 1) (by decide) (by decide)).1 (by decide)
  exact ⟨rfl, ⟨by decide, by decide⟩, by decide, by decide, ha.trans rfl, hb.trans rfl⟩

/-- The template compiles and prints 5: after the call the variable `a` holds the first of the two
arguments, and not the 1 that it held before. -/
theorem doubled_parameter_not_restored :
    let world : World Unit := ⟨fun name s => (.ok ⟨name, [], []⟩, s), fun _ _ s => (.ok .null, s)⟩
    let c : Context Unit :=
      { Context.start {} 0 .null () with frames := #[#[.int 1]], running := [0] }
    let f : Closure := ⟨⟨0, 0⟩, 0, [0, 0], [.expr (.var 0)]⟩
    let called := callClosure (levels (m := Run Unit) world 9) f [.int 5, .int 6] c
    c.load 0 0 = .int 1 ∧ called.2.load 0 0 = .int 5 ∧ called.2.load 0 0 ≠ c.load 0 0 ∧
      (compile .default "page" "<% a = 1 %><% f = (a, a) -> a end %><% f(5, 6) %><%= a %>"
        ).toOption.map (fun p => ((Context.start {} 0 .null ()).renderProgram world p).2.output) =
        some "5" := by
  intro world c f called
  have hafter : called.2.load 0 0 = .int 5 := rfl
  refine ⟨rfl, hafter, fun h => ?_, ?_⟩
  · rw [hafter] at h
    exact absurd (Value.int.inj h) (by decide)
  · decide +kernel

end Run
end TextTemplate
