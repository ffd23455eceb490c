import TextTemplate.Proofs.Render.Commuting
import TextTemplate.Proofs.Value.Equality

/-! The keys of each map in a render are distinct. Map literals insert their entries one after the
other, and no other operation makes maps; so if the keys are distinct in what a template is given,
they are in all that it computes. -/

namespace TextTemplate

namespace Value

variable {v : Value}

theorem keyed_null : null.Keyed :=
  trivial

theorem keyed_literal (l : Literal) : l.value.Keyed := by
  cases l <;> exact trivial

theorem Keyed.member {name : String} {m : Value} (hv : v.Keyed) (h : v.member name = .ok m) :
    m.Keyed := by
  unfold Value.member at h
  split at h
  · rename_i m' hm
    obtain rfl := Except.ok.inj h
    unfold Value.member? at hm
    split at hm
    · exact (keyed_map.1 hv).2 _ (Entries.mem_of_find? hm)
    · exact keyedUnder_iff.1 hv _ (Entries.mem_of_find? hm)
    · split at hm
      · exact Option.some.inj hm ▸ trivial
      · cases hm
    · split at hm
      · exact Option.some.inj hm ▸ trivial
      · cases hm
    · cases hm
  · cases h

theorem Keyed.elements {vs : List Value} (hv : v.Keyed) (h : v.elements = .ok vs) :
    ∀ u ∈ vs, u.Keyed := by
  unfold Value.elements at h
  split at h
  · obtain rfl := Except.ok.inj h
    exact keyed_array.1 hv
  · obtain rfl := Except.ok.inj h
    intro u hu
    obtain ⟨e, -, rfl⟩ := List.mem_map.1 hu
    exact trivial
  · obtain rfl := Except.ok.inj h
    intro u hu
    obtain ⟨c, -, rfl⟩ := List.mem_map.1 hu
    exact trivial
  · cases h

end Value

/-- Surroundings in which the keys of maps are distinct as long as they are in what is handed to
them; `valid` is what is then always true of their state. -/
structure World.Keyed {σ : Type} (world : World σ) (valid : σ → Prop) : Prop where
  load {name : String} {s : σ} : valid s → valid (world.load name s).2
  call {f : HostFunction} {args : List Value} {s : σ} : valid s → (∀ v ∈ args, v.Keyed) →
    valid (world.call f args s).2 ∧ ∀ v, (world.call f args s).1 = .ok v → v.Keyed

namespace Context

variable {σ : Type}

structure Keyed (valid : σ → Prop) (c : Context σ) : Prop where
  self : c.self.Keyed
  frames : ∀ vars ∈ c.frames, ∀ v ∈ vars, v.Keyed
  world : valid c.world

namespace Keyed

variable {valid : σ → Prop} {c : Context σ}

theorem elsewhere (h : c.Keyed valid) (output : String) (depth : Nat)
    (pendingLayout : Option String) (running : List Nat) :
    ({ c with output, depth, pendingLayout, running } : Context σ).Keyed valid :=
  ⟨h.self, h.frames, h.world⟩

theorem underWay : Elsewhere (Keyed valid) := fun _ h => h.elsewhere _

theorem define (h : c.Keyed valid) (name : String) (b : Block) : (c.define name b).Keyed valid :=
  ⟨h.self, h.frames, h.world⟩

theorem withSelf (h : c.Keyed valid) {self : Value} (hself : self.Keyed) :
    ({ c with self } : Context σ).Keyed valid :=
  ⟨hself, h.frames, h.world⟩

theorem withWorld (h : c.Keyed valid) {s : σ} (hs : valid s) :
    ({ c with world := s } : Context σ).Keyed valid :=
  ⟨h.self, h.frames, hs⟩

end Keyed
end Context

namespace Run

variable {σ α : Type} {valid : σ → Prop} {world : World σ} {deep : Deep (Run σ)} {post : α → Prop}
  {r : Run σ α}

abbrev KeepsKeys (valid : σ → Prop) (post : α → Prop) (r : Run σ α) : Prop :=
  Keeps (Context.Keyed valid) post r

namespace KeepsKeys

structure Levels (valid : σ → Prop) (world : World σ) (deep : Deep (Run σ)) : Prop
    extends world.Keyed valid where
  body (frame : Nat) (b : List SlotStmt) : KeepsKeys valid Value.Keyed (deep.body frame b)
  program (p : Program) : KeepsKeys valid (fun _ => True) (deep.program p)

theorem thenNull (hr : KeepsKeys valid post r) :
    KeepsKeys valid Value.Keyed (r >>= fun _ => pure .null) :=
  hr.bind fun _ _ => Commutes.pure trivial

theorem withSelf {self : Value} (hself : self.Keyed) (hr : KeepsKeys valid post r) :
    KeepsKeys valid post (withSelf self r) :=
  Commutes.between (fun _ => rfl) (fun _ hc => hc.withSelf hself) (fun _ _ => rfl)
    (fun _ _ hc hc' => hc'.withSelf hc.self) hr

theorem load (frame x : Nat) : KeepsKeys valid Value.Keyed (load frame x) :=
  Commutes.get (fun _ _ => rfl) fun c hc => c.forall_load hc.frames trivial frame x

theorem store (frame x : Nat) {v : Value} (hv : v.Keyed) :
    KeepsKeys valid (fun _ => True) (store frame x v) :=
  Commutes.update (fun _ _ => rfl) fun _ hc =>
    ⟨hc.self, Context.forall_store hc.frames hv frame x, hc.world⟩

theorem replaceAll (frame : Nat) {vs : List (Nat × Value)} (hvs : ∀ e ∈ vs, e.2.Keyed) :
    KeepsKeys valid (fun olds => ∀ v ∈ olds, v.Keyed) (replaceAll frame vs) := by
  induction vs with
  | nil => exact Commutes.pure (List.forall_mem_nil _)
  | cons e vs ih =>
    rw [List.forall_mem_cons] at hvs
    refine (load frame e.1).bind fun old hold => (store frame e.1 hvs.1).bind fun _ _ => ?_
    exact (ih hvs.2).bind fun olds holds => Commutes.pure (List.forall_mem_cons.2 ⟨hold, holds⟩)

theorem binding (frame : Nat) (params : List Nat) {args : List Value}
    (hargs : ∀ v ∈ args, v.Keyed) (hr : KeepsKeys valid post r) :
    KeepsKeys valid post (binding frame params args r) := by
  have hzip {vs : List Value} (hvs : ∀ v ∈ vs, v.Keyed) : ∀ e ∈ params.zip vs, e.2.Keyed :=
    fun e he => hvs _ (List.of_mem_zip he).2
  refine (replaceAll frame (hzip hargs)).bind fun olds holds => ?_
  refine (Commutes.attempt hr).bind fun a ha => ?_
  refine (Commutes.forEffect (replaceAll frame (hzip holds))).bind fun _ _ => ?_
  cases a with
  | ok b => exact Commutes.pure (ha b rfl)
  | error e => exact Commutes.halt e

theorem ofLiteral {a : Except Error Value} (ha : ∀ v, a = .ok v → ∃ l : Literal, v = l.value) :
    KeepsKeys valid Value.Keyed (ofExcept a) :=
  Commutes.ofExcept fun v hv => by
    obtain ⟨l, rfl⟩ := ha v hv
    exact Value.keyed_literal l

theorem includeTemplate (D : Levels valid world deep) (name : String) {argument : Value}
    (h : argument.Keyed) :
    KeepsKeys valid (fun _ => True) (includeTemplate world deep name argument) := by
  have hload : KeepsKeys valid (fun _ => True) (withWorld (world.load name)) :=
    Commutes.withWorld fun _ hc => ⟨hc.withWorld (D.load hc.world), fun _ _ => trivial⟩
  refine hload.bind fun p _ => Commutes.inside Context.Keyed.underWay name ?_
  split
  · exact D.program p
  · exact withSelf h (D.program p)

theorem extend (D : Levels valid world deep) (layout : String) :
    KeepsKeys valid (fun _ => True) (extend world deep layout) := by
  have hmode : KeepsKeys valid (fun _ => True) (get Context.extendMode) :=
    Commutes.get (fun _ _ => rfl) fun _ _ => trivial
  refine hmode.bind fun mode _ => ?_
  cases mode with
  | eager => exact includeTemplate D layout trivial
  | deferred => exact Commutes.update (fun _ _ => rfl) fun _ hc => hc.elsewhere ..

theorem callBlock (D : Levels valid world deep) (name : String) :
    KeepsKeys valid (fun _ => True) (callBlock deep name) := by
  refine Commutes.get_bind (fun _ _ => rfl) fun c _ => ?_
  refine Commutes.inside Context.Keyed.underWay name ?_
  cases c.block name with
  | compiled body frame => exact Commutes.forEffect (D.body frame body)
  | text content => exact Commutes.update (fun _ _ => rfl) fun _ hc => hc.elsewhere ..

theorem callClosure (D : Levels valid world deep) (f : Closure) {args : List Value}
    (hargs : ∀ v ∈ args, v.Keyed) :
    KeepsKeys valid Value.Keyed (callClosure deep f args) := by
  refine Commutes.get_bind (fun _ _ => rfl) fun c _ => ?_
  split
  · exact Commutes.halt _
  split
  · exact Commutes.halt _
  · exact Commutes.inside Context.Keyed.underWay "lambda"
      (binding f.frame.index f.params hargs (D.body f.frame.index f.body))

theorem call (D : Levels valid world deep) (callee : Value) {args : List Value}
    (hargs : ∀ v ∈ args, v.Keyed) :
    KeepsKeys valid Value.Keyed (call world deep callee args) := by
  unfold Run.call
  split
  · exact Commutes.withWorld fun _ hc =>
      have hcalled := D.call hc.world hargs
      ⟨hc.withWorld hcalled.1, hcalled.2⟩
  · exact callClosure D _ hargs
  · exact Commutes.halt _

-- Arrays and maps are made of values that are keyed before, and a map of one insertion after the
-- other. What operators yield could stand as literals.
mutual

theorem eval (D : Levels valid world deep) (frame : Nat) : ∀ e : SlotExpr,
    KeepsKeys valid Value.Keyed (Run.eval world deep frame e)
  | .literal value => by
    simp only [Run.eval]
    exact Commutes.pure (Value.keyed_literal value)
  | .var x => by
    simp only [Run.eval]
    exact load frame x
  | .selfMember name => by
    simp only [Run.eval]
    have hself : KeepsKeys valid Value.Keyed (get Context.self) :=
      Commutes.get (fun _ _ => rfl) fun _ hc => hc.self
    exact hself.bind fun v hv => Commutes.ofExcept fun _ hm => hv.member hm
  | .member target name optional => by
    simp only [Run.eval]
    refine (eval D frame target).bind fun v hv => ?_
    split
    · exact Commutes.pure trivial
    · exact Commutes.ofExcept fun _ hm => hv.member hm
  | .call callee args => by
    simp only [Run.eval]
    refine (eval D frame callee).bind fun f _ => (evalAll D frame args).bind fun vs hvs => ?_
    exact call D f hvs
  | .array items => by
    simp only [Run.eval]
    exact (evalAll D frame items).bind fun _ hvs => Commutes.pure (Value.keyed_array.2 hvs)
  | .map entries => by
    simp only [Run.eval]
    refine (evalEntries D frame [] List.nodup_nil (List.forall_mem_nil _) entries).bind
      fun es hes => Commutes.pure (Value.keyed_map.2 hes)
  | .unary op operand => by
    simp only [Run.eval]
    exact (eval D frame operand).bind fun _ _ => ofLiteral fun _ => Value.exists_literal_of_unary
  | .update op before x => by
    simp only [Run.eval]
    refine (load frame x).bind fun old hold => ?_
    refine (ofLiteral fun _ => Value.exists_literal_of_arithmetic).bind fun new hnew => ?_
    refine (store frame x hnew).bind fun _ _ => Commutes.pure ?_
    split
    · exact hnew
    · exact hold
  | .binary op lhs rhs => by
    simp only [Run.eval]
    refine (eval D frame lhs).bind fun a _ => (eval D frame rhs).bind fun b _ => ?_
    exact ofLiteral fun _ => Value.exists_literal_of_binary
  | .logical .and lhs rhs => by
    simp only [Run.eval]
    refine (eval D frame lhs).bind fun a _ => ?_
    split
    · exact (eval D frame rhs).bind fun _ _ => Commutes.pure trivial
    · exact Commutes.pure trivial
  | .logical .or lhs rhs => by
    simp only [Run.eval]
    refine (eval D frame lhs).bind fun a _ => ?_
    split
    · exact Commutes.pure trivial
    · exact (eval D frame rhs).bind fun _ _ => Commutes.pure trivial
  | .logical .coalesce lhs rhs => by
    simp only [Run.eval]
    refine (eval D frame lhs).bind fun a ha => ?_
    split
    · exact eval D frame rhs
    · exact Commutes.pure ha
  | .conditional test yes no => by
    simp only [Run.eval]
    refine (eval D frame test).bind fun v _ => ?_
    split
    · exact eval D frame yes
    · exact eval D frame no
  | .assign x none value => by
    simp only [Run.eval]
    exact (eval D frame value).bind fun v hv => (store frame x hv).bind fun _ _ => Commutes.pure hv
  | .assign x (some op) value => by
    simp only [Run.eval]
    refine (eval D frame value).bind fun v _ => (load frame x).bind fun old _ => ?_
    refine (ofLiteral fun _ => Value.exists_literal_of_arithmetic).bind fun new hnew => ?_
    exact (store frame x hnew).bind fun _ _ => Commutes.pure hnew
  | .sequence items => by
    simp only [Run.eval]
    refine (evalAll D frame items).bind fun vs hvs => Commutes.pure ?_
    cases hlast : vs.getLast? with
    | none => exact trivial
    | some v => exact hvs v (List.mem_of_getLast? hlast)
  | .lambda id params body => by
    simp only [Run.eval]
    exact Commutes.get_bind (fun _ _ => rfl) fun _ _ => Commutes.pure trivial

theorem evalAll (D : Levels valid world deep) (frame : Nat) : ∀ es : List SlotExpr,
    KeepsKeys valid (fun vs => ∀ v ∈ vs, v.Keyed) (Run.evalAll world deep frame es)
  | [] => by
    simp only [Run.evalAll]
    exact Commutes.pure (List.forall_mem_nil _)
  | e :: es => by
    simp only [Run.evalAll]
    refine (eval D frame e).bind fun v hv => (evalAll D frame es).bind fun vs hvs => ?_
    exact Commutes.pure (List.forall_mem_cons.2 ⟨hv, hvs⟩)

theorem evalEntries (D : Levels valid world deep) (frame : Nat) (read : List (String × Value))
    (hkeys : (Entries.keys read).Nodup) (hread : ∀ e ∈ read, e.2.Keyed) :
    ∀ es : List (String × SlotExpr),
      KeepsKeys valid (fun es => (Entries.keys es).Nodup ∧ ∀ e ∈ es, e.2.Keyed)
        (Run.evalEntries world deep frame read es)
  | [] => by
    simp only [Run.evalEntries]
    exact Commutes.pure ⟨hkeys, hread⟩
  | (key, e) :: es => by
    simp only [Run.evalEntries]
    refine (eval D frame e).bind fun v hv => ?_
    exact evalEntries D frame _ (Entries.nodup_keys_insert hkeys)
      (Entries.forall_insert hv hread) es

theorem exec (D : Levels valid world deep) (frame : Nat) : ∀ s : SlotStmt,
    KeepsKeys valid Value.Keyed (Run.exec world deep frame s)
  | .text content => by
    simp only [Run.exec]
    exact thenNull (Commutes.update (fun _ _ => rfl) fun _ hc => hc.elsewhere ..)
  | .output escape value => by
    simp only [Run.exec]
    refine (eval D frame value).bind fun v _ => ?_
    exact thenNull (Commutes.update (fun _ _ => rfl) fun _ hc => hc.elsewhere ..)
  | .extend layout => by
    simp only [Run.exec]
    exact thenNull (extend D layout)
  | .include name none => by
    simp only [Run.exec]
    exact thenNull (includeTemplate D name trivial)
  | .include name (some argument) => by
    simp only [Run.exec]
    exact (eval D frame argument).bind fun v hv => thenNull (includeTemplate D name hv)
  | .block name body => by
    simp only [Run.exec]
    exact thenNull (Commutes.update (fun _ _ => rfl) fun _ hc => hc.define name _)
  | .content name => by
    simp only [Run.exec]
    exact thenNull (callBlock D name)
  | .branch test yes no => by
    simp only [Run.exec]
    refine (eval D frame test).bind fun v _ => ?_
    split
    · exact thenNull (Commutes.forEffect (execAll D frame Value.keyed_null yes))
    · exact thenNull (Commutes.forEffect (execAll D frame Value.keyed_null no))
  | .loop x collection body => by
    simp only [Run.exec]
    refine (eval D frame collection).bind fun v hv => ?_
    have hitems : KeepsKeys valid (fun vs => ∀ v ∈ vs, v.Keyed) (ofExcept v.elements) :=
      Commutes.ofExcept fun _ hvs => hv.elements hvs
    refine hitems.bind fun items hitems => thenNull (Commutes.forEach hitems fun item hitem => ?_)
    exact (store frame x hitem).bind fun _ _ =>
      Commutes.forEffect (execAll D frame Value.keyed_null body)
  | .switch subject arms => by
    simp only [Run.exec]
    refine (eval D frame subject).bind fun v _ => ?_
    refine (execMatching D frame v arms).bind fun found _ => ?_
    split
    · exact thenNull (execElse D frame arms)
    · exact Commutes.pure trivial
  | .expr value => by
    simp only [Run.exec]
    exact eval D frame value

theorem execAll (D : Levels valid world deep) (frame : Nat) {last : Value} (hlast : last.Keyed) :
    ∀ ss : List SlotStmt, KeepsKeys valid Value.Keyed (Run.execAll world deep frame last ss)
  | [] => by
    simp only [Run.execAll]
    exact Commutes.pure hlast
  | s :: ss => by
    simp only [Run.execAll]
    exact (exec D frame s).bind fun v hv => execAll D frame hv ss

theorem execMatching (D : Levels valid world deep) (frame : Nat) (subject : Value) :
    ∀ arms : List (Option SlotExpr × List SlotStmt),
      KeepsKeys valid (fun _ => True) (Run.execMatching world deep frame subject arms)
  | [] => by
    simp only [Run.execMatching]
    exact Commutes.pure trivial
  | (none, _) :: arms => by
    simp only [Run.execMatching]
    exact execMatching D frame subject arms
  | (some e, body) :: arms => by
    simp only [Run.execMatching]
    refine (eval D frame e).bind fun v _ => ?_
    split
    · have hbody := Commutes.forEffect (execAll D frame Value.keyed_null body)
      exact hbody.bind fun _ _ => Commutes.pure trivial
    · exact execMatching D frame subject arms

theorem execElse (D : Levels valid world deep) (frame : Nat) :
    ∀ arms : List (Option SlotExpr × List SlotStmt),
      KeepsKeys valid (fun _ => True) (Run.execElse world deep frame arms)
  | [] => by
    simp only [Run.execElse]
    exact Commutes.pure trivial
  | (none, body) :: _ => by
    simp only [Run.execElse]
    exact Commutes.forEffect (execAll D frame Value.keyed_null body)
  | (some _, _) :: arms => by
    simp only [Run.execElse]
    exact execElse D frame arms

end

theorem renderProgram (D : Levels valid world deep) (p : Program) :
    KeepsKeys valid (fun _ => True) (renderProgram world deep p) := by
  have hframe : KeepsKeys valid (fun _ => True) (get fun c => c.frames.size) :=
    Commutes.get (fun _ _ => rfl) fun _ _ => trivial
  have hnew : KeepsKeys valid (fun _ => True) (update fun c => (c.newFrame p.slots.length).2) :=
    Commutes.update (fun _ _ => rfl) fun _ hc =>
      ⟨hc.self, Context.forall_newFrame hc.frames trivial _, hc.world⟩
  have hrun : KeepsKeys valid (fun _ => True) (runProgram world deep p) :=
    hframe.bind fun frame _ => hnew.bind fun _ _ => Commutes.forEffect
      (Commutes.holding Context.Keyed.underWay frame (execAll D frame Value.keyed_null p.body))
  have hrendered : KeepsKeys valid (fun _ => True) (captured (runProgram world deep p)) :=
    Commutes.captured (fun _ hc => hc.elsewhere ..)
      (fun _ _ _ hc' => ⟨hc'.elsewhere .., hc'.elsewhere ..⟩) (fun _ _ => trivial) hrun
  refine hrendered.bind fun rendered _ => ?_
  split
  · exact Commutes.update (fun _ _ => rfl) fun _ hc => hc.elsewhere ..
  · have hdefine : KeepsKeys valid (fun _ => True) (update fun c =>
        if Text.isBlankText rendered.text && c.hasBlock defaultBlock then c
        else c.define defaultBlock (.text rendered.text)) :=
      Commutes.update (fun _ _ => rfl) fun _ hc => by
        split
        · exact hc
        · exact hc.define ..
    exact hdefine.bind fun _ _ => includeTemplate D _ trivial

theorem levels (hworld : world.Keyed valid) : ∀ n : Nat, Levels valid world (Run.levels world n)
  | 0 => ⟨hworld, fun _ _ => Commutes.halt _, fun _ => Commutes.halt _⟩
  | n + 1 =>
    have D := levels hworld n
    ⟨hworld, fun frame b => Commutes.holding Context.Keyed.underWay frame
      (execAll D frame Value.keyed_null b), renderProgram D⟩

end KeepsKeys
end Run
end TextTemplate
