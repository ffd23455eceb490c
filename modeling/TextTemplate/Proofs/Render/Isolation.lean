import TextTemplate.Proofs.Render.Scope

/-! The variables that an included template can come by: those of executions over which a block is
registered or a lambda is at hand, and those that lambdas in such variables use. All others are out
of its reach, so that it neither changes them nor depends on them. -/

namespace TextTemplate

namespace Context

variable {σ : Type}

/-- The executions whose variables can be reached from the blocks of a context and some lambdas. -/
inductive Reaches (c : Context σ) (roots : Closure → Prop) : Nat → Prop
  | block {name : String} {body : List SlotStmt} {frame : Nat} :
    (name, .compiled body frame) ∈ c.blocks → Reaches c roots frame
  | root {f : Closure} : roots f → f.frame.render = c.render → Reaches c roots f.frame.index
  | through {frame : Nat} {vars : Array Value} {v : Value} {f : Closure} :
    Reaches c roots frame → c.frames[frame]? = some vars → v ∈ vars → f ∈ v.closures →
      f.frame.render = c.render → Reaches c roots f.frame.index

/-- The lambdas at hand for a template that is included: those in its self value, be it that of the
context or the argument, and those that the surroundings hold. -/
def AtHand (K : Custody σ) (c : Context σ) (argument : Value) (f : Closure) : Prop :=
  f ∈ c.self.closures ∨ f ∈ argument.closures ∨ K.holds c.world f

def withVariables (frame : Nat) (vars : Array Value) (c : Context σ) : Context σ :=
  { c with frames := c.frames.setIfInBounds frame vars }

section Variables

variable {c : Context σ} {frame other slot : Nat} {vars : Array Value}

theorem load_withVariables (h : other ≠ frame) :
    (c.withVariables frame vars).load other slot = c.load other slot := by
  simp only [load, withVariables, Array.getElem?_setIfInBounds_ne h.symm]

theorem store_withVariables (h : other ≠ frame) (v : Value) :
    (c.withVariables frame vars).store other slot v =
      (c.store other slot v).withVariables frame vars := by
  simp only [store, withVariables]
  congr 1
  refine Array.ext_getElem? fun i => ?_
  simp only [Array.getElem?_modify, Array.getElem?_setIfInBounds, Array.size_modify]
  split
  · rename_i hi
    rw [if_neg (hi ▸ h.symm), if_neg (hi ▸ h.symm)]
  · rfl

theorem newFrame_withVariables (h : frame < c.frames.size) (slots : Nat) :
    ((c.withVariables frame vars).newFrame slots).2 =
      (c.newFrame slots).2.withVariables frame vars := by
  simp only [newFrame, withVariables]
  congr 1
  refine Array.ext_getElem? fun i => ?_
  simp only [Array.getElem?_push, Array.getElem?_setIfInBounds, Array.size_setIfInBounds,
    Array.size_push]
  by_cases hi : frame = i
  · rw [if_pos hi, if_pos hi, if_pos h, if_pos (Nat.lt_succ_of_lt h)]
    exact if_neg (by omega)
  · rw [if_neg hi, if_neg hi]

theorem withVariables_self (h : c.frames[frame]? = some vars) : c.withVariables frame vars = c := by
  obtain ⟨hlt, rfl⟩ := Array.getElem?_eq_some_iff.1 h
  simp only [withVariables, Array.setIfInBounds_def, hlt, dif_pos, Array.set_getElem_self]

theorem getElem?_withVariables (h : frame < c.frames.size) :
    (c.withVariables frame vars).frames[frame]? = some vars := by
  simp [withVariables, h]

end Variables
end Context

structure Reach where
  render : Nat
  size : Nat
  covers : Nat → Prop
  fresh : ∀ frame, size ≤ frame → covers frame

namespace Reach

variable (z : Reach)

def Admits (f : Closure) : Prop :=
  f.frame.render = z.render →
    (∀ x ∈ f.params, z.covers f.frame.index) ∧
      Stmt.OverList (fun _ => z.covers f.frame.index) f.body

def discipline : Discipline Unit where
  slot _ frame _ := z.covers frame
  lambda _ := z.Admits
  program _ := True
  slot_mono _ h := h
  lambda_mono _ h := h

def scope : Scope where
  render := z.render
  size := z.size
  slot frame _ := z.covers frame
  fresh frame _ := z.fresh frame

variable {z}

theorem code_of_covers {w : Unit} {frame : Nat} (h : z.covers frame) (body : List SlotStmt) :
    z.discipline.Code w frame body :=
  Discipline.code_iff.2 ⟨(Stmt.overList_iff body).2 fun _ _ => h, fun _ _ => trivial⟩

theorem admits_of_covers {f : Closure} (h : f.frame.render = z.render → z.covers f.frame.index) :
    z.Admits f :=
  fun hrender => ⟨fun _ _ => h hrender, (Stmt.overList_iff f.body).2 fun _ _ => h hrender⟩

end Reach

namespace Context

variable {σ : Type}

structure Confined (K : Custody σ) (z : Reach) (c : Context σ) : Prop where
  current : c.render = z.render
  grown : z.size ≤ c.frames.size
  blocks : ∀ b ∈ c.blocks, ∀ body frame, b.2 = .compiled body frame →
    z.discipline.Code () frame body
  self : c.self.Only z.Admits
  frames : ∀ frame vars, z.covers frame → c.frames[frame]? = some vars →
    ∀ v ∈ vars, v.Only z.Admits
  world : K.valid c.world
  held : ∀ f, K.holds c.world f → z.Admits f

theorem confined_iff {K : Custody σ} {z : Reach} {c : Context σ} :
    c.Confined K z ↔ c.InScope K z.scope := by
  constructor
  · intro h
    refine ⟨h.current, h.grown, fun b hb body frame hbody => ?_, h.self, fun frame x hframe => ?_,
      h.world, h.held⟩
    · exact Scope.code_iff.1 (h.blocks b hb body frame hbody)
    · unfold load
      cases hvars : c.frames[frame]? with
      | none => exact Value.only_null
      | some vars =>
        cases hv : vars[x]? with
        | none => simpa [hv] using Value.only_null
        | some v =>
          have hadmits : v.Only z.scope.Admits :=
            h.frames frame vars hframe hvars v (Array.mem_of_getElem? hv)
          simpa [hv] using hadmits
  · intro h
    refine ⟨h.current, h.grown, fun b hb body frame hbody => ?_, h.self,
      fun frame vars hframe hvars v hv => ?_, h.world, h.held⟩
    · exact Scope.code_iff.2 (h.blocks b hb body frame hbody)
    · obtain ⟨x, hx⟩ := Array.mem_iff_getElem?.1 hv
      have hadmits : v.Only z.scope.Admits := by
        simpa [load, hvars, hx] using h.slots frame x hframe
      exact hadmits

def reach (c : Context σ) (roots : Closure → Prop) : Reach where
  render := c.render
  size := c.frames.size
  covers frame := c.Reaches roots frame ∨ c.frames.size ≤ frame
  fresh _ := .inr

theorem admits_of_root {c : Context σ} {roots : Closure → Prop} {f : Closure} (h : roots f) :
    (c.reach roots).Admits f :=
  Reach.admits_of_covers fun hrender => .inl (.root h hrender)

theorem confined_reach {K : Custody σ} {c : Context σ} (hvalid : K.valid c.world)
    (argument : Value) : c.Confined K (c.reach (c.AtHand K argument)) where
  current := rfl
  grown := Nat.le_refl _
  blocks b hb body frame hbody := by
    have hb : (b.1, .compiled body frame) ∈ c.blocks := hbody ▸ hb
    exact Reach.code_of_covers (Or.inl (.block hb)) body
  self f hf := admits_of_root (.inl hf)
  frames frame vars hframe hvars v hv f hf := by
    refine Reach.admits_of_covers fun hrender => .inl ?_
    rcases hframe with hframe | hsize
    · exact .through hframe hvars hv hf hrender
    · rw [Array.getElem?_eq_none hsize] at hvars
      cases hvars
  world := hvalid
  held f hf := admits_of_root (.inr (.inr hf))

end Context

namespace Run

variable {σ α : Type} {K : Custody σ} {z : Reach} {frame : Nat} {vars : Array Value} {n : Nat}
  {w : Unit}

/-- Started with other variables of the execution, `r'` does what `r` does, and leaves them alone;
`r` keeps all code and lambdas within reach. -/
def Isolated (K : Custody σ) (z : Reach) (frame : Nat) (vars : Array Value) (_ : Nat) (_ : Unit)
    ⦃α : Type⦄ (k : ResultKind α) (r r' : Run σ α) : Prop :=
  ∀ c : Context σ, c.Confined K z →
    r' (c.withVariables frame vars) = ((r c).1, (r c).2.withVariables frame vars) ∧
      (r c).2.Confined K z ∧ ∀ a, (r c).1 = .ok a → k.Only z.Admits a

theorem Isolated.halt {k : ResultKind α} (h : Halt) :
    Isolated K z frame vars n w k (halt h) (halt h) :=
  fun _ hc => ⟨rfl, hc, fun _ h => nomatch h⟩

theorem isolated_eq_guarded :
    Isolated K z frame vars = Guarded z.discipline (Context.InScope K z.scope)
      fun frames => frames.setIfInBounds frame vars := by
  funext n w α k r r'
  simp only [Isolated, Guarded, Commutes, Context.confined_iff]
  rfl

theorem outside_withVariables (hframe : ¬ z.covers frame) :
    z.scope.Outside σ fun frames => frames.setIfInBounds frame vars where
  size c := by simp [Context.withFrames]
  load {_ other _} (hother : z.covers other) :=
    Context.load_withVariables fun he => hframe (he ▸ hother)
  store {_ other _ v} (hother : z.covers other) :=
    have hne : other ≠ frame := fun he => hframe (he ▸ hother)
    Context.store_withVariables hne v
  newFrame hsize := by
    have hlt : frame < z.size := Nat.not_le.1 fun hle => hframe (z.fresh frame hle)
    exact Context.newFrame_withVariables (Nat.lt_of_lt_of_le hlt hsize) _

variable (vars) in
theorem logicalRelation_isolated {world : World σ} (hworld : world.Trusted K)
    (hframe : ¬ z.covers frame) :
    LogicalRelation z.discipline world world (Isolated K z frame vars) := by
  rw [isolated_eq_guarded]
  exact logicalRelation_guarded (Context.InScope.guards hworld (outside_withVariables hframe))

end Run

namespace Context

variable {σ : Type} {world : World σ} {K : Custody σ}

/-- A template that is included changes no variables that it cannot reach, and neither its result
nor what it does to the context depends on them. -/
theorem includeTemplate_isolated (hworld : world.Trusted K) {c : Context σ}
    (hvalid : K.valid c.world) {frame : Nat} {argument : Value}
    (hframe : frame < c.frames.size) (hreach : ¬ c.Reaches (c.AtHand K argument) frame)
    (n : Nat) (name : String) :
    let run := Run.includeTemplate world (Run.levels (m := Run σ) world n) name argument
    (run c).2.frames[frame]? = c.frames[frame]? ∧
    ∀ vars, run (c.withVariables frame vars) = ((run c).1, (run c).2.withVariables frame vars) := by
  intro run
  have hcovers : ¬ (c.reach (c.AtHand K argument)).covers frame := by
    rintro (h | h)
    · exact hreach h
    · exact absurd hframe (Nat.not_lt.2 h)
  have hrun (vars : Array Value) : Run.Isolated K (c.reach (c.AtHand K argument)) frame vars
      (n + 1) () .any run run := by
    have L := Run.logicalRelation_isolated vars hworld hcovers
    exact L.includeTemplate (L.levels_of_outOfLevels (Run.Isolated.halt _) n) name fun f hf =>
      admits_of_root (.inr (.inl hf))
  have hconfined := confined_reach hvalid argument
  have heq (vars : Array Value) := (hrun vars c hconfined).1
  obtain ⟨vars, hvars⟩ : ∃ vars, c.frames[frame]? = some vars :=
    ⟨_, Array.getElem?_eq_getElem hframe⟩
  -- the context with the variables that it has already is the context itself
  have hsame := heq vars
  rw [withVariables_self hvars] at hsame
  refine ⟨?_, heq⟩
  have hsize := (hrun vars c hconfined).2.1.grown
  rw [hvars, congrArg Prod.snd hsame]
  exact getElem?_withVariables (Nat.lt_of_lt_of_le hframe hsize)

def compiling (source : String) : World Unit where
  load name s := (compile .default name source, s)
  call _ _ s := (.ok .null, s)

def noCustody : Custody Unit where
  valid _ := True
  holds _ _ := False

theorem compiling_trusted (source : String) : (compiling source).Trusted noCustody where
  compiled _ h := ⟨_, _, _, h⟩
  load_valid _ := trivial
  load_holds _ h := h
  call_valid _ := trivial
  call_holds _ h := h.elim
  call_result _ h := by
    obtain rfl := Except.ok.inj h
    exact Value.only_null

/-- A template that is under way has included a second one and has given it a lambda that counts in
its variable, which that passes on. The variable of the second is out of reach. -/
theorem counter_included_isolated :
    let counter : Value := .closure ⟨⟨0, 0⟩, 0, [], [.expr (.update .inc false 0)]⟩
    let argument : Value := .map [("count", counter)]
    let c : Context Unit :=
      { start {} 0 .null () with frames := #[#[.int 0], #[.int 7]], running := [1, 0] }
    let world := compiling "<% n = 5 %><%= @count() %><%= @count() %>"
    let run := Run.includeTemplate world (Run.levels (m := Run Unit) world 9) "part" argument
    world.Trusted noCustody ∧ noCustody.valid c.world ∧ 1 < c.frames.size ∧
      ¬ c.Reaches (c.AtHand noCustody argument) 1 ∧ (run c).2.frames[1]? = c.frames[1]? ∧
      run (c.withVariables 1 #[.null]) = ((run c).1, (run c).2.withVariables 1 #[.null]) ∧
      (run c).2.output = "01" := by
  intro counter argument c world run
  have hreach (frame : Nat) (h : c.Reaches (c.AtHand noCustody argument) frame) : frame = 0 := by
    induction h with
    | block hb => cases hb
    | root hf =>
      rcases hf with hf | hf | hf
      · cases hf
      · rw [List.mem_singleton.1 (show _ ∈ [_] from hf)]
      · cases hf
    | through _ hvars hv hf _ ih =>
      subst ih
      obtain rfl := Option.some.inj hvars
      rw [List.mem_singleton.1 (Array.mem_toList_iff.2 hv)] at hf
      cases hf
  have hframe : ¬ c.Reaches (c.AtHand noCustody argument) 1 :=
    fun h => absurd (hreach 1 h) Nat.one_ne_zero
  have htrusted := compiling_trusted "<% n = 5 %><%= @count() %><%= @count() %>"
  obtain ⟨hkept, hsame⟩ :=
    includeTemplate_isolated htrusted (c := c) trivial (by decide) hframe 9 "part"
  exact ⟨htrusted, trivial, by decide, hframe, hkept, hsame _, by decide +kernel⟩

end Context
end TextTemplate
