import TextTemplate.Proofs.Render.Commuting
import TextTemplate.Proofs.Render.Parameters

/-! Code that keeps to some of the variables of a render. If all that a context can come by does,
blocks and lambdas and those in values and in the surroundings, then runs of such code neither
change the other variables nor depend on them. -/

namespace TextTemplate

/-- Variables that may be used in a render, all those of executions to come among them. -/
structure Scope where
  render : Nat
  size : Nat
  slot : Nat → Nat → Prop
  fresh : ∀ frame x, size ≤ frame → slot frame x

namespace Scope

def Admits (z : Scope) (f : Closure) : Prop :=
  f.frame.render = z.render →
    (∀ x ∈ f.params, z.slot f.frame.index x) ∧ Stmt.OverList (z.slot f.frame.index) f.body

def discipline (z : Scope) : Discipline Unit where
  slot _ := z.slot
  lambda _ := z.Admits
  program _ := True
  slot_mono _ h := h
  lambda_mono _ h := h

def except (render frame slot : Nat) : Scope where
  render
  size := frame + 1
  slot other x := ¬ (other = frame ∧ x = slot)
  fresh _ _ hle h := absurd h.1 (by omega)

variable {z : Scope}

theorem code_iff {w : Unit} {frame : Nat} {body : List SlotStmt} :
    z.discipline.Code w frame body ↔ Stmt.OverList (z.slot frame) body :=
  Discipline.code_iff.trans (and_iff_left fun _ _ => trivial)

structure Outside (σ : Type) (z : Scope) (h : Array (Array Value) → Array (Array Value)) :
    Prop where
  size (c : Context σ) : (c.withFrames h).frames.size = c.frames.size
  load {c : Context σ} {frame x : Nat} :
    z.slot frame x → (c.withFrames h).load frame x = c.load frame x
  store {c : Context σ} {frame x : Nat} {v : Value} :
    z.slot frame x → (c.withFrames h).store frame x v = (c.store frame x v).withFrames h
  newFrame {c : Context σ} {slots : Nat} : z.size ≤ c.frames.size →
    ((c.withFrames h).newFrame slots).2 = (c.newFrame slots).2.withFrames h

end Scope

namespace Context

variable {σ : Type} {c : Context σ} {frame slot other x : Nat} {u v : Value}

theorem load_of_size_le (h : c.size frame ≤ slot) : c.load frame slot = .null := by
  unfold size at h
  cases hvars : c.frames[frame]? with
  | none => simp [load, hvars]
  | some vars =>
    rw [hvars] at h
    simp [load, hvars, Array.getElem?_eq_none (show vars.size ≤ slot from h)]

theorem load_store_of_ne (hne : ¬ (other = frame ∧ x = slot)) :
    (c.store frame slot v).load other x = c.load other x := by
  by_cases hframe : other = frame
  · subst hframe
    exact load_store_ne fun hx => hne ⟨rfl, hx⟩
  · simp only [load, store, Array.getElem?_modify, if_neg (Ne.symm hframe)]

theorem store_comm (hne : ¬ (other = frame ∧ x = slot)) :
    (c.store frame slot v).store other x u = (c.store other x u).store frame slot v := by
  simp only [store]
  congr 1
  refine Array.ext_getElem? fun i => ?_
  simp only [Array.getElem?_modify]
  by_cases hframe : frame = i
  · by_cases hother : other = i
    · have hx : slot ≠ x := fun hx => hne ⟨hother.trans hframe.symm, hx.symm⟩
      simp only [hframe, hother, if_true, Option.map_map]
      exact congrArg (Option.map · _) (funext fun vars => Array.setIfInBounds_comm v u hx)
    · simp only [hframe, if_true, if_neg hother]
  · simp only [if_neg hframe]

theorem load_newFrame {slots : Nat} : (c.newFrame slots).2.load frame x = c.load frame x := by
  simp only [load, newFrame, Array.getElem?_push]
  by_cases hframe : frame = c.frames.size
  · rw [if_pos hframe, Array.getElem?_eq_none (Nat.le_of_eq hframe.symm)]
    cases hslots : (Array.replicate slots Value.null)[x]? with
    | none => simp [hslots]
    | some v =>
      simpa [hslots] using (Array.mem_replicate.1 (Array.mem_of_getElem? hslots)).2
  · rw [if_neg hframe]

theorem newFrame_store {slots : Nat} (h : frame < c.frames.size) :
    ((c.store frame slot v).newFrame slots).2 = (c.newFrame slots).2.store frame slot v := by
  simp only [newFrame, store]
  congr 1
  refine Array.ext_getElem? fun i => ?_
  simp only [Array.getElem?_push, Array.getElem?_modify, Array.size_modify]
  by_cases hi : i = c.frames.size
  · rw [if_pos hi, if_neg (by omega), if_pos hi]
  · rw [if_neg hi, if_neg hi]

theorem store_load_self : c.store frame slot (c.load frame slot) = c := by
  have hframes : (c.frames.modify frame fun vars =>
      vars.setIfInBounds slot (c.load frame slot)) = c.frames := by
    refine Array.ext_getElem? fun i => ?_
    rw [Array.getElem?_modify]
    split
    · rename_i hi
      subst hi
      cases hvars : c.frames[frame]? with
      | none => rfl
      | some vars =>
        rw [Option.map_some]
        congr 1
        refine Array.ext_getElem? fun j => ?_
        rw [Array.getElem?_setIfInBounds]
        by_cases hj : slot = j
        · subst hj
          by_cases hlt : slot < vars.size
          · simp [load, hvars, hlt]
          · simp [hlt]
        · rw [if_neg hj]
    · rfl
  simp only [store, hframes]

structure InScope (K : Custody σ) (z : Scope) (c : Context σ) : Prop where
  current : c.render = z.render
  grown : z.size ≤ c.frames.size
  blocks : ∀ b ∈ c.blocks, ∀ body frame, b.2 = .compiled body frame →
    Stmt.OverList (z.slot frame) body
  self : c.self.Only z.Admits
  slots : ∀ frame x, z.slot frame x → (c.load frame x).Only z.Admits
  world : K.valid c.world
  held : ∀ f, K.holds c.world f → z.Admits f

namespace InScope

variable {K : Custody σ} {z : Scope}

theorem elsewhere (h : c.InScope K z) (output : String) (depth : Nat)
    (pendingLayout : Option String) (running : List Nat) :
    ({ c with output, depth, pendingLayout, running } : Context σ).InScope K z :=
  ⟨h.current, h.grown, h.blocks, h.self, h.slots, h.world, h.held⟩

theorem store (h : c.InScope K z) (hv : v.Only z.Admits) (frame slot : Nat) :
    (c.store frame slot v).InScope K z := by
  refine ⟨h.current, ?_, h.blocks, h.self, fun other x hx => ?_, h.world, h.held⟩
  · simpa [Context.store] using h.grown
  · by_cases heq : other = frame ∧ x = slot
    · obtain ⟨rfl, rfl⟩ := heq
      by_cases hsize : x < c.size other
      · rwa [load_store_self hsize]
      · rw [load_of_size_le (by rw [size_store]; exact Nat.not_lt.1 hsize)]
        exact Value.only_null
    · rw [load_store_of_ne heq]
      exact h.slots other x hx

theorem newFrame (h : c.InScope K z) (slots : Nat) : (c.newFrame slots).2.InScope K z := by
  refine ⟨h.current, ?_, h.blocks, h.self, fun other x hx => ?_, h.world, h.held⟩
  · simpa [Context.newFrame] using Nat.le_succ_of_le h.grown
  · rw [load_newFrame]
    exact h.slots other x hx

theorem define (h : c.InScope K z) {b : Block}
    (hb : ∀ body frame, b = .compiled body frame → Stmt.OverList (z.slot frame) body)
    (name : String) : (c.define name b).InScope K z :=
  have hblocks := Entries.forall_insert (p := fun b => ∀ body frame, b = Block.compiled body frame →
    Stmt.OverList (z.slot frame) body) (k := name) hb h.blocks
  ⟨h.current, h.grown, hblocks, h.self, h.slots, h.world, h.held⟩

theorem withSelf (h : c.InScope K z) {self : Value} (hself : self.Only z.Admits) :
    ({ c with self } : Context σ).InScope K z :=
  ⟨h.current, h.grown, h.blocks, hself, h.slots, h.world, h.held⟩

theorem withWorld (h : c.InScope K z) {s : σ} (hvalid : K.valid s)
    (hheld : ∀ f, K.holds s f → z.Admits f) : ({ c with world := s } : Context σ).InScope K z :=
  ⟨h.current, h.grown, h.blocks, h.self, h.slots, hvalid, hheld⟩

theorem guards {world : World σ} {h : Array (Array Value) → Array (Array Value)}
    (hworld : world.Trusted K) (hh : z.Outside σ h) :
    z.discipline.Guards world (InScope K z) h where
  size := hh.size
  load {_ frame x} hc hslot := ⟨hh.load hslot, hc.slots frame x hslot⟩
  store {_ frame x _} hc hslot hv := ⟨hh.store hslot, hc.store hv frame x⟩
  newFrame hc := ⟨hh.newFrame hc.grown, hc.newFrame _⟩
  fresh {c p} hc _ :=
    Scope.code_iff.2 ((Stmt.overList_iff p.body).2 fun x _ => z.fresh c.frames.size x hc.grown)
  self hc := hc.self
  withSelf hc hself := hc.withSelf hself
  lambda _ hparams hbody := fun _ => ⟨hparams, Scope.code_iff.1 hbody⟩
  keeps hc hf hrender :=
    have hover := hf (hrender.trans hc.current)
    ⟨hover.1, Scope.code_iff.2 hover.2⟩
  compiled hc hb := Scope.code_iff.2 (hc.blocks _ (mem_blocks_of_block hb) _ _ rfl)
  content _ _ := trivial
  define {_ name _ _} hc hcode := hc.define (by
    rintro _ _ ⟨⟩
    exact Scope.code_iff.1 hcode) name
  defineContent {_ text} hc _ := hc.define (b := .text text) nofun defaultBlock
  append hc _ := hc.elsewhere ..
  print _ hc _ := hc.elsewhere ..
  elsewhere _ hc := hc.elsewhere _
  aside hc := hc.elsewhere ..
  resume _ hc' := hc'.elsewhere ..
  printed _ := trivial
  program hc := ⟨hc.withWorld (hworld.load_valid hc.world) fun f hf =>
    hc.held f (hworld.load_holds hc.world hf), fun _ _ => trivial⟩
  call {_ f _} hc hargs :=
    have hcalled := hworld.called hc.world hc.held f hargs
    ⟨hc.withWorld hcalled.1 hcalled.2.1, hcalled.2.2⟩

end InScope
end Context
end TextTemplate
