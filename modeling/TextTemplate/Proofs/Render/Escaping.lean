import TextTemplate.Proofs.Render.Commuting
import TextTemplate.Proofs.Render.Restoration
import TextTemplate.Proofs.Text.Html

/-! Escaped output. Where no program prints a value as it stands, all that is printed is put
together from texts of the programs and from escaped values. Text that was printed may be stored as
a block and printed again, so this has to hold of stored texts too, and of all code that is
about. -/

namespace TextTemplate

inductive Piece where
  | text (content : String)
  | escaped (v : Value)

def Piece.content : Piece → String
  | .text content => content
  | .escaped v => Text.escapeHtml v.text

def Composed (texts : String → Prop) (output : String) : Prop :=
  ∃ pieces : List Piece, output = String.join (pieces.map Piece.content) ∧
    ∀ t, .text t ∈ pieces → texts t

namespace Composed

variable {texts : String → Prop} {a b : String}

theorem empty : Composed texts "" :=
  ⟨[], rfl, fun _ h => nomatch h⟩

theorem append (ha : Composed texts a) (hb : Composed texts b) : Composed texts (a ++ b) := by
  obtain ⟨as, rfl, has⟩ := ha
  obtain ⟨bs, rfl, hbs⟩ := hb
  refine ⟨as ++ bs, by simp, fun t ht => ?_⟩
  exact (List.mem_append.1 ht).elim (has t) (hbs t)

theorem text {t : String} (h : texts t) : Composed texts t := by
  refine ⟨[.text t], by simp [Piece.content], fun u hu => ?_⟩
  obtain rfl : u = t := by simpa using hu
  exact h

theorem escaped (v : Value) : Composed texts (Text.escapeHtml v.text) :=
  ⟨[.escaped v], by simp [Piece.content], fun _ h => by simp at h⟩

end Composed

section Permitted

variable (texts : String → Prop) (render : Nat)

def Print.Permitted : Print → Prop
  | .text content => Composed texts content
  | .value escape => escape = true

def Stmt.Permitted (body : List SlotStmt) : Prop :=
  ∀ a ∈ Stmt.printsList body, a.Permitted texts

def Block.Permitted : Block → Prop
  | .compiled body _ => Stmt.Permitted texts body
  | .text content => Composed texts content

/-- Whether a lambda prints what it may, if it is one of the render. Others are not called. -/
def Closure.Permitted (f : Closure) : Prop :=
  f.frame.render = render → Stmt.Permitted texts f.body

def escaping : Discipline Unit where
  slot _ _ _ := True
  lambda _ f := f.Permitted texts render
  program p := Stmt.Permitted texts p.body
  print := Print.Permitted texts
  slot_mono _ h := h
  lambda_mono _ h := h

end Permitted

variable {texts : String → Prop} {render : Nat}

theorem escaping_code {w : Unit} {frame : Nat} {body : List SlotStmt} :
    (escaping texts render).Code w frame body ↔ Stmt.Permitted texts body :=
  Discipline.code_iff.trans (and_iff_right ((Stmt.overList_iff body).2 fun _ _ => trivial))

namespace Context

variable {σ : Type}

structure Escaped (K : Custody σ) (texts : String → Prop) (render : Nat) (c : Context σ) :
    Prop where
  current : c.render = render
  output : Composed texts c.output
  blocks : ∀ b ∈ c.blocks, b.2.Permitted texts
  self : c.self.Only (Closure.Permitted texts render)
  frames : ∀ vars ∈ c.frames, ∀ v ∈ vars, v.Only (Closure.Permitted texts render)
  world : K.valid c.world
  held : ∀ f, K.holds c.world f → f.Permitted texts render

namespace Escaped

variable {K : Custody σ} {c : Context σ}

theorem append (h : c.Escaped K texts render) {t : String} (ht : Composed texts t) :
    (c.append t).Escaped K texts render :=
  ⟨h.current, h.output.append ht, h.blocks, h.self, h.frames, h.world, h.held⟩

theorem define (h : c.Escaped K texts render) (name : String) {b : Block}
    (hb : b.Permitted texts) : (c.define name b).Escaped K texts render :=
  have hblocks := Entries.forall_insert (p := Block.Permitted texts) (k := name) hb h.blocks
  ⟨h.current, h.output, hblocks, h.self, h.frames, h.world, h.held⟩

theorem block (h : c.Escaped K texts render) (name : String) : (c.block name).Permitted texts := by
  unfold Context.block
  cases hfind : Entries.find? name c.blocks with
  | none => exact Composed.empty
  | some b => exact h.blocks _ (Entries.mem_of_find? hfind)

theorem store (h : c.Escaped K texts render) {v : Value}
    (hv : v.Only (Closure.Permitted texts render)) (frame slot : Nat) :
    (c.store frame slot v).Escaped K texts render :=
  ⟨h.current, h.output, h.blocks, h.self, forall_store h.frames hv frame slot, h.world, h.held⟩

theorem newFrame (h : c.Escaped K texts render) (slots : Nat) :
    (c.newFrame slots).2.Escaped K texts render :=
  have hframes := forall_newFrame h.frames Value.only_null slots
  ⟨h.current, h.output, h.blocks, h.self, hframes, h.world, h.held⟩

theorem withSelf (h : c.Escaped K texts render) {self : Value}
    (hself : self.Only (Closure.Permitted texts render)) :
    ({ c with self } : Context σ).Escaped K texts render :=
  ⟨h.current, h.output, h.blocks, hself, h.frames, h.world, h.held⟩

theorem elsewhere (h : c.Escaped K texts render) {output : String} (houtput : Composed texts output)
    (depth : Nat) (pendingLayout : Option String) (running : List Nat) :
    ({ c with output, depth, pendingLayout, running } : Context σ).Escaped K texts render :=
  ⟨h.current, houtput, h.blocks, h.self, h.frames, h.world, h.held⟩

theorem withWorld (h : c.Escaped K texts render) {s : σ} (hvalid : K.valid s)
    (hheld : ∀ f, K.holds s f → f.Permitted texts render) :
    ({ c with world := s } : Context σ).Escaped K texts render :=
  ⟨h.current, h.output, h.blocks, h.self, h.frames, hvalid, hheld⟩

theorem guards {world : World σ} (hworld : world.Trusted K)
    (hload : ∀ {name : String} {s : σ} {p : Program}, K.valid s →
      (world.load name s).1 = .ok p → Stmt.Permitted texts p.body) :
    (escaping texts render).Guards world (Escaped K texts render) id where
  size _ := rfl
  load {c _ _} hc _ := ⟨rfl, c.forall_load hc.frames Value.only_null _ _⟩
  store hc _ hv := ⟨rfl, hc.store hv ..⟩
  newFrame hc := ⟨rfl, hc.newFrame _⟩
  fresh _ hp := escaping_code.2 hp
  self hc := hc.self
  withSelf hc hself := hc.withSelf hself
  lambda _ _ hbody := fun _ => escaping_code.1 hbody
  keeps hc hf hrender :=
    ⟨fun _ _ => trivial, escaping_code.2 (hf (hrender.trans hc.current))⟩
  compiled {_ name _ _} hc hb := by
    have hpermitted := hc.block name
    rw [hb] at hpermitted
    exact escaping_code.2 hpermitted
  content {_ name _} hc hb := by
    have hpermitted := hc.block name
    rwa [hb] at hpermitted
  define {_ name _ _} hc hcode := hc.define name (escaping_code.1 hcode)
  defineContent hc ht := hc.define defaultBlock ht
  append hc ht := hc.append ht
  print v hc he := hc.append (by
    obtain rfl : _ = true := he
    exact .escaped v)
  elsewhere _ hc := hc.elsewhere hc.output
  aside hc := hc.elsewhere .empty ..
  resume hc hc' := hc'.elsewhere hc.output ..
  printed hc := hc.output
  program hc := ⟨hc.withWorld (hworld.load_valid hc.world) fun f hf =>
    hc.held f (hworld.load_holds hc.world hf), fun _ hp => hload hc.world hp⟩
  call {_ f _} hc hargs :=
    have hcalled := hworld.called hc.world hc.held f hargs
    ⟨hc.withWorld hcalled.1 hcalled.2.1, hcalled.2.2⟩

end Escaped
end Context

namespace Run

variable {σ α : Type} {K : Custody σ} {n : Nat} {w : Unit}

def Escapes (K : Custody σ) (texts : String → Prop) (render : Nat) (_ : Nat) (_ : Unit) ⦃α : Type⦄
    (k : ResultKind α) (r _r' : Run σ α) : Prop :=
  ∀ c : Context σ, c.Escaped K texts render → (r c).2.Escaped K texts render ∧
    ∀ a, (r c).1 = .ok a → k.Only (Closure.Permitted texts render) a

theorem Escapes.of_guarded {k : ResultKind α} {r r' : Run σ α}
    (h : Guarded (escaping texts render) (Context.Escaped K texts render) id n w k r r') :
    Escapes K texts render n w k r r' := fun c hc => (h c hc).2

end Run

namespace Context

variable {σ : Type} {world : World σ} {K : Custody σ}

theorem Escaped.execute {c : Context σ} (h : c.Escaped K texts render) (hworld : world.Trusted K)
    (hload : ∀ {name : String} {s : σ} {p : Program}, K.valid s →
      (world.load name s).1 = .ok p → Stmt.Permitted texts p.body)
    {p : Program} (hp : Stmt.Permitted texts p.body) {self : Value}
    (hself : self.Only (Closure.Permitted texts render)) :
    (c.execute world p self).2.Escaped K texts render := by
  have G : (escaping texts render).Guards world (Escaped K texts render) id :=
    Escaped.guards hworld hload
  have L := Run.logicalRelation_guarded G
  have D := L.levels_of_outOfLevels (Run.Commutes.halt _) (c.maxDepth - c.depth)
  have hrun := L.withSelf (w := ()) hself (L.renderProgram D ⟨rfl, rfl⟩ hp)
  rw [Context.execute, outcome_snd]
  exact (Run.Escapes.of_guarded hrun c h).1

end Context
end TextTemplate
