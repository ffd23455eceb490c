import TextTemplate.Proofs.Engine.Caching
import TextTemplate.Proofs.Render.Access

/-! What a host program can do with renders, one after another, and what lambdas it can get hold of
on the way. Whatever it does, templates use only variables that there are. -/

namespace TextTemplate

inductive Use where
  | start (options : Options) (self : Value)
  | append (text : String)
  | setSelf (self : Value)
  | defineText (name text : String)
  | defineAs (name further : String)
  | callBlock (name : String)
  | includeTemplate (name : String) (argument : Value)
  | extend (layout : String)
  | renderProgram (p : Program)
  | execute (p : Program) (self : Value)
  | call (callee : Value) (args : List Value)

namespace Use

section

variable {σ : Type} {m : Type → Type} [MonadRender σ m] (world : World σ) (deep : Deep m)

def run : Use → m Value
  | .start options self => do
    Run.update fun c => Context.start options (c.render + 1) self c.world
    pure .null
  | .append text => do
    Run.update fun c => c.append text
    pure .null
  | .setSelf self => do
    Run.update fun c => { c with self }
    pure .null
  | .defineText name text => do
    Run.update fun c => c.define name (.text text)
    pure .null
  | .defineAs name further => do
    Run.update fun c => c.define further (c.block name)
    pure .null
  | .callBlock name => do
    Run.callBlock deep name
    pure .null
  | .includeTemplate name argument => do
    Run.includeTemplate world deep name argument
    pure .null
  | .extend layout => do
    Run.extend world deep layout
    pure .null
  | .renderProgram p => do
    Run.renderProgram world deep p
    pure .null
  | .execute p self => do
    Run.withSelf self (Run.renderProgram world deep p)
    pure .null
  | .call callee args => Run.call world deep callee args

end

def Allowed (lambdas : Closure → Prop) : Use → Prop
  | .start _ self | .setSelf self => self.Only lambdas
  | .includeTemplate _ argument => argument.Only lambdas
  | .renderProgram p => p.Compiled
  | .execute p self => p.Compiled ∧ self.Only lambdas
  | .call callee args => callee.Only lambdas ∧ ∀ v ∈ args, v.Only lambdas
  | .append _ | .defineText .. | .defineAs .. | .callBlock _ | .extend _ => True

theorem Allowed.mono {lambdas lambdas' : Closure → Prop} {u : Use} (h : u.Allowed lambdas)
    (hle : ∀ f, lambdas f → lambdas' f) : u.Allowed lambdas' := by
  cases u with
  | start _ self | setSelf self | includeTemplate _ self => exact Value.Only.mono h hle
  | renderProgram p => exact h
  | execute p self => exact ⟨h.1, h.2.mono hle⟩
  | call callee args => exact ⟨h.1.mono hle, fun v hv => (h.2 v hv).mono hle⟩
  | append | defineText | defineAs | callBlock | extend => trivial

variable {σ : Type} (world : World σ)

def perform (u : Use) (c : Context σ) : Except Halt Value × Context σ :=
  Run.leveled (m := Run σ) world (fun deep => u.run world deep) c

def noted (u : Use) (c : Context σ) : Except Halt Value × Context σ × List Access :=
  Run.leveled (m := Accessing σ) world (fun deep => u.run world deep) (c, [])

end Use

/-- The contexts to which a host may come, and the lambdas of which it may know. It makes none by
itself: it knows those that calls give it, and its surroundings those that are given to them. -/
inductive Reached {σ : Type} (world : World σ) (K : Custody σ) : (Closure → Prop) → Context σ → Prop
  | first {known : Closure → Prop} {options : Options} {render : Nat} {self : Value} {s : σ} :
    K.valid s → (∀ f, known f ∨ K.holds s f → f.frame.render < render) → self.Only known →
      Reached world K known (Context.start options render self s)
  | next {known : Closure → Prop} {c : Context σ} {u : Use} :
    Reached world K known c → u.Allowed (fun f => known f ∨ K.holds c.world f) →
      Reached world K (fun f => known f ∨ ∃ v, (u.perform world c).1 = .ok v ∧ f ∈ v.closures)
        (u.perform world c).2

namespace Use

open Run

variable {σ : Type} {world : World σ} {K : Custody σ} {n : Nat} {w : Shape}

theorem finds_run (hworld : world.Trusted K) (u : Use)
    (hu : u.Allowed (Shape.discipline.lambda w))
    (hstart : ∀ options self, u ≠ .start options self) :
    Finds K n w .value (u.run world (levels world n)) (u.run world (levels world n)) := by
  have L := logicalRelation_finds hworld
  have D := L.levels_of_outOfLevels (Finds.halt _) n
  cases u with
  | start options self => exact absurd rfl (hstart options self)
  | append text => exact L.thenNull (n := n) (L.append trivial)
  | setSelf self =>
    exact L.thenNull (n := n) (Finds.update fun c hc hs => ⟨hc.ge, hs.withSelf (hc ▸ hu)⟩)
  | defineText name text =>
    refine L.thenNull (n := n) (Finds.update fun c hc hs => ⟨hc.ge, hs.define ?_ name⟩)
    exact fun _ _ hb => nomatch hb
  | defineAs name further =>
    refine L.thenNull (n := n) (Finds.update fun c hc hs => ⟨hc.ge, hs.define ?_ further⟩)
    exact fun _ _ hb => hs.block hb
  | callBlock name => exact L.thenNull (n := n) (L.callBlock D name)
  | includeTemplate name argument => exact L.thenNull (n := n) (L.includeTemplate D name hu)
  | extend layout => exact L.thenNull (n := n) (L.extend D layout)
  | renderProgram p => exact L.thenNull (n := n) (L.renderProgram D ⟨rfl, rfl⟩ hu.overList)
  | execute p self =>
    exact L.thenNull (n := n) (L.withSelf hu.2 (L.renderProgram D ⟨rfl, rfl⟩ hu.1.overList))
  | call callee args => exact L.call D hu.1 hu.2

theorem perform_finds (hworld : world.Trusted K) {c : Context σ} (hc : c.Sound K) (u : Use)
    (hu : u.Allowed (Shape.discipline.lambda c.shape)) :
    (∃ used, u.noted world c = ((u.perform world c).1, (u.perform world c).2, used) ∧
      ∀ a ∈ used, a.slot < a.size) ∧
    (u.perform world c).2.Sound K ∧
    (∀ f, Shape.discipline.lambda c.shape f →
      Shape.discipline.lambda (u.perform world c).2.shape f) ∧
    ∀ v, (u.perform world c).1 = .ok v →
      v.Only (Shape.discipline.lambda (u.perform world c).2.shape) := by
  by_cases hstart : ∃ options self, u = .start options self
  · obtain ⟨options, self, rfl⟩ := hstart
    have hearlier (f : Closure) (hf : Shape.discipline.lambda c.shape f) :
        f.frame.render < c.render + 1 :=
      Nat.lt_succ_of_le (hf.elim Nat.le_of_lt fun h => Nat.le_of_eq h.1)
    refine ⟨⟨[], rfl, fun _ h => nomatch h⟩, ?_, fun f hf => .inl (hearlier f hf), fun v hv => ?_⟩
    · exact Context.sound_start hc.world (fun f hf => hearlier f (hc.held f hf)) (hu.mono hearlier)
    · obtain rfl := Except.ok.inj hv
      exact Value.only_null
  · have hrun := finds_run hworld u hu (n := c.maxDepth - c.depth) fun options self h =>
      hstart ⟨options, self, h⟩
    obtain ⟨used, ht, hused, hl⟩ := hrun c [] rfl hc
    exact ⟨⟨used, ht, hused⟩, hl.sound, fun f => Shape.discipline.lambda_mono hl.grown, hl.result⟩

end Use

theorem Reached.sound {σ : Type} {world : World σ} {K : Custody σ} (hworld : world.Trusted K)
    {known : Closure → Prop} {c : Context σ} (h : Reached world K known c) :
    c.Sound K ∧ ∀ f, known f → Shape.discipline.lambda c.shape f := by
  induction h with
  | first hvalid hearlier hself =>
    exact ⟨Context.sound_start hvalid (fun f hf => hearlier f (.inr hf))
      (hself.mono fun f hf => hearlier f (.inl hf)), fun f hf => .inl (hearlier f (.inl hf))⟩
  | @next known c u _ hu ih =>
    obtain ⟨hsound, hknown⟩ := ih
    have hallowed := hu.mono fun f hf => hf.elim (hknown f) (hsound.held f)
    obtain ⟨-, hsound', hold, hresult⟩ := Use.perform_finds hworld hsound u hallowed
    exact ⟨hsound', fun f hf => hf.elim (fun h => hold f (hknown f h))
      fun ⟨v, hv, hmem⟩ => hresult v hv f hmem⟩

def Engine.Offers (e : Engine) (p : Program) : Prop :=
  (∃ entry ∈ e.cache.entries, entry.2 = p) ∨
    ∃ name r name', e.library.resolve name = .ok r ∧ e.compile name' r.source = .ok p

theorem Engine.get_offers (e : Engine) (name : String) :
    (∀ p, (e.get name).1 = .ok p → e.Offers p) ∧ ∀ p, (e.get name).2.Offers p → e.Offers p := by
  have hload : (∀ p, (e.load name).1 = .ok p → e.Offers p) ∧
      ∀ p, (e.load name).2.Offers p → e.Offers p := by
    unfold load
    dsimp only
    split
    · exact ⟨fun _ hp => (nomatch hp), fun _ hp => hp⟩
    rename_i resource hresource
    split
    · exact ⟨fun _ hp => (nomatch hp), fun _ hp => hp⟩
    rename_i p hcompile
    have hp : e.Offers p := .inr ⟨_, resource, _, hresource, hcompile⟩
    refine ⟨fun q hq => Except.ok.inj hq ▸ hp, fun q hq => ?_⟩
    dsimp only at hq
    split at hq
    · obtain ⟨entry, hentry, rfl⟩ | hq := hq
      · rcases Cache.mem_insert hentry with rfl | hentry
        · exact hp
        · exact .inl ⟨entry, hentry, rfl⟩
      · exact .inr hq
    · exact hq
  unfold get
  split
  · split
    · exact ⟨fun _ hp => (nomatch hp), fun _ hp => hp⟩
    rename_i key _
    split
    · rename_i p hfind
      refine ⟨fun q hq => Except.ok.inj hq ▸ .inl ⟨_, Cache.mem_of_find? hfind, rfl⟩, ?_⟩
      exact fun q hq => hq.imp_left fun ⟨entry, hentry, hq⟩ => ⟨entry, Cache.mem_touch hentry, hq⟩
    · exact hload
  · exact hload

theorem Engine.get_compiled {e : Engine} (h : ∀ entry ∈ e.cache.entries, entry.2.Compiled)
    (name : String) :
    (∀ p, (e.get name).1 = .ok p → p.Compiled) ∧
      ∀ entry ∈ (e.get name).2.cache.entries, entry.2.Compiled := by
  have hoffers (p : Program) (hp : e.Offers p) : p.Compiled := by
    obtain ⟨entry, hentry, rfl⟩ | ⟨_, _, _, -, hcompile⟩ := hp
    · exact h entry hentry
    · exact ⟨_, _, _, hcompile⟩
  obtain ⟨hgiven, hkept⟩ := e.get_offers name
  exact ⟨fun p hp => hoffers p (hgiven p hp),
    fun entry hentry => hoffers _ (hkept _ (.inl ⟨entry, hentry, rfl⟩))⟩

namespace HostFunction

def Given (args : List Value) (cell : Value) (f : Closure) : Prop :=
  f ∈ cell.closures ∨ ∃ v ∈ args, f ∈ v.closures

/-- Whether the host functions neither answer nor keep lambdas that they were not given. -/
def Discreet (host : HostFunction → List Value → Value → Except Error Value × Value) : Prop :=
  ∀ f args cell, (∀ v, (host f args cell).1 = .ok v → v.Only (Given args cell)) ∧
    (host f args cell).2.Only (Given args cell)

theorem discreet_call : Discreet call := by
  intro f args cell
  have hcell : cell.Only (Given args cell) := fun g hg => .inl hg
  have hfirst : (args.head?.getD .null).Only (Given args cell) := by
    cases args with
    | nil => exact Value.only_null
    | cons v vs => exact fun g hg => .inr ⟨v, List.mem_cons_self, hg⟩
  unfold call
  dsimp only
  split
  · refine ⟨fun v hv => ?_, hcell⟩
    obtain rfl := Except.ok.inj hv
    exact Value.only_array.2 fun u hu g hg => .inr ⟨u, hu, hg⟩
  · exact ⟨fun v hv => Except.ok.inj hv ▸ Value.only_of_closures_eq_nil rfl, hcell⟩
  · exact ⟨fun v hv => Except.ok.inj hv ▸ hfirst, hcell⟩
  · exact ⟨fun v hv => Except.ok.inj hv ▸ Value.only_of_closures_eq_nil rfl, hcell⟩
  · exact ⟨fun v hv => Except.ok.inj hv ▸ Value.only_null, hfirst⟩
  · exact ⟨fun v hv => Except.ok.inj hv ▸ hcell, hcell⟩
  · exact ⟨fun v hv => (nomatch hv), hcell⟩

end HostFunction

namespace Session

def custody : Custody Session where
  valid s := HostFunction.Discreet s.host ∧ ∀ entry ∈ s.engine.cache.entries, entry.2.Compiled
  holds s f := f ∈ s.cell.closures

theorem world_trusted : world.Trusted custody where
  compiled {name s p} hs hp := (s.engine.get_compiled hs.2 name).1 p hp
  load_valid {name s} hs := ⟨hs.1, (s.engine.get_compiled hs.2 name).2⟩
  load_holds _ hf := hf
  call_valid hs := hs
  call_holds {f args s g} hs hg := (hs.1 f args s.cell).2 g hg
  call_result {f args s v} hs hv := (hs.1 f args s.cell).1 v hv

end Session
end TextTemplate
