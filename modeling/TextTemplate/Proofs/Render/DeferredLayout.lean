import TextTemplate.Proofs.Render.Layouts
import TextTemplate.Proofs.Render.Simulation

/-! Layouts that are asked for in deferred mode. A run neither reads nor takes back a request that
was made before it: it makes one of its own or leaves the one that there is. So a template may ask
for its layout anywhere, as long as what comes after it asks for none. -/

namespace TextTemplate

def Context.asking {σ : Type} (layout : Option String) (c : Context σ) : Context σ :=
  { c with pendingLayout := layout }

namespace Run

variable {σ α β : Type}

/-- Whatever layout was asked for before, `r` does the same, and what it asks for itself takes the
place of that. The second run is of no account. -/
def Unasking ⦃α : Type⦄ (r _r' : Run σ α) : Prop :=
  ∀ c : Context σ, ∃ (a : Except Halt α) (c' : Context σ) (asked : Option String),
    c'.extendMode = c.extendMode ∧ ∀ layout, r (c.asking layout) = (a, c'.asking (asked.or layout))

namespace Unasking

variable {r r' : Run σ α}

theorem bind {f f' : α → Run σ β} (h : Unasking r r') (hf : ∀ a, Unasking (f a) (f' a)) :
    Unasking (r >>= f) (r' >>= f') := by
  intro c
  obtain ⟨_ | a, c₁, asked, hmode, hr⟩ := h c
  · rename_i e
    refine ⟨.error e, c₁, asked, hmode, fun layout => ?_⟩
    rw [bind_apply, hr]
  · obtain ⟨b, c₂, asked', hmode', hb⟩ := hf a c₁
    refine ⟨b, c₂, asked'.or asked, hmode'.trans hmode, fun layout => ?_⟩
    rw [bind_apply, hr, Option.or_assoc]
    exact hb _

theorem get {f : Context σ → α} (hf : ∀ (c : Context σ) layout, f (c.asking layout) = f c) :
    Unasking (get f) (get f) := by
  refine fun c => ⟨.ok (f c), c, none, rfl, fun layout => ?_⟩
  rw [get_apply, hf]
  rfl

theorem update {f : Context σ → Context σ} (hmode : ∀ c, (f c).extendMode = c.extendMode)
    (hf : ∀ c layout, f (c.asking layout) = (f c).asking layout) :
    Unasking (update f) (update f) := by
  refine fun c => ⟨.ok (), f c, none, hmode c, fun layout => ?_⟩
  rw [update_apply, hf]
  rfl

theorem request (layout : String) :
    Unasking (MonadRender.update (m := Run σ) fun c => { c with pendingLayout := some layout })
      (MonadRender.update fun c => { c with pendingLayout := some layout }) :=
  fun c => ⟨.ok (), c, some layout, rfl, fun _ => rfl⟩

theorem halt (h : Halt) : Unasking (halt h : Run σ α) (halt h) :=
  fun c => ⟨.error h, c, none, rfl, fun _ => rfl⟩

theorem attempt (h : Unasking r r') : Unasking (attempt r) (attempt r') := by
  intro c
  obtain ⟨a, c', asked, hmode, hr⟩ := h c
  refine ⟨.ok a, c', asked, hmode, fun layout => ?_⟩
  rw [attempt_apply, hr]

theorem between {before : Context σ → Context σ} {after : Context σ → Context σ → Context σ}
    (h : Unasking r r') (hbefore : ∀ c layout, before (c.asking layout) = (before c).asking layout)
    (hb : ∀ c, (before c).extendMode = c.extendMode)
    (hafter : ∀ (c c' : Context σ) layout layout',
      after (c.asking layout) (c'.asking layout') = (after c c').asking layout')
    (ha : ∀ c c' : Context σ, (after c c').extendMode = c'.extendMode) :
    Unasking (between before after r) (between before after r') := by
  intro c
  obtain ⟨a, c', asked, hmode, hr⟩ := h (before c)
  refine ⟨a, after c c', asked, (ha c c').trans (hmode.trans (hb c)), fun layout => ?_⟩
  rw [between_apply, hbefore, hr, hafter]

theorem inside (name : String) (h : Unasking r r') : Unasking (inside name r) (inside name r') := by
  rw [inside_eq, inside_eq]
  refine bind (get fun _ _ => rfl) fun levels => ?_
  split
  · exact halt _
  · exact between h (fun _ _ => rfl) (fun _ => rfl) (fun _ _ _ _ => rfl) fun _ _ => rfl

theorem captured {x x' : Run σ Unit} (h : Unasking x x') :
    Unasking (captured x) (captured x') := by
  intro c
  obtain ⟨a, c', asked, hmode, hx⟩ := h c.aside
  have haside (layout : Option String) :
      x (c.asking layout).aside = (a, c'.asking asked) := by
    have hnone := hx none
    rw [Option.or_none] at hnone
    exact hnone
  obtain _ | _ := a
  · rename_i e
    refine ⟨.error e, (c.resume c').append c'.output, none, hmode, fun layout => ?_⟩
    rw [captured_apply, haside]
    rfl
  · refine ⟨.ok ⟨c'.output, asked⟩, c.resume c', none, hmode, fun layout => ?_⟩
    rw [captured_apply, haside]
    rfl

theorem withWorld (f : σ → Except Error α × σ) : Unasking (withWorld f) (withWorld f) := by
  intro c
  refine ⟨(f c.world).1.mapError .error, { c with world := (f c.world).2 }, none, rfl,
    fun layout => ?_⟩
  rw [withWorld_apply]
  rfl

end Unasking

theorem simulation_unasking (world : World σ) : Simulation world world (Unasking (σ := σ)) where
  pure a := Unasking.get (f := fun _ => a) fun _ _ => rfl
  bind := Unasking.bind
  halt := Unasking.halt
  attempt := Unasking.attempt
  self := Unasking.get fun _ _ => rfl
  extendMode := Unasking.get fun _ _ => rfl
  render := Unasking.get fun _ _ => rfl
  block _ := Unasking.get fun _ _ => rfl
  keeps _ := Unasking.get fun _ _ => rfl
  frameCount := Unasking.get fun _ _ => rfl
  load _ _ := Unasking.get fun _ _ => rfl
  store _ _ _ := Unasking.update (fun _ => rfl) fun _ _ => rfl
  newFrame _ := Unasking.update (fun _ => rfl) fun _ _ => rfl
  append _ := Unasking.update (fun _ => rfl) fun _ _ => rfl
  print _ _ := Unasking.update (fun _ => rfl) fun _ _ => rfl
  define _ _ := Unasking.update (fun _ => rfl) fun _ _ => rfl
  requestLayout := Unasking.request
  defineContent text := by
    refine Unasking.update (fun c => ?_) fun c layout => ?_
    · split <;> rfl
    · show (if Text.isBlankText text && c.hasBlock defaultBlock then _ else _) = _
      split <;> rfl
  inside := Unasking.inside
  withSelf _ h := Unasking.between h (fun _ _ => rfl) (fun _ => rfl) (fun _ _ _ _ => rfl)
    fun _ _ => rfl
  holding _ h := by
    rw [holding_eq_between, holding_eq_between]
    exact Unasking.between h (fun _ _ => rfl) (fun _ => rfl) (fun _ _ _ _ => rfl) fun _ _ => rfl
  captured := Unasking.captured
  host _ _ := Unasking.withWorld _
  template _ h := Unasking.bind (Unasking.withWorld _) fun p => h p p ⟨rfl, rfl⟩

section Statements

variable (world : World σ) (deep : Deep (Run σ)) (frame : Nat)

theorem forEffect_apply (r : Run σ α) (c : Context σ) :
    forEffect r c = ((r c).1.map fun _ => (), (r c).2) := by
  rw [forEffect, bind_apply]
  rcases r c with ⟨_ | a, c'⟩ <;> rfl

def effect (ss : List SlotStmt) : Run σ Unit :=
  forEffect (execAll world deep frame .null ss)

theorem forEffect_execAll (last : Value) (ss : List SlotStmt) :
    forEffect (execAll world deep frame last ss) = effect world deep frame ss := by
  cases ss with
  | nil => rfl
  | cons s ss => simp only [effect, execAll]

theorem effect_cons (s : SlotStmt) (ss : List SlotStmt) :
    effect world deep frame (s :: ss) =
      (exec world deep frame s >>= fun _ => effect world deep frame ss) := by
  rw [effect, execAll, forEffect, bind_assoc]
  exact bind_congr fun v => forEffect_execAll world deep frame v ss

theorem effect_append (ss ts : List SlotStmt) :
    effect world deep frame (ss ++ ts) =
      (effect world deep frame ss >>= fun _ => effect world deep frame ts) := by
  induction ss with
  | nil => rfl
  | cons s ss ih => rw [List.cons_append, effect_cons, effect_cons, ih, bind_assoc]

theorem effect_extend (layout : String) :
    effect world deep frame [.extend layout] = extend world deep layout := by
  rw [effect_cons]
  simp only [exec, bind_assoc, pure_bind]
  exact bind_pure _

variable {world deep frame} {n : Nat} {c : Context σ} {layout : String} {ss ts : List SlotStmt}

variable (world n frame ss) in
theorem unasking_effect :
    Unasking (effect world (levels world n) frame ss) (effect world (levels world n) frame ss) := by
  have S := simulation_unasking world
  exact S.bind (S.execAll (S.levels n) frame .null ss) fun _ => S.pure ()

theorem extendMode_effect {c' : Context σ}
    (h : effect world (levels world n) frame ss c = (.ok (), c')) :
    c'.extendMode = c.extendMode := by
  obtain ⟨a, c₁, asked, hmode, hss⟩ := unasking_effect world frame n ss c
  have hc' : c'.extendMode = c₁.extendMode :=
    congrArg (fun r => r.2.extendMode) (h.symm.trans (hss c.pendingLayout))
  exact hc'.trans hmode

/-- Started without a request, the statements leave none. No run takes a request back, so they ask
for no layout of their template at any point. -/
def AsksNone (world : World σ) (deep : Deep (Run σ)) (frame : Nat) (ss : List SlotStmt)
    (c : Context σ) : Prop :=
  (effect world deep frame ss (c.asking none)).2.pendingLayout = none

/-- The same outcome, except that failures may leave different requests. -/
def AlikeBut (x y : Except Halt Unit × Context σ) : Prop :=
  x = y ∨ ∃ (e : Halt) (c : Context σ) (layout layout' : Option String),
    x = (.error e, c.asking layout) ∧ y = (.error e, c.asking layout')

theorem AlikeBut.bind {r : Run σ Unit} {f g : Unit → Run σ Unit}
    (h : ∀ c', r c = (.ok (), c') → AlikeBut (f () c') (g () c')) :
    AlikeBut ((r >>= f) c) ((r >>= g) c) := by
  rw [bind_apply, bind_apply]
  rcases hr : r c with ⟨e | _, c'⟩
  · exact Or.inl rfl
  · exact h c' hr

theorem extend_deferred (hmode : c.extendMode = .deferred) (layout : String) :
    (extend world deep layout : Run σ Unit) c = (.ok (), c.asking (some layout)) := by
  simp only [extend, bind_apply, get_apply, hmode, update_apply, Context.asking]

theorem extend_after (hmode : c.extendMode = .deferred)
    (hnone : AsksNone world (levels world n) frame ss c) :
    AlikeBut
      (effect world (levels world n) frame (.extend layout :: ss) c)
      (effect world (levels world n) frame (ss ++ [.extend layout]) c) := by
  obtain ⟨a, c', asked, hmode', hss⟩ := unasking_effect world frame n ss c
  have hasked : asked = none := by
    rw [AsksNone, hss, Option.or_none] at hnone
    exact hnone
  subst hasked
  have hrun : effect world (levels world n) frame ss c = (a, c'.asking c.pendingLayout) :=
    hss c.pendingLayout
  rw [← List.singleton_append, effect_append, effect_append, effect_extend, bind_apply, bind_apply,
    extend_deferred hmode, hrun]
  dsimp only
  rw [hss, Option.none_or]
  obtain e | _ := a
  · exact Or.inr ⟨e, c', _, _, rfl, rfl⟩
  · dsimp only
    rw [extend_deferred (c := c'.asking c.pendingLayout) (hmode'.trans hmode)]
    exact Or.inl rfl

theorem runProgram_eq_effect (p : Program) (c : Context σ) :
    runProgram world deep p c =
      let r := effect world deep c.frames.size p.body (c.entered p.slots.length)
      (r.1, { r.2 with running := c.running }) := by
  rw [runProgram_apply, effect, forEffect_apply]

theorem alikeBut_runProgram {p q : Program}
    (h : AlikeBut (effect world deep c.frames.size p.body (c.entered p.slots.length))
      (effect world deep c.frames.size q.body (c.entered q.slots.length))) :
    AlikeBut (runProgram world deep p c) (runProgram world deep q c) := by
  rw [runProgram_eq_effect, runProgram_eq_effect]
  rcases h with h | ⟨e, c', layout, layout', hp, hq⟩
  · rw [h]
    exact Or.inl rfl
  · rw [hp, hq]
    exact Or.inr ⟨e, { c' with running := c.running }, layout, layout', rfl, rfl⟩

theorem captured_eq_of_alikeBut {x y : Run σ Unit} (h : AlikeBut (x c.aside) (y c.aside)) :
    captured x c = captured y c := by
  rw [captured_apply, captured_apply]
  rcases h with h | ⟨e, c', layout, layout', hx, hy⟩
  · rw [h]
  · rw [hx, hy]
    rfl

end Statements

end Run

namespace Context

variable {σ : Type} {world : World σ}

/-- In deferred mode a template may ask for its layout at its end as well as before statements that
ask for none themselves. -/
theorem renderProgram_extend_comm {c : Context σ} (hmode : c.extendMode = .deferred) {p : Program}
    {layout : String} {ss ts : List SlotStmt}
    (hnone : ∀ c', Run.effect world (Run.levels world (c.maxDepth - c.depth)) c.frames.size ss
        (c.aside.entered p.slots.length) = (.ok (), c') →
      Run.AsksNone world (Run.levels world (c.maxDepth - c.depth)) c.frames.size ts c') :
    c.renderProgram world { p with body := ss ++ .extend layout :: ts } =
      c.renderProgram world { p with body := ss ++ (ts ++ [.extend layout]) } := by
  let deep := Run.levels (m := Run σ) world (c.maxDepth - c.depth)
  have hbody : Run.AlikeBut
      (Run.effect world deep c.frames.size (ss ++ .extend layout :: ts)
        (c.aside.entered p.slots.length))
      (Run.effect world deep c.frames.size (ss ++ (ts ++ [.extend layout]))
        (c.aside.entered p.slots.length)) := by
    rw [Run.effect_append, Run.effect_append]
    refine Run.AlikeBut.bind fun c' hss => Run.extend_after ?_ (hnone c' hss)
    exact (Run.extendMode_effect hss).trans hmode
  have hcaptured :
      Run.captured (Run.runProgram world deep { p with body := ss ++ .extend layout :: ts }) c =
        Run.captured (Run.runProgram world deep { p with body := ss ++ (ts ++ [.extend layout]) })
          c :=
    Run.captured_eq_of_alikeBut (Run.alikeBut_runProgram hbody)
  unfold renderProgram outcome
  rw [Run.leveled_apply, Run.leveled_apply, Run.renderProgram, Run.renderProgram, Run.bind_apply,
    Run.bind_apply, hcaptured]

theorem renderProgram_extend_comm_include :
    let frame : Program := ⟨"frame", [.text "<", .content defaultBlock, .text ">"], []⟩
    let part : Program := ⟨"part", [.text "b", .extend "frame"], []⟩
    let world : World Unit :=
      ⟨fun name w => (.ok (if name = "part" then part else frame), w), fun _ _ w => (.ok .null, w)⟩
    let c := start { extend := .deferred } 0 .null ()
    let page (body : List SlotStmt) : Program := ⟨"page", body, []⟩
    let ss : List SlotStmt := [.text "a"]
    let ts : List SlotStmt := [.include "part" none, .text "c"]
    c.extendMode = .deferred ∧
      (∀ c', Run.effect world (Run.levels world 64) 0 ss (c.aside.entered 0) = (.ok (), c') →
        Run.AsksNone world (Run.levels world 64) 0 ts c') ∧
      c.renderProgram world (page (ss ++ .extend "frame" :: ts)) =
        c.renderProgram world (page (ss ++ (ts ++ [.extend "frame"]))) ∧
      (c.renderProgram world (page (ss ++ .extend "frame" :: ts))).2.output = "<a<b>c>" := by
  intro frame part world c page ss ts
  have hnone (c' : Context Unit)
      (h : Run.effect world (Run.levels world 64) 0 ss (c.aside.entered 0) = (.ok (), c')) :
      Run.AsksNone world (Run.levels world 64) 0 ts c' := by
    obtain rfl : _ = c' := congrArg Prod.snd h
    have hasked : (Run.effect world (Run.levels world 64) 0 ts
        (c.aside.entered 0 |>.append "a" |>.asking none)).2.pendingLayout = none := by
      decide +kernel
    exact hasked
  exact ⟨rfl, hnone, renderProgram_extend_comm (p := page []) rfl hnone, by decide +kernel⟩

end Context
end TextTemplate
