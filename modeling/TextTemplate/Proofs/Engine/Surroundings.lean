import TextTemplate.Proofs.Engine.Caching

/-! One render in two surroundings. Runs do the same in both as long as what they load and what they
call is the same, which may be promised only for surroundings that end well; the relation follows a
run from its end back to its start. -/

namespace TextTemplate

def Context.within {σ τ : Type} (c : Context σ) (w : τ) : Context τ :=
  { c with world := w }

/-- Whether two surroundings in relation `V` load and call alike and stay in the relation, if they
end `good`; those that are good were so before. -/
structure World.Agree {σ τ : Type} (world₁ : World σ) (world₂ : World τ) (V : σ → τ → Prop)
    (good : τ → Prop) : Prop where
  good_of_call (f : HostFunction) (args : List Value) (w : τ) :
    good (world₂.call f args w).2 → good w
  good_of_load (name : String) (w : τ) : good (world₂.load name w).2 → good w
  call (f : HostFunction) (args : List Value) {s : σ} {w : τ} :
    V s w → good (world₂.call f args w).2 →
      (world₂.call f args w).1 = (world₁.call f args s).1 ∧
        V (world₁.call f args s).2 (world₂.call f args w).2
  load (name : String) {s : σ} {w : τ} :
    V s w → good (world₂.load name w).2 →
      Engine.AlikeResults (world₁.load name s).1 (world₂.load name w).1 ∧
        V (world₁.load name s).2 (world₂.load name w).2

namespace Run

variable {σ τ α β : Type} {V : σ → τ → Prop} {good : τ → Prop}

structure Agrees (V : σ → τ → Prop) (good : τ → Prop) ⦃α : Type⦄ (x : Run σ α) (y : Run τ α) :
    Prop where
  good_start : ∀ c, good (y c).2.world → good c.world
  agree : ∀ (c : Context σ) w, V c.world w → good (y (c.within w)).2.world →
    ∃ w', y (c.within w) = ((x c).1, (x c).2.within w') ∧ V (x c).2.world w'

theorem withWorld_within (f : τ → Except Error α × τ) (c : Context σ) (w : τ) :
    (withWorld f : Run τ α) (c.within w) = ((f w).1.mapError .error, c.within (f w).2) := by
  rw [withWorld_apply]
  rfl

namespace Agrees

theorem get {f : Context σ → α} {g : Context τ → α} (h : ∀ c (w : τ), g (c.within w) = f c) :
    Agrees V good (get f) (get g) where
  good_start _ hgood := hgood
  agree c w hV _ := ⟨w, by rw [get_apply, get_apply, h], hV⟩

theorem update {f : Context σ → Context σ} {g : Context τ → Context τ}
    (h : ∀ c (w : τ), g (c.within w) = (f c).within w) (hf : ∀ c, (f c).world = c.world)
    (hg : ∀ c, (g c).world = c.world) : Agrees V good (update f) (update g) where
  good_start c hgood := by rwa [update_apply, hg] at hgood
  agree c w hV _ := ⟨w, by rw [update_apply, update_apply, h], by rwa [update_apply, hf]⟩

theorem halt (e : Halt) : Agrees V good (halt e : Run σ α) (halt e) where
  good_start _ hgood := hgood
  agree _ w hV _ := ⟨w, rfl, hV⟩

theorem attempt {x : Run σ α} {y : Run τ α} (h : Agrees V good x y) :
    Agrees V good (attempt x) (attempt y) where
  good_start c hgood := h.good_start c hgood
  agree c w hV hgood := by
    obtain ⟨w', hy, hV'⟩ := h.agree c w hV hgood
    exact ⟨w', by rw [attempt_apply, attempt_apply, hy], hV'⟩

theorem bind {x : Run σ α} {y : Run τ α} {f : α → Run σ β} {g : α → Run τ β}
    (h : Agrees V good x y) (hf : ∀ a, Agrees V good (f a) (g a)) :
    Agrees V good (x >>= f) (y >>= g) where
  good_start c hgood := by
    refine h.good_start c ?_
    rw [bind_apply] at hgood
    rcases hy : y c with ⟨e | a, c'⟩ <;> rw [hy] at hgood
    · exact hgood
    · exact (hf a).good_start c' hgood
  agree c w hV hgood := by
    rw [bind_apply] at hgood
    -- the end of the first step is good since the end of the second is
    have hfirst : good (y (c.within w)).2.world := by
      rcases hy : y (c.within w) with ⟨e | a, c'⟩ <;> rw [hy] at hgood
      · exact hgood
      · exact (hf a).good_start c' hgood
    obtain ⟨w', hy, hV'⟩ := h.agree c w hV hfirst
    rw [hy] at hgood
    rw [bind_apply, bind_apply, hy]
    generalize x c = r at hgood hV'
    obtain ⟨e | a, c'⟩ := r
    · exact ⟨w', rfl, hV'⟩
    · exact (hf a).agree c' w' hV' hgood

theorem between {before₁ : Context σ → Context σ} {before₂ : Context τ → Context τ}
    {after₁ : Context σ → Context σ → Context σ} {after₂ : Context τ → Context τ → Context τ}
    {x : Run σ α} {y : Run τ α} (h : Agrees V good x y)
    (hbefore : ∀ c (w : τ), before₂ (c.within w) = (before₁ c).within w)
    (hb₁ : ∀ c, (before₁ c).world = c.world) (hb₂ : ∀ c, (before₂ c).world = c.world)
    (hafter : ∀ c c' (w w' : τ), after₂ (c.within w) (c'.within w') = (after₁ c c').within w')
    (ha₁ : ∀ c c', (after₁ c c').world = c'.world)
    (ha₂ : ∀ c c', (after₂ c c').world = c'.world) :
    Agrees V good (between before₁ after₁ x) (between before₂ after₂ y) where
  good_start c hgood := by
    rw [between_apply, ha₂] at hgood
    have hgood' := h.good_start _ hgood
    rwa [hb₂] at hgood'
  agree c w hV hgood := by
    rw [between_apply, ha₂, hbefore] at hgood
    obtain ⟨w', hy, hV'⟩ := h.agree (before₁ c) w (by rwa [hb₁]) hgood
    exact ⟨w', by rw [between_apply, between_apply, hbefore, hy, hafter],
      by rwa [between_apply, ha₁]⟩

theorem inside {x : Run σ α} {y : Run τ α} (name : String) (h : Agrees V good x y) :
    Agrees V good (inside name x) (inside name y) := by
  rw [inside_eq, inside_eq]
  refine bind (get fun _ _ => rfl) fun levels => ?_
  split
  · exact halt _
  · exact between h (fun _ _ => rfl) (fun _ => rfl) (fun _ => rfl) (fun _ _ _ _ => rfl)
      (fun _ _ => rfl) fun _ _ => rfl

theorem captured {x : Run σ Unit} {y : Run τ Unit} (h : Agrees V good x y) :
    Agrees V good (captured x) (captured y) where
  good_start c hgood := by
    refine h.good_start c.aside ?_
    rw [captured_apply] at hgood
    rcases hy : y c.aside with ⟨e | _, c'⟩ <;> rw [hy] at hgood <;> exact hgood
  agree c w hV hgood := by
    have hlast : good (y (c.within w).aside).2.world := by
      rw [captured_apply] at hgood
      rcases hy : y (c.within w).aside with ⟨e | _, c'⟩ <;> rw [hy] at hgood <;> exact hgood
    obtain ⟨w', hy, hV'⟩ := h.agree c.aside w hV hlast
    change y (c.within w).aside = _ at hy
    rw [captured_apply, captured_apply, hy]
    generalize x c.aside = r at hV'
    obtain ⟨e | _, c'⟩ := r
    · exact ⟨w', rfl, hV'⟩
    · exact ⟨w', rfl, hV'⟩

variable {world₁ : World σ} {world₂ : World τ} (W : World.Agree world₁ world₂ V good)
include W

theorem host (f : HostFunction) (args : List Value) :
    Agrees V good (withWorld (world₁.call f args)) (withWorld (world₂.call f args)) where
  good_start c hgood := by
    rw [withWorld_apply] at hgood
    exact W.good_of_call f args c.world hgood
  agree c w hV hgood := by
    rw [withWorld_within] at hgood ⊢
    obtain ⟨hresult, hV'⟩ := W.call f args hV hgood
    rw [hresult, withWorld_apply]
    exact ⟨_, rfl, hV'⟩

theorem template {f : Program → Run σ α} {g : Program → Run τ α} (name : String)
    (h : ∀ p q, p.Alike q → Agrees V good (f p) (g q)) :
    Agrees V good (withWorld (world₁.load name) >>= f) (withWorld (world₂.load name) >>= g) where
  good_start c hgood := by
    refine W.good_of_load name c.world ?_
    rw [bind_apply, withWorld_apply] at hgood
    rcases hy : world₂.load name c.world with ⟨e | p, w⟩ <;> rw [hy] at hgood
    · exact hgood
    · exact (h p p ⟨rfl, rfl⟩).good_start _ hgood
  agree c w hV hgood := by
    rw [bind_apply, withWorld_within] at hgood ⊢
    have hloaded : good (world₂.load name w).2 := by
      rcases hy : world₂.load name w with ⟨e | p, w'⟩ <;> rw [hy] at hgood
      · exact hgood
      · exact (h p p ⟨rfl, rfl⟩).good_start _ hgood
    obtain ⟨halike, hV'⟩ := W.load name hV hloaded
    rw [bind_apply, withWorld_apply]
    generalize world₁.load name c.world = r₁ at halike hV'
    generalize world₂.load name w = r₂ at halike hV' hgood
    obtain ⟨r₁, s'⟩ := r₁
    obtain ⟨r₂, w'⟩ := r₂
    cases halike with
    | error e => exact ⟨w', rfl, hV'⟩
    | ok halike => exact (h _ _ halike).agree { c with world := s' } w' hV' hgood

end Agrees

theorem simulation_agrees {world₁ : World σ} {world₂ : World τ}
    (W : World.Agree world₁ world₂ V good) : Simulation world₁ world₂ (Agrees V good) where
  pure a := Agrees.get (f := fun _ => a) (g := fun _ => a) fun _ _ => rfl
  bind := Agrees.bind
  halt := Agrees.halt
  attempt := Agrees.attempt
  self := Agrees.get fun _ _ => rfl
  extendMode := Agrees.get fun _ _ => rfl
  render := Agrees.get fun _ _ => rfl
  block _ := Agrees.get fun _ _ => rfl
  keeps _ := Agrees.get fun _ _ => rfl
  frameCount := Agrees.get fun _ _ => rfl
  load _ _ := Agrees.get fun _ _ => rfl
  store _ _ _ := Agrees.update (fun _ _ => rfl) (fun _ => rfl) fun _ => rfl
  newFrame _ := Agrees.update (fun _ _ => rfl) (fun _ => rfl) fun _ => rfl
  append _ := Agrees.update (fun _ _ => rfl) (fun _ => rfl) fun _ => rfl
  print _ _ := Agrees.update (fun _ _ => rfl) (fun _ => rfl) fun _ => rfl
  define _ _ := Agrees.update (fun _ _ => rfl) (fun _ => rfl) fun _ => rfl
  requestLayout _ := Agrees.update (fun _ _ => rfl) (fun _ => rfl) fun _ => rfl
  defineContent text := by
    refine Agrees.update (fun c w => ?_) (fun c => ?_) fun c => ?_
    · show (if Text.isBlankText text && c.hasBlock defaultBlock then _ else _) = _
      split <;> rfl
    · split <;> rfl
    · split <;> rfl
  inside := Agrees.inside
  withSelf _ h := Agrees.between h (fun _ _ => rfl) (fun _ => rfl) (fun _ => rfl)
    (fun _ _ _ _ => rfl) (fun _ _ => rfl) fun _ _ => rfl
  holding _ h := by
    rw [holding_eq_between, holding_eq_between]
    exact Agrees.between h (fun _ _ => rfl) (fun _ => rfl) (fun _ => rfl)
      (fun _ _ _ _ => rfl) (fun _ _ => rfl) fun _ _ => rfl
  captured := Agrees.captured
  host := Agrees.host W
  template := Agrees.template W

end Run

namespace Context

variable {σ τ α : Type} {V : σ → τ → Prop} {good : τ → Prop} {world₁ : World σ} {world₂ : World τ}

theorem outcome_agrees {x : Deep (Run σ) → Run σ α} {y : Deep (Run τ) → Run τ α}
    (h : ∀ n, Run.Agrees V good (x (Run.levels world₁ n)) (y (Run.levels world₂ n)))
    {c : Context σ} {w : τ} (hV : V c.world w)
    (hgood : good ((c.within w).outcome world₂ y).2.world) :
    ∃ w', (c.within w).outcome world₂ y =
        ((c.outcome world₁ x).1, (c.outcome world₁ x).2.within w') ∧
      V (c.outcome world₁ x).2.world w' := by
  have hrun := (h (c.maxDepth - c.depth)).agree c w hV
  have hlevels : (c.within w).maxDepth - (c.within w).depth = c.maxDepth - c.depth := rfl
  unfold outcome at hgood ⊢
  rw [Run.leveled_apply, hlevels] at hgood ⊢
  rw [Run.leveled_apply]
  have hlast : good (y (Run.levels world₂ (c.maxDepth - c.depth)) (c.within w)).2.world := by
    generalize y (Run.levels world₂ (c.maxDepth - c.depth)) (c.within w) = r at hgood
    obtain ⟨(e | _) | a, c'⟩ := r <;> exact hgood
  obtain ⟨w', hy, hV'⟩ := hrun hlast
  rw [hy]
  refine ⟨w', ?_⟩
  generalize x (Run.levels world₁ (c.maxDepth - c.depth)) c = r at hV'
  obtain ⟨(e | _) | a, c'⟩ := r <;> exact ⟨rfl, hV'⟩

theorem execute_agrees (W : World.Agree world₁ world₂ V good) {p q : Program} (hpq : p.Alike q)
    (self : Value) {c : Context σ} {w : τ} (hV : V c.world w)
    (hgood : good ((c.within w).execute world₂ q self).2.world) :
    ∃ w', (c.within w).execute world₂ q self =
        ((c.execute world₁ p self).1, (c.execute world₁ p self).2.within w') ∧
      V (c.execute world₁ p self).2.world w' :=
  have S := Run.simulation_agrees W
  outcome_agrees (x := fun deep => Run.withSelf self (Run.renderProgram world₁ deep p))
    (fun n => S.withSelf self (S.renderProgram (S.levels n) hpq)) hV hgood

end Context
end TextTemplate
