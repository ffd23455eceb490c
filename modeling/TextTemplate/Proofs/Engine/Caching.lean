import TextTemplate.Engine
import TextTemplate.Proofs.Render.Simulation

/-! Rendering with a cache. Every cached program is what its template compiles to, unless the
template has changed since; sessions in which each change is announced in time never see the
difference. -/

namespace TextTemplate

theorem compile_alike {d : Delimiters} {name source : String} {p : Program}
    (h : compile d name source = .ok p) (name' : String) :
    ∃ q, compile d name' source = .ok q ∧ p.Alike q := by
  unfold compile at h ⊢
  split at h
  · obtain rfl := Except.ok.inj h
    exact ⟨_, rfl, rfl, rfl⟩
  · cases h

theorem Options.ofStrings?_of_delimiters (o : Options) {d : Delimiters} (h : o.delimiters = .ok d) :
    Delimiters.ofStrings? o.opening o.closing = some d := by
  unfold delimiters at h
  cases hd : Delimiters.ofStrings? o.opening o.closing with
  | none => simp [hd] at h
  | some d' => grind

inductive Request where
  | add (name source : String)
  | remove (name : String)
  | clear
  | render (name : String) (data : Value)
  | renderSource (name source : String) (data : Value)
  | get (name : String)
  | invalidate (name : String)
  | clearCache

namespace Request

def edit : Request → TemplateStore → TemplateStore
  | .add name source, t => (t.add name source).toOption.getD t
  | .remove name, t => t.remove name
  | .clear, _ => .empty
  | _, t => t

def rendersOrGets : Request → Bool
  | .render .. | .get _ => true
  | _ => false

def loads : Request → Bool
  | .renderSource .. => true
  | r => r.rendersOrGets

def settle (ext : String) : Request → List String → List String
  | .invalidate name, stale =>
    stale.filter (· ≠ TemplateStore.canonical (TemplateDirectory.withExtension ext name))
  | .clearCache, _ => []
  | _, stale => stale

end Request

def TemplateStore.changed (t t' : TemplateStore) : List String :=
  (Entries.keys t.templates).filter fun k =>
    Entries.find? k t'.templates ≠ Entries.find? k t.templates

/-- Whether no request that is `guarded` comes while a change is not announced: `stale` are the keys
of the templates that have changed and were not invalidated since. -/
def Announced (guarded : Request → Bool) (ext : String) :
    List String → TemplateStore → List Request → Prop
  | _, _, [] => True
  | stale, t, r :: rs =>
    (guarded r → stale = []) ∧
      Announced guarded ext (r.settle ext (t.changed (r.edit t) ++ stale)) (r.edit t) rs

instance Announced.decidable (guarded : Request → Bool) (ext : String) :
    (stale : List String) → (t : TemplateStore) → (rs : List Request) →
      Decidable (Announced guarded ext stale t rs)
  | _, _, [] => .isTrue trivial
  | stale, t, r :: rs =>
    have := decidable guarded ext (r.settle ext (t.changed (r.edit t) ++ stale)) (r.edit t) rs
    inferInstanceAs (Decidable ((guarded r → stale = []) ∧ _))

namespace Session

def perform (s : Session) (r : Request) : Option (Except Error String) × Session :=
  match r with
  | .render name data =>
    let (text, s) := s.render name data
    (some text, s)
  | .renderSource name source data =>
    let (text, s) := s.renderSource name source data
    (some text, s)
  | .get name => (none, s.mapEngine fun e => (e.get name).2)
  | .invalidate name => (none, s.mapEngine fun e => (e.invalidate name).2)
  | .clearCache => (none, s.mapEngine Engine.clearCache)
  | r => (none, s.mapEngine fun e => { e with library := e.library.mapStore r.edit })

def answers (s : Session) : List Request → List (Option (Except Error String))
  | [] => []
  | r :: rs => (s.perform r).1 :: (s.perform r).2.answers rs

end Session
namespace Engine

def uncached (e : Engine) (c : Cache Program) : Engine :=
  { e with cache := c, options := { e.options with cache := false } }

/-- Whether each cached program is what the template under its key compiles to, stale keys apart. -/
structure Coherent (ext : String) (t : TemplateStore) (stale : List String) (e : Engine) :
    Prop where
  caches : e.options.cache = true
  ext : e.options.ext = ext
  library : e.library = .store t
  current : ∀ entry ∈ e.cache.entries, entry.1 ∈ stale ∨
    ∃ source name, Entries.find? entry.1 t.templates = some source ∧
      e.compile name source = .ok entry.2

theorem uncached_get (e : Engine) (c : Cache Program) (name : String) :
    (e.uncached c).get name = ((e.load name).1, e.uncached c) := by
  simp only [get, uncached, load, templateName, compile, Bool.false_eq_true, if_false]
  cases e.library.resolve (TemplateDirectory.withExtension e.options.ext name) with
  | error err => rfl
  | ok resource =>
    dsimp only
    cases TextTemplate.compile e.delimiters
      (TemplateDirectory.withExtension e.options.ext name) resource.source <;> rfl

inductive AlikeResults : Except Error Program → Except Error Program → Prop
  | error (err : Error) : AlikeResults (.error err) (.error err)
  | ok {p q : Program} (h : p.Alike q) : AlikeResults (.ok p) (.ok q)

theorem AlikeResults.refl (r : Except Error Program) : AlikeResults r r := by
  cases r with
  | ok p => exact .ok ⟨rfl, rfl⟩
  | error err => exact .error err

theorem make?_eq_ok {library : Library} {cache : Cache Program} {o : Options} {e : Engine}
    (h : make? library cache o = .ok e) :
    ∃ d, Delimiters.ofStrings? o.opening o.closing = some d ∧ e = ⟨library, cache, o, d⟩ := by
  unfold make? at h
  cases hd : o.delimiters with
  | error fault => simp [hd] at h
  | ok d =>
    simp only [hd] at h
    exact ⟨d, o.ofStrings?_of_delimiters hd, (Except.ok.inj h).symm⟩

variable {ext : String} {t : TemplateStore} {e : Engine}

theorem key_eq (h : e.library = .store t) (name : String) :
    e.key name = .ok (TemplateStore.canonical (e.templateName name)) := by
  simp only [key, h, Library.resolvedPath]

theorem load_eq (h : e.library = .store t) (name : String) :
    e.load name =
      match Entries.find? (TemplateStore.canonical (e.templateName name)) t.templates with
      | none => (.error (.templateNotFound (TemplateStore.canonical (e.templateName name))), e)
      | some source =>
        match e.compile (e.templateName name) source with
        | .error err => (.error err, e)
        | .ok p =>
          (.ok p,
            if e.options.cache then
              { e with
                cache := e.cache.insert (TemplateStore.canonical (e.templateName name)) p }
            else e) := by
  simp only [load, h, Library.resolve, TemplateStore.resolve]
  cases Entries.find? (TemplateStore.canonical (e.templateName name)) t.templates <;> rfl

theorem Coherent.load (h : Coherent ext t [] e) (name : String) :
    Coherent ext t [] (e.load name).2 ∧ ∀ c, (e.load name).2.uncached c = e.uncached c := by
  rw [load_eq h.library]
  split
  · exact ⟨h, fun _ => rfl⟩
  rename_i source hs
  split
  · exact ⟨h, fun _ => rfl⟩
  rename_i p hp
  rw [if_pos h.caches]
  refine ⟨⟨h.caches, h.ext, h.library, fun entry hm => ?_⟩, fun _ => rfl⟩
  rcases Cache.mem_insert hm with rfl | hm
  · exact .inr ⟨source, _, hs, hp⟩
  · exact h.current entry hm

theorem Coherent.get (h : Coherent ext t [] e) (name : String) :
    ∃ r e', e.get name = (r, e') ∧ AlikeResults r (e.load name).1 ∧ Coherent ext t [] e' ∧
      ∀ c, e'.uncached c = e.uncached c := by
  unfold Engine.get
  rw [if_pos h.caches, key_eq h.library]
  dsimp only
  split
  · rename_i p hp
    have hm := Cache.mem_of_find? hp
    refine ⟨_, _, rfl, ?_, ⟨h.caches, h.ext, h.library, fun entry he => ?_⟩, fun _ => rfl⟩
    · obtain ⟨source, name', hs, hc⟩ := (h.current _ hm).resolve_left (by simp)
      -- it may have been compiled under another spelling of its name
      obtain ⟨q, hq, halike⟩ := compile_alike hc (e.templateName name)
      rw [load_eq h.library, hs]
      dsimp only
      rw [show e.compile (e.templateName name) source = .ok q from hq]
      exact .ok halike
    · exact h.current entry (Cache.mem_touch he)
  · exact ⟨_, _, rfl, .refl _, h.load name⟩

end Engine

namespace Session

def uncached (c : Cache Program) (s : Session) : Session :=
  { s with engine := s.engine.uncached c }

end Session

namespace Context

def uncached (c : Cache Program) (x : Context Session) : Context Session :=
  { x with world := x.world.uncached c }

end Context

namespace Run

variable {ext : String} {t : TemplateStore} {α β : Type}

def SameUncached (ext : String) (t : TemplateStore) ⦃α : Type⦄ (x y : Run Session α) : Prop :=
  ∀ (c : Context Session) (cache : Cache Program), c.world.engine.Coherent ext t [] →
    y (c.uncached cache) = ((x c).1, (x c).2.uncached cache) ∧
      (x c).2.world.engine.Coherent ext t []

namespace SameUncached

theorem get {f : Context Session → α} (hf : ∀ c cache, f (c.uncached cache) = f c) :
    SameUncached ext t (get f) (get f) := fun c cache h =>
  ⟨by rw [get_apply, get_apply, hf], h⟩

theorem update {f : Context Session → Context Session}
    (hf : ∀ c cache, f (c.uncached cache) = (f c).uncached cache)
    (hw : ∀ c, (f c).world = c.world) : SameUncached ext t (update f) (update f) := fun c cache h =>
  ⟨by rw [update_apply, update_apply, hf], by rw [update_apply, hw]; exact h⟩

theorem bind {x y : Run Session α} {f g : α → Run Session β} (h : SameUncached ext t x y)
    (hf : ∀ a, SameUncached ext t (f a) (g a)) : SameUncached ext t (x >>= f) (y >>= g) := by
  intro c cache hc
  obtain ⟨hy, hx⟩ := h c cache hc
  rw [bind_apply, bind_apply, hy]
  generalize x c = r at hx
  obtain ⟨e | a, c'⟩ := r
  · exact ⟨rfl, hx⟩
  · exact hf a c' cache hx

theorem between {before : Context Session → Context Session}
    {after : Context Session → Context Session → Context Session} {x y : Run Session α}
    (h : SameUncached ext t x y)
    (hb : ∀ c cache, before (c.uncached cache) = (before c).uncached cache)
    (hw : ∀ c, (before c).world = c.world)
    (ha : ∀ c c' cache, after (c.uncached cache) (c'.uncached cache) = (after c c').uncached cache)
    (hv : ∀ c c', (after c c').world = c'.world) :
    SameUncached ext t (between before after x) (between before after y) := by
  intro c cache hc
  obtain ⟨hy, hx⟩ := h (before c) cache (by rw [hw]; exact hc)
  rw [between_apply, between_apply, hb, hy, ha]
  exact ⟨rfl, by rw [hv]; exact hx⟩

theorem halt (h : Halt) : SameUncached ext t (halt h : Run Session α) (halt h) :=
  fun _ _ hc => ⟨rfl, hc⟩

theorem inside {x y : Run Session α} (name : String) (h : SameUncached ext t x y) :
    SameUncached ext t (inside name x) (inside name y) := by
  rw [inside_eq, inside_eq]
  refine bind (get fun _ _ => rfl) fun levels => ?_
  split
  · exact halt _
  · exact between h (fun _ _ => rfl) (fun _ => rfl) (fun _ _ _ => rfl) fun _ _ => rfl

theorem captured {x y : Run Session Unit} (h : SameUncached ext t x y) :
    SameUncached ext t (captured x) (captured y) := by
  intro c cache hc
  obtain ⟨hy, hx⟩ := h c.aside cache hc
  change y (c.uncached cache).aside = _ at hy
  rw [captured_apply, captured_apply, hy]
  generalize x c.aside = r at hx
  obtain ⟨e | ⟨⟩, c'⟩ := r
  · exact ⟨rfl, hx⟩
  · exact ⟨rfl, hx⟩

theorem host (f : HostFunction) (args : List Value) :
    SameUncached ext t (withWorld (Session.world.call f args))
      (withWorld (Session.world.call f args)) := by
  intro c cache hc
  rw [withWorld_apply, withWorld_apply]
  exact ⟨rfl, hc⟩

theorem template {f g : Program → Run Session α} (name : String)
    (h : ∀ p q, p.Alike q → SameUncached ext t (f p) (g q)) :
    SameUncached ext t (withWorld (Session.world.load name) >>= f)
      (withWorld (Session.world.load name) >>= g) := by
  intro c cache hc
  obtain ⟨r, e', hget, halike, hcoherent, huncached⟩ := hc.get name
  -- with its cache the engine becomes `e'`, without it the engine stays as it is
  have hx : (withWorld (Session.world.load name) : Run Session Program) c =
      (r.mapError Halt.error, { c with world := { c.world with engine := e' } }) := by
    rw [withWorld_apply]
    show ((c.world.engine.get name).1.mapError Halt.error,
      { c with world := { c.world with engine := (c.world.engine.get name).2 } }) = _
    rw [hget]
  have hy : (withWorld (Session.world.load name) : Run Session Program) (c.uncached cache) =
      ((c.world.engine.load name).1.mapError Halt.error, c.uncached cache) := by
    rw [withWorld_apply]
    show (((c.world.engine.uncached cache).get name).1.mapError _,
      { c with world := { c.world with
        engine := ((c.world.engine.uncached cache).get name).2 } }) = _
    rw [Engine.uncached_get]
    rfl
  have hc' : c.uncached cache =
      ({ c with world := { c.world with engine := e' } } : Context Session).uncached cache := by
    simp only [Context.uncached, Session.uncached, huncached]
  rw [bind_apply, bind_apply, hx, hy]
  generalize (c.world.engine.load name).1 = r' at halike
  cases halike with
  | error err => exact ⟨by rw [hc']; rfl, hcoherent⟩
  | ok halike =>
    rw [hc']
    exact h _ _ halike _ cache hcoherent

end SameUncached

theorem simulation_sameUncached (ext : String) (t : TemplateStore) :
    Simulation Session.world Session.world (SameUncached ext t) where
  pure a := SameUncached.get (f := fun _ => a) fun _ _ => rfl
  bind := SameUncached.bind
  halt := SameUncached.halt
  attempt h := fun c cache hc => by
    obtain ⟨hy, hx⟩ := h c cache hc
    rw [attempt_apply, attempt_apply, hy]
    exact ⟨rfl, hx⟩
  self := SameUncached.get fun _ _ => rfl
  extendMode := SameUncached.get fun _ _ => rfl
  render := SameUncached.get fun _ _ => rfl
  block _ := SameUncached.get fun _ _ => rfl
  keeps _ := SameUncached.get fun _ _ => rfl
  frameCount := SameUncached.get fun _ _ => rfl
  load _ _ := SameUncached.get fun _ _ => rfl
  store _ _ _ := SameUncached.update (fun _ _ => rfl) fun _ => rfl
  newFrame _ := SameUncached.update (fun _ _ => rfl) fun _ => rfl
  append _ := SameUncached.update (fun _ _ => rfl) fun _ => rfl
  print _ _ := SameUncached.update (fun _ _ => rfl) fun _ => rfl
  define _ _ := SameUncached.update (fun _ _ => rfl) fun _ => rfl
  requestLayout _ := SameUncached.update (fun _ _ => rfl) fun _ => rfl
  defineContent text := by
    refine SameUncached.update (fun c cache => ?_) fun c => ?_
    · show (if Text.isBlankText text && c.hasBlock defaultBlock then _ else _) = _
      split <;> rfl
    · split <;> rfl
  inside := SameUncached.inside
  withSelf _ h := SameUncached.between h (fun _ _ => rfl) (fun _ => rfl) (fun _ _ _ => rfl)
    fun _ _ => rfl
  holding _ h := by
    rw [holding_eq_between, holding_eq_between]
    exact SameUncached.between h (fun _ _ => rfl) (fun _ => rfl) (fun _ _ _ => rfl) fun _ _ => rfl
  captured := SameUncached.captured
  host := SameUncached.host
  template := SameUncached.template

end Run

theorem Context.outcome_uncached {ext : String} {t : TemplateStore} {α : Type}
    {x y : Deep (Run Session) → Run Session α}
    (h : ∀ n, Run.SameUncached ext t (x (Run.levels Session.world n))
      (y (Run.levels Session.world n)))
    {c : Context Session} (hc : c.world.engine.Coherent ext t []) (cache : Cache Program) :
    (c.uncached cache).outcome Session.world y =
        ((c.outcome Session.world x).1, (c.outcome Session.world x).2.uncached cache) ∧
      (c.outcome Session.world x).2.world.engine.Coherent ext t [] := by
  obtain ⟨hy, hx⟩ := h (c.maxDepth - c.depth) c cache hc
  unfold Context.outcome
  rw [Run.leveled_apply, Run.leveled_apply]
  change y (Run.levels Session.world ((c.uncached cache).maxDepth - (c.uncached cache).depth))
    (c.uncached cache) = _ at hy
  rw [hy]
  generalize x (Run.levels Session.world (c.maxDepth - c.depth)) c = r at hx
  obtain ⟨(e | _) | a, c'⟩ := r <;> exact ⟨rfl, hx⟩

theorem TemplateStore.changed_self (t : TemplateStore) : t.changed t = [] := by
  simp [changed]

theorem TemplateStore.mem_changed {t t' : TemplateStore} {k source : String}
    (h : Entries.find? k t.templates = some source)
    (h' : Entries.find? k t'.templates ≠ some source) : k ∈ t.changed t' := by
  have hk : k ∈ Entries.keys t.templates := List.mem_map.2 ⟨_, Entries.mem_of_find? h, rfl⟩
  simp only [changed, List.mem_filter, hk, true_and, h]
  exact decide_eq_true h'

namespace Session

variable {ext : String} {t : TemplateStore} {s : Session}

theorem run_uncached (h : s.engine.Coherent ext t []) (cache : Cache Program) {p q : Program}
    (hpq : p.Alike q) (data : Value) :
    (s.uncached cache).run q data = ((s.run p data).1, (s.run p data).2.uncached cache) ∧
      (s.run p data).2.engine.Coherent ext t [] := by
  have S := Run.simulation_sameUncached ext t
  obtain ⟨hy, hx⟩ := Context.outcome_uncached (c := s.start s.engine.options .null)
    (x := fun deep => Run.withSelf data (Run.renderProgram world deep p))
    (y := fun deep => Run.withSelf data (Run.renderProgram world deep q))
    (fun n => S.withSelf data (S.renderProgram (S.levels n) hpq)) h cache
  unfold run
  change ((s.uncached cache).start (s.uncached cache).engine.options .null).execute world q data = _
    at hy
  rw [hy]
  exact ⟨rfl, hx⟩

theorem render_uncached (h : s.engine.Coherent ext t []) (cache : Cache Program) (name : String)
    (data : Value) :
    (s.uncached cache).render name data =
        ((s.render name data).1, (s.render name data).2.uncached cache) ∧
      (s.render name data).2.engine.Coherent ext t [] := by
  obtain ⟨r, e', hget, halike, hcoherent, huncached⟩ := h.get name
  have hs : s.uncached cache = ({ s with engine := e' } : Session).uncached cache := by
    simp only [uncached, huncached]
  have hu : (s.uncached cache).engine.get name =
      ((s.engine.load name).1, (s.uncached cache).engine) :=
    s.engine.uncached_get cache name
  unfold render
  rw [hget, hu]
  generalize (s.engine.load name).1 = r' at halike
  cases halike with
  | error err => exact ⟨by rw [hs], hcoherent⟩
  | ok halike =>
    rw [hs]
    exact run_uncached (s := { s with engine := e' }) hcoherent cache halike data

theorem renderSource_uncached (h : s.engine.Coherent ext t []) (cache : Cache Program)
    (name source : String) (data : Value) :
    (s.uncached cache).renderSource name source data =
        ((s.renderSource name source data).1, (s.renderSource name source data).2.uncached cache) ∧
      (s.renderSource name source data).2.engine.Coherent ext t [] := by
  unfold renderSource
  rw [show (s.uncached cache).engine.compile name source = s.engine.compile name source from rfl]
  cases s.engine.compile name source with
  | error err => exact ⟨rfl, h⟩
  | ok p => exact run_uncached h cache ⟨rfl, rfl⟩ data

theorem coherent_edit {stale : List String} (h : s.engine.Coherent ext t stale) (r : Request) :
    (s.mapEngine fun e => { e with library := e.library.mapStore r.edit }).engine.Coherent ext
      (r.edit t) (t.changed (r.edit t) ++ stale) := by
  refine ⟨h.caches, h.ext, ?_, fun entry he => ?_⟩
  · show s.engine.library.mapStore r.edit = _
    rw [h.library]
    rfl
  rcases h.current entry he with hstale | ⟨source, name, hs, hc⟩
  · exact .inl (List.mem_append_right _ hstale)
  · -- an entry goes stale with the source that it was compiled from
    by_cases hsame : Entries.find? entry.1 (r.edit t).templates = some source
    · exact .inr ⟨source, name, hsame, hc⟩
    · exact .inl (List.mem_append_left _ (TemplateStore.mem_changed hs hsame))

theorem coherent_invalidate {stale : List String} (h : s.engine.Coherent ext t stale)
    (name : String) :
    (s.mapEngine fun e => (e.invalidate name).2).engine.Coherent ext t
      (Request.settle ext (.invalidate name) stale) := by
  have hkey := Engine.key_eq h.library name
  have he : (s.engine.invalidate name).2 = { s.engine with
      cache := s.engine.cache.erase (TemplateStore.canonical (s.engine.templateName name)) } := by
    simp only [Engine.invalidate, hkey]
  show (s.engine.invalidate name).2.Coherent ext t _
  rw [he]
  refine ⟨h.caches, h.ext, h.library, fun entry hm => ?_⟩
  obtain ⟨hmem, hne⟩ := Cache.mem_erase hm
  rw [Engine.templateName, h.ext] at hne
  exact (h.current entry hmem).imp_left fun hstale => by
    simpa [Request.settle] using ⟨hstale, hne⟩

theorem perform_uncached {stale : List String} (h : s.engine.Coherent ext t stale)
    (r : Request) (hr : r.loads → stale = []) (cache : Cache Program) :
    (∃ cache', (s.uncached cache).perform r = ((s.perform r).1, (s.perform r).2.uncached cache')) ∧
      (s.perform r).2.engine.Coherent ext (r.edit t)
        (r.settle ext (t.changed (r.edit t) ++ stale)) := by
  cases r with
  | render name data =>
    obtain rfl := hr rfl
    obtain ⟨hy, hx⟩ := render_uncached h cache name data
    refine ⟨⟨cache, by simp only [perform, hy]⟩, ?_⟩
    simpa [perform, Request.edit, Request.settle, t.changed_self] using hx
  | renderSource name source data =>
    obtain rfl := hr rfl
    obtain ⟨hy, hx⟩ := renderSource_uncached h cache name source data
    refine ⟨⟨cache, by simp only [perform, hy]⟩, ?_⟩
    simpa [perform, Request.edit, Request.settle, t.changed_self] using hx
  | get name =>
    obtain rfl := hr rfl
    obtain ⟨r, e', hget, -, hcoherent, huncached⟩ := h.get name
    have hu : ((s.engine.uncached cache).get name).2 = s.engine.uncached cache := by
      rw [Engine.uncached_get]
    constructor
    · refine ⟨cache, ?_⟩
      show (none, ({ s with engine := ((s.engine.uncached cache).get name).2 } : Session)) =
        (none, ({ s with engine := (s.engine.get name).2.uncached cache } : Session))
      rw [hu, hget, huncached]
    · have he : (s.engine.get name).2 = e' := by rw [hget]
      simpa [Request.edit, Request.settle, t.changed_self, perform, mapEngine, he] using hcoherent
  | invalidate name =>
    have hkey := Engine.key_eq h.library name
    have hkey' : (s.engine.uncached cache).key name =
      .ok (TemplateStore.canonical (s.engine.templateName name)) := hkey
    refine ⟨⟨cache.erase (TemplateStore.canonical (s.engine.templateName name)), ?_⟩, ?_⟩
    · simp only [perform, mapEngine, uncached, Engine.invalidate, hkey, hkey']
      rfl
    · simpa [perform, Request.edit, t.changed_self] using coherent_invalidate h name
  | clearCache =>
    have hempty : s.engine.clearCache.cache.entries = [] := rfl
    refine ⟨⟨cache.clear, rfl⟩, h.caches, h.ext, h.library, fun entry he => ?_⟩
    change entry ∈ s.engine.clearCache.cache.entries at he
    rw [hempty] at he
    cases he
  | add name source => exact ⟨⟨cache, rfl⟩, coherent_edit h (.add name source)⟩
  | remove name => exact ⟨⟨cache, rfl⟩, coherent_edit h (.remove name)⟩
  | clear => exact ⟨⟨cache, rfl⟩, coherent_edit h .clear⟩

theorem answers_uncached {stale : List String} (h : s.engine.Coherent ext t stale)
    (rs : List Request) (ha : Announced Request.loads ext stale t rs) (cache : Cache Program) :
    (s.uncached cache).answers rs = s.answers rs := by
  -- coherence up to the stale keys is what each request preserves
  induction rs generalizing s t stale cache with
  | nil => rfl
  | cons r rs ih =>
    obtain ⟨hr, hrs⟩ := ha
    obtain ⟨⟨cache', hy⟩, hx⟩ := perform_uncached h r hr cache
    simp only [answers, hy]
    rw [ih hx hrs cache']

/-- Sessions in which every change of a template is announced before the next template is loaded
give the same texts and errors with and without a cache, however large the cache is. -/
theorem answers_eq_answers_uncached (o : Options) (t : TemplateStore) (capacity : Nat)
    (cache : Cache Program) {e e' : Engine}
    (he : Engine.make? (.store t) (.ofCapacity capacity) { o with cache := true } = .ok e)
    (he' : Engine.make? (.store t) cache { o with cache := false } = .ok e')
    (host : HostFunction → List Value → Value → Except Error Value × Value) (cell : Value)
    (rs : List Request) (h : Announced Request.loads o.ext [] t rs) :
    ({ engine := e, host, cell } : Session).answers rs =
      ({ engine := e', host, cell } : Session).answers rs := by
  obtain ⟨d, hd, rfl⟩ := Engine.make?_eq_ok he
  obtain ⟨d', hd', rfl⟩ := Engine.make?_eq_ok he'
  obtain rfl : d = d' := Option.some.inj (hd.symm.trans hd')
  let e : Engine := ⟨.store t, .ofCapacity capacity, { o with cache := true }, d⟩
  have hcoherent : e.Coherent o.ext t [] := ⟨rfl, rfl, rfl, by simp [e, Cache.ofCapacity]⟩
  exact (answers_uncached (s := ⟨e, host, cell, 0⟩) hcoherent rs h cache).symm

theorem alias_session_answers_eq :
    let rs : List Request :=
      [.add "page" "<% include 'part' %>!", .add "part" "old", .render "page" .null,
        .add "/part" "new", .invalidate "part", .render "/page" .null]
    Announced Request.loads "" [] .empty rs ∧
      ∃ e e', Engine.make? (.store .empty) (.ofCapacity 1) {} = .ok e ∧
        Engine.make? (.store .empty) .none { cache := false } = .ok e' ∧
        ({ engine := e } : Session).answers rs = ({ engine := e' } : Session).answers rs := by
  refine ⟨by decide +kernel, _, _, rfl, rfl, ?_⟩
  exact answers_eq_answers_uncached {} .empty 1 .none rfl rfl _ _ _ (by decide +kernel)

/-- It is not enough to announce changes before the next `render` or `get`: a text that is rendered
in between and includes the template gets the program from before the change. -/
theorem renderSource_sees_unannounced_change :
    let rs : List Request :=
      [.add "page" "A", .get "page", .add "page" "B",
        .renderSource "t" "<% include 'page' %>" .null, .invalidate "page"]
    Announced Request.rendersOrGets "" [] .empty rs ∧
      ∃ e e', Engine.make? (.store .empty) (.ofCapacity 1) {} = .ok e ∧
        Engine.make? (.store .empty) .none { cache := false } = .ok e' ∧
        ({ engine := e } : Session).answers rs ≠ ({ engine := e' } : Session).answers rs := by
  refine ⟨by decide +kernel, _, _, rfl, rfl, fun h => ?_⟩
  exact absurd (congrArg (·.map (·.map Except.toOption)) h) (by decide +kernel)

end Session
end TextTemplate
