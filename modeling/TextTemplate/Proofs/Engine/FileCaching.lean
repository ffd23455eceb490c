import TextTemplate.Proofs.Engine.Loading
import TextTemplate.Proofs.Engine.Surroundings

/-! Caching over a directory. A cached program is found by its path with slashes in place of
backslashes, so that paths which differ in these share an entry. A session that loads no two such
paths never sees the difference that a cache makes; one that does may. -/

namespace TextTemplate

theorem FilePath.eq_of_slashText_eq {p q : FilePath} (hp : '\\' ∉ p.text.toList)
    (hq : '\\' ∉ q.text.toList) (h : p.slashText = q.slashText) : p = q := by
  have hsame {p : FilePath} (hp : '\\' ∉ p.text.toList) : p.slashText = p.text := by
    have hmap : p.text.toList.map (fun c => if c = '\\' then '/' else c) = p.text.toList.map id :=
      List.map_congr_left fun c hc => if_neg (ne_of_mem_of_not_mem hc hp)
    rw [slashText, hmap, List.map_id, String.ofList_toList]
  rw [hsame hp, hsame hq] at h
  exact congrArg FilePath.mk h

namespace TemplateDirectory

variable (d : TemplateDirectory) {name name' : String}

theorem resolve_congr (files : FileTree) (h : d.filePath name = d.filePath name') :
    d.resolve files name = d.resolve files name' := by
  simp only [resolve, h]

theorem filePath_eq_of_slashText_eq
    (h : ∀ path, d.filePath name = .ok path → '\\' ∉ path.text.toList)
    (h' : ∀ path, d.filePath name' = .ok path → '\\' ∉ path.text.toList)
    (hsame : (d.filePath name).map FilePath.slashText =
      (d.filePath name').map FilePath.slashText) :
    d.filePath name = d.filePath name' := by
  cases hp : d.filePath name with
  | error err =>
    cases hp' : d.filePath name' with
    | error err' => simpa [hp, hp', Except.map] using hsame
    | ok path' => simp [hp, hp', Except.map] at hsame
  | ok path =>
    cases hp' : d.filePath name' with
    | error err' => simp [hp, hp', Except.map] at hsame
    | ok path' =>
      rw [hp, hp'] at hsame
      rw [FilePath.eq_of_slashText_eq (h path hp) (h' path' hp') (Except.ok.inj hsame)]

end TemplateDirectory

namespace Session

/-- The surroundings of a render that note the names of the templates that are loaded, the last one
first. -/
def noting : World (Session × List String) where
  load name u :=
    let (r, s) := world.load name u.1
    (r, s, name :: u.2)
  call f args u :=
    let (r, s) := world.call f args u.1
    (r, s, u.2)

def runLoads (s : Session) (p : Program) (data : Value) : List String :=
  let start := s.start s.engine.options .null
  ((start.within (start.world, [])).execute noting p data).2.world.2

def loads (s : Session) : Request → List String
  | .render name data =>
    match s.engine.get name with
    | (.error _, _) => [name]
    | (.ok p, engine) => name :: ({ s with engine } : Session).runLoads p data
  | .renderSource name source data =>
    match s.engine.compile name source with
    | .error _ => []
    | .ok p => s.runLoads p data
  | .get name => [name]
  | _ => []

def loaded (s : Session) : List Request → List String
  | [] => []
  | r :: rs => s.loads r ++ (s.perform r).2.loaded rs

theorem render_eq (s : Session) (name : String) (data : Value) :
    s.render name data =
      match world.load name s with
      | (.error err, s) => (.error err, s)
      | (.ok p, s) => s.run p data := by
  simp only [render, world]
  rcases s.engine.get name with ⟨err | p, engine⟩ <;> rfl

theorem loads_render (s : Session) (name : String) (data : Value) :
    s.loads (.render name data) =
      match world.load name s with
      | (.error _, _) => [name]
      | (.ok p, s) => name :: s.runLoads p data := by
  simp only [loads, world]
  rcases s.engine.get name with ⟨err | p, engine⟩ <;> rfl

theorem mapStore_of_directory {s : Session} {d : TemplateDirectory} {files : FileTree}
    (h : s.engine.library = .directory d files) (f : TemplateStore → TemplateStore) :
    (s.mapEngine fun e => { e with library := e.library.mapStore f }) = s := by
  have hsame : s.engine.library.mapStore f = s.engine.library := by
    rw [h]
    rfl
  simp only [mapEngine, hsame]

theorem agree_noting : World.Agree world noting (fun s u => u.1 = s) fun _ => True where
  good_of_call _ _ _ _ := trivial
  good_of_load _ _ _ := trivial
  call f args s u h _ := by
    subst h
    exact ⟨rfl, rfl⟩
  load name s u h _ := by
    subst h
    exact ⟨.refl _, rfl⟩

/-- A session over a directory with a cache that is `Current`, and the same one with caching off. -/
structure Follows (names : String → Prop) (s s' : Session) : Prop where
  files : ∃ d files, s.engine.library = .directory d files
  current : s.engine.Current names
  apart : s.engine.Apart names
  uncached : ∃ cache, s' = s.uncached cache

variable {names : String → Prop} {s s' : Session}

namespace Follows

theorem load (h : Follows names s s') {name : String} (hname : names name) :
    Engine.AlikeResults (world.load name s).1 (world.load name s').1 ∧
      Follows names (world.load name s).2 (world.load name s').2 := by
  obtain ⟨cache, rfl⟩ := h.uncached
  obtain ⟨r, cache', hget, halike, hcurrent⟩ := h.current.get (fun _ => h.apart) hname
  have hs : world.load name s = (r, { s with engine := { s.engine with cache := cache' } }) := by
    show ((s.engine.get name).1, ({ s with engine := (s.engine.get name).2 } : Session)) = _
    rw [hget]
  have hs' : world.load name (s.uncached cache) =
      ((s.engine.load name).1, s.uncached cache) := by
    show (((s.engine.uncached cache).get name).1,
      ({ s with engine := ((s.engine.uncached cache).get name).2 } : Session)) = _
    rw [Engine.uncached_get]
    rfl
  rw [hs, hs']
  exact ⟨halike, h.files, hcurrent, h.apart, cache, rfl⟩

theorem agree : World.Agree world noting (fun s u => Follows names s u.1)
    fun u => ∀ name ∈ u.2, names name where
  good_of_call _ _ _ h := h
  good_of_load _ _ h := fun name hname => h name (List.mem_cons_of_mem _ hname)
  call f args s u h _ := by
    obtain ⟨s', log⟩ := u
    obtain ⟨cache, rfl⟩ := h.uncached
    exact ⟨rfl, h.files, h.current, h.apart, cache, rfl⟩
  load name s u h hgood := h.load (hgood name List.mem_cons_self)

theorem run (h : Follows names s s') {p q : Program} (hpq : p.Alike q) (data : Value)
    (hloads : ∀ name ∈ s'.runLoads q data, names name) :
    (s'.run q data).1 = (s.run p data).1 ∧ Follows names (s.run p data).2 (s'.run q data).2 := by
  let c := s.start s.engine.options .null
  let c' := s'.start s'.engine.options .null
  obtain ⟨w, hplain, hw⟩ := c'.execute_agrees agree_noting (w := (c'.world, [])) ⟨rfl, rfl⟩ data
    (p := q) rfl trivial
  obtain ⟨w', hcached, hw'⟩ : ∃ w', (c'.within (c'.world, [])).execute noting q data =
      ((c.execute world p data).1, (c.execute world p data).2.within w') ∧
        Follows names (c.execute world p data).2.world w'.1 := by
    obtain ⟨cache, rfl⟩ := h.uncached
    have hstart : Follows names c.world c'.world := ⟨h.files, h.current, h.apart, cache, rfl⟩
    exact c.execute_agrees (w := (c'.world, [])) agree hpq data hstart hloads
  -- the run that notes names is that with the cache, and that without
  obtain ⟨hresult, hcontext⟩ := Prod.mk.inj (hplain.symm.trans hcached)
  have houtput : (c'.execute world q data).2.output = (c.execute world p data).2.output := by
    have h := congrArg Context.output hcontext
    exact h
  have hworld : w = w' := by
    have h := congrArg Context.world hcontext
    exact h
  constructor
  · show (c'.execute world q data).1.map (fun () => (c'.execute world q data).2.output) =
      (c.execute world p data).1.map fun () => (c.execute world p data).2.output
    rw [hresult, houtput]
  · show Follows names (c.execute world p data).2.world (c'.execute world q data).2.world
    rwa [← hw, hworld]

theorem render (h : Follows names s s') {name : String} {data : Value}
    (hloads : ∀ n ∈ s'.loads (.render name data), names n) :
    (s'.render name data).1 = (s.render name data).1 ∧
      Follows names (s.render name data).2 (s'.render name data).2 := by
  rw [loads_render] at hloads
  have hname : names name := by
    refine hloads name ?_
    rcases world.load name s' with ⟨err | p, _⟩ <;> simp
  obtain ⟨halike, hafter⟩ := h.load hname
  rw [render_eq, render_eq]
  generalize world.load name s = r at halike hafter
  generalize world.load name s' = r' at halike hafter hloads
  obtain ⟨r, s₁⟩ := r
  obtain ⟨r', s₁'⟩ := r'
  cases halike with
  | error err => exact ⟨rfl, hafter⟩
  | ok halike => exact hafter.run halike data fun n hn => hloads n (List.mem_cons_of_mem _ hn)

theorem renderSource (h : Follows names s s') {name source : String} {data : Value}
    (hloads : ∀ n ∈ s'.loads (.renderSource name source data), names n) :
    (s'.renderSource name source data).1 = (s.renderSource name source data).1 ∧
      Follows names (s.renderSource name source data).2
        (s'.renderSource name source data).2 := by
  have hcompile : s'.engine.compile name source = s.engine.compile name source := by
    obtain ⟨cache, rfl⟩ := h.uncached
    rfl
  simp only [loads] at hloads
  unfold Session.renderSource
  rw [hcompile] at hloads ⊢
  split
  · exact ⟨rfl, h⟩
  · rename_i p hp
    rw [hp] at hloads
    exact h.run ⟨rfl, rfl⟩ data hloads

theorem invalidate (h : Follows names s s') (name : String) :
    Follows names (s.mapEngine fun e => (e.invalidate name).2)
      (s'.mapEngine fun e => (e.invalidate name).2) := by
  obtain ⟨cache, rfl⟩ := h.uncached
  have hkey : (s.uncached cache).engine.key name = s.engine.key name := rfl
  simp only [mapEngine, Engine.invalidate, hkey]
  cases s.engine.key name with
  | error err => exact ⟨h.files, h.current, h.apart, cache, rfl⟩
  | ok key =>
    exact ⟨h.files, fun entry hm => h.current entry (Cache.mem_erase hm).1, h.apart,
      cache.erase key, rfl⟩

theorem edit (h : Follows names s s') (f : TemplateStore → TemplateStore) :
    Follows names (s.mapEngine fun e => { e with library := e.library.mapStore f })
      (s'.mapEngine fun e => { e with library := e.library.mapStore f }) := by
  obtain ⟨d, files, hfiles⟩ := h.files
  have hfiles' : s'.engine.library = .directory d files := by
    obtain ⟨cache, rfl⟩ := h.uncached
    exact hfiles
  rwa [mapStore_of_directory hfiles, mapStore_of_directory hfiles']

theorem perform (h : Follows names s s') (r : Request) (hloads : ∀ name ∈ s'.loads r, names name) :
    (s'.perform r).1 = (s.perform r).1 ∧ Follows names (s.perform r).2 (s'.perform r).2 := by
  cases r with
  | render name data =>
    obtain ⟨htext, hafter⟩ := h.render hloads
    exact ⟨congrArg some htext, hafter⟩
  | renderSource name source data =>
    obtain ⟨htext, hafter⟩ := h.renderSource hloads
    exact ⟨congrArg some htext, hafter⟩
  | get name => exact ⟨rfl, (h.load (hloads name List.mem_cons_self)).2⟩
  | invalidate name => exact ⟨rfl, h.invalidate name⟩
  | clearCache =>
    obtain ⟨cache, rfl⟩ := h.uncached
    exact ⟨rfl, h.files, fun _ hm => (nomatch hm), h.apart, cache.clear, rfl⟩
  | add name source => exact ⟨rfl, h.edit _⟩
  | remove name => exact ⟨rfl, h.edit _⟩
  | clear => exact ⟨rfl, h.edit _⟩

theorem answers (h : Follows names s s') (rs : List Request)
    (hloaded : ∀ name ∈ s'.loaded rs, names name) : s'.answers rs = s.answers rs := by
  induction rs generalizing s s' with
  | nil => rfl
  | cons r rs ih =>
    simp only [loaded, List.forall_mem_append] at hloaded
    obtain ⟨htext, hafter⟩ := h.perform r hloaded.1
    rw [Session.answers, Session.answers, htext, ih hafter hloaded.2]

end Follows

/-- Over a directory a session gives the same texts and errors with and without a cache, however
large the cache is, if any two names that it loads and that share a key stand for one path; names
whose paths have no backslashes do. -/
theorem answers_eq_uncached_of_apart (d : TemplateDirectory) (files : FileTree) (o : Options)
    (capacity : Nat) (cache : Cache Program) {e e' : Engine}
    (he : Engine.make? (.directory d files) (.ofCapacity capacity) { o with cache := true } = .ok e)
    (he' : Engine.make? (.directory d files) cache { o with cache := false } = .ok e')
    (host : HostFunction → List Value → Value → Except Error Value × Value) (cell : Value)
    (rs : List Request)
    (hapart : ∀ name ∈ ({ engine := e', host, cell } : Session).loaded rs,
      ∀ name' ∈ ({ engine := e', host, cell } : Session).loaded rs, e.key name = e.key name' →
        d.filePath (e.templateName name) = d.filePath (e.templateName name')) :
    ({ engine := e, host, cell } : Session).answers rs =
        ({ engine := e', host, cell } : Session).answers rs ∧
      ∀ name name',
        (∀ path, d.filePath (e.templateName name) = .ok path → '\\' ∉ path.text.toList) →
        (∀ path, d.filePath (e.templateName name') = .ok path → '\\' ∉ path.text.toList) →
        e.key name = e.key name' →
          d.filePath (e.templateName name) = d.filePath (e.templateName name') := by
  obtain ⟨_, hd, rfl⟩ := Engine.make?_eq_ok he
  obtain ⟨_, hd', rfl⟩ := Engine.make?_eq_ok he'
  obtain rfl := Option.some.inj (hd.symm.trans hd')
  refine ⟨(Follows.answers ⟨⟨d, files, rfl⟩, ?_, ?_, cache, rfl⟩ rs fun _ h => h).symm,
    fun _ _ => d.filePath_eq_of_slashText_eq⟩
  · intro entry hm
    simp [Cache.ofCapacity] at hm
  · intro name name' key hname hname' hkey hkey'
    exact d.resolve_congr files (hapart name hname name' hname' (hkey.trans hkey'.symm))

theorem respelled_session_answers_eq :
    let d : TemplateDirectory := { root := ⟨"site"⟩, ext := ".html" }
    let files : FileTree := ⟨.directory [("site", .directory [
      ("page.html", .file "<% include 'part' %>!".toUTF8), ("part.html", .file "a".toUTF8)])], []⟩
    let rs : List Request := [.render "page" .null, .render "page.html" .null, .render "part" .null]
    ∃ e e', Engine.make? (.directory d files) (.ofCapacity 2) {} = .ok e ∧
      Engine.make? (.directory d files) .none { cache := false } = .ok e' ∧
      (∀ name ∈ ({ engine := e' } : Session).loaded rs,
        ∀ name' ∈ ({ engine := e' } : Session).loaded rs, e.key name = e.key name' →
          d.filePath (e.templateName name) = d.filePath (e.templateName name')) ∧
      ({ engine := e } : Session).answers rs = ({ engine := e' } : Session).answers rs := by
  intro d files rs
  have hapart : ∀ name ∈ Session.loaded { engine := ⟨.directory d files, .none, { cache := false },
      .default⟩ } rs, ∀ name' ∈ Session.loaded { engine := ⟨.directory d files, .none,
      { cache := false }, .default⟩ } rs, Engine.key ⟨.directory d files, .ofCapacity 2, {},
      .default⟩ name = Engine.key ⟨.directory d files, .ofCapacity 2, {}, .default⟩ name' →
      d.filePath name = d.filePath name' := by
    decide +kernel
  exact ⟨_, _, rfl, rfl, hapart,
    (answers_eq_uncached_of_apart d files {} 2 .none rfl rfl _ _ rs hapart).1⟩

/-- Two files whose paths differ in a backslash share a key, and the one loaded first is rendered
for both. -/
theorem backslash_shares_key :
    let d : TemplateDirectory := { root := ⟨"."⟩ }
    let files : FileTree := ⟨.directory [("a", .directory [("b", .file "X".toUTF8)]),
      ("a\\b", .file "Y".toUTF8)], []⟩
    let rs : List Request := [.render "a/b" .null, .render "a\\b" .null]
    ∃ e e', Engine.make? (.directory d files) (.ofCapacity 256) {} = .ok e ∧
      Engine.make? (.directory d files) .none { cache := false } = .ok e' ∧
      e.key "a/b" = e.key "a\\b" ∧ d.filePath "a/b" ≠ d.filePath "a\\b" ∧
      ({ engine := e } : Session).answers rs ≠ ({ engine := e' } : Session).answers rs := by
  intro d files rs
  refine ⟨_, _, rfl, rfl, by decide +kernel, by decide +kernel, fun h => ?_⟩
  exact absurd (congrArg (·.map (·.map Except.toOption)) h) (by decide +kernel)

end Session
end TextTemplate
