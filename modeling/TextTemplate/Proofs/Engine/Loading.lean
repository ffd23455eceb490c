import TextTemplate.Proofs.Engine.Caching

/-! Loading templates from any library. Among names that are told apart by their keys, each cached
program stays what its template compiles to, and so an engine gets the programs that it would get
without its cache. -/

namespace TextTemplate

namespace Library

variable {l : Library} {name : String}

theorem resolvedPath_of_resolve {r : Resource} (h : l.resolve name = .ok r) :
    l.resolvedPath name = .ok r.path := by
  cases l with
  | store t =>
    simp only [resolve, TemplateStore.resolve] at h
    split at h
    · obtain rfl := Except.ok.inj h
      rfl
    · cases h
  | directory d files =>
    simp only [resolve, TemplateDirectory.resolve] at h
    cases hpath : d.filePath name with
    | error err => simp [hpath, bind, Except.bind] at h
    | ok path =>
      simp only [hpath, bind, Except.bind] at h
      simp only [resolvedPath, hpath, Except.map]
      grind

theorem resolve_of_resolvedPath {err : Error} (h : l.resolvedPath name = .error err) :
    l.resolve name = .error err := by
  cases l with
  | store t => cases h
  | directory d files =>
    cases hpath : d.filePath name with
    | error err' =>
      simp only [resolvedPath, hpath, Except.map, Except.error.injEq] at h
      simp [resolve, TemplateDirectory.resolve, hpath, bind, Except.bind, h]
    | ok path => simp [resolvedPath, hpath, Except.map] at h

end Library

namespace Engine

/-- Whether each cached program is what one of the templates with these names compiles to. -/
def Current (names : String → Prop) (e : Engine) : Prop :=
  ∀ entry ∈ e.cache.entries, ∃ name resource name', names name ∧ e.key name = .ok entry.1 ∧
    e.library.resolve (e.templateName name) = .ok resource ∧
    e.compile name' resource.source = .ok entry.2

/-- Whether names with one key stand for one template. -/
def Apart (names : String → Prop) (e : Engine) : Prop :=
  ∀ name name' key, names name → names name' → e.key name = .ok key → e.key name' = .ok key →
    e.library.resolve (e.templateName name) = e.library.resolve (e.templateName name')

variable {names : String → Prop} {e : Engine} {name : String}

theorem apart_of_store {t : TemplateStore} (h : e.library = .store t) : e.Apart names := by
  intro name name' key _ _ hkey hkey'
  simp only [Engine.key, h, Library.resolvedPath, Except.ok.injEq] at hkey hkey'
  simp only [h, Library.resolve, TemplateStore.resolve, hkey, hkey']

theorem Current.load (h : e.Current names) (hname : names name) :
    ∃ cache, e.load name = ((e.load name).1, { e with cache }) ∧
      ({ e with cache } : Engine).Current names := by
  unfold Engine.load
  dsimp only
  split
  · exact ⟨e.cache, rfl, h⟩
  rename_i resource hresource
  split
  · exact ⟨e.cache, rfl, h⟩
  rename_i p hp
  split
  · refine ⟨_, rfl, fun entry hm => ?_⟩
    rcases Cache.mem_insert hm with rfl | hm
    · exact ⟨name, resource, _, hname, Library.resolvedPath_of_resolve hresource, hresource, hp⟩
    · exact h entry hm
  · exact ⟨e.cache, rfl, h⟩

theorem Current.get (h : e.Current names) (ha : e.options.cache = true → e.Apart names)
    (hname : names name) :
    ∃ r cache, e.get name = (r, { e with cache }) ∧ AlikeResults r (e.load name).1 ∧
      ({ e with cache } : Engine).Current names := by
  obtain ⟨cache, hload, hcurrent⟩ := h.load hname
  unfold Engine.get
  split
  · rename_i hcache
    split
    · rename_i err hkey
      have hresolve : e.library.resolve (e.templateName name) = .error err :=
        Library.resolve_of_resolvedPath hkey
      have herr : (e.load name).1 = .error err := by simp only [Engine.load, hresolve]
      exact ⟨_, e.cache, rfl, by rw [herr]; exact .error err, h⟩
    · rename_i key hkey
      split
      · rename_i p hp
        refine ⟨_, _, rfl, ?_, fun entry hm => h entry (Cache.mem_touch hm)⟩
        obtain ⟨name', resource, name'', hname', hkey', hresource, hp'⟩ :=
          h _ (Cache.mem_of_find? hp)
        -- it may have been compiled under another spelling of its name
        obtain ⟨q, hq, halike⟩ := compile_alike hp' (e.templateName name)
        have hsame := (ha hcache name name' key hname hname' hkey hkey').trans hresource
        have hloaded : (e.load name).1 = .ok q := by
          simp only [Engine.load, hsame]
          rw [show e.compile (e.templateName name) resource.source = .ok q from hq]
        rw [hloaded]
        exact .ok halike
      · exact ⟨_, cache, hload, .refl _, hcurrent⟩
  · exact ⟨_, cache, hload, .refl _, hcurrent⟩

end Engine
end TextTemplate
