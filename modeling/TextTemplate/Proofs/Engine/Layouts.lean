import TextTemplate.Proofs.Engine.Loading
import TextTemplate.Proofs.Grammar.Completeness
import TextTemplate.Proofs.Render.Layouts
import TextTemplate.Proofs.Token.Outlines

/-! Rendering a page within its layouts, from the sources of all of them. -/

namespace TextTemplate

open Grammar

theorem compile_of_derives {d : Delimiters} {name source : String} {tree : List SourceStmt}
    (h : Derives .unambiguous (Scanner.ofString d source).lexemes (.stmts tree))
    (hshort : (Scanner.ofString d source).lexemes.length + 2 < maxNesting) :
    compile d name source = .ok (Program.ofTree name tree) := by
  have hread := (read_of_derives (Scanner.lexemes_tokens _).1 h).resolve_right
    fun hdeep => absurd hdeep.1 (Nat.not_le.2 hshort)
  unfold compile readTemplate
  rw [hread]

namespace Layer

variable {g : Rules} {ts : List Lexeme} {ss : List SourceStmt}

def pageOutline (layout text : String) : Outline :=
  ⟨[("", [.keyword .extend, .string layout])], text⟩

def outline (outer? : Option String) (l : Layer) : Outline :=
  ⟨(outer?.map fun outer => ("", [.keyword .extend, .string outer])).toList
    ++ [(l.before, [.keyword .content])], l.after⟩

theorem clear_pageOutline {layout text : String}
    (hlayout : Text.cutAt ['%', '>'] layout.toList = none)
    (htext : Text.cutAt ['<', '%'] text.toList = none) :
    (pageOutline layout text).Clear .default := by
  refine Outline.clear_default ?_ htext
  simp only [pageOutline, List.forall_mem_singleton]
  exact ⟨rfl, .cons trivial rfl (.cons (Text.cutAt_eq_none.1 hlayout) rfl trivial),
    by simp [Lexeme.isText]⟩

theorem clear_outline {outer? : Option String} {l : Layer}
    (houter : ∀ outer ∈ outer?, Text.cutAt ['%', '>'] outer.toList = none)
    (hbefore : Text.cutAt ['<', '%'] l.before.toList = none)
    (hafter : Text.cutAt ['<', '%'] l.after.toList = none) : (l.outline outer?).Clear .default := by
  refine Outline.clear_default (fun p hp => ?_) hafter
  rcases List.mem_append.1 hp with hp | hp
  · simp only [Option.mem_toList, Option.map_eq_some_iff] at hp
    obtain ⟨outer, hmem, rfl⟩ := hp
    exact ⟨rfl, .cons trivial rfl (.cons (Text.cutAt_eq_none.1 (houter outer hmem)) rfl trivial),
      by simp [Lexeme.isText]⟩
  · obtain rfl := List.mem_singleton.1 hp
    exact ⟨hbefore, .cons trivial rfl trivial, by simp [Lexeme.isText]⟩

theorem derives_texts (t : String) :
    Derives g (if t.isEmpty then [] else [.text t]) (.stmts (texts t)) := by
  unfold texts
  split
  · exact .noStmts
  · rename_i ht
    exact .text (fun h => ht (String.isEmpty_iff.2 h)) .noStmts

theorem derives_text (t : String) (h : Derives g ts (.stmts ss)) :
    Derives g (.text t :: ts) (.stmts (texts t ++ ss)) := by
  unfold texts
  split
  · rename_i ht
    obtain rfl := String.isEmpty_iff.1 ht
    exact .emptyText h
  · rename_i ht
    exact .text (fun h => ht (String.isEmpty_iff.2 h)) h

theorem broken_texts (t : String) : Broken (if t.isEmpty then [] else [.text t]) := by
  split <;> trivial

theorem derives_page (layout text : String) :
    Derives g (pageOutline layout text).lexemes (.stmts (.extend layout :: texts text)) :=
  .emptyText (.moreStmts .extend (derives_texts text) fun _ => broken_texts text)

theorem derives_outline (outer? : Option String) (l : Layer) :
    Derives g (l.outline outer?).lexemes (.stmts (l.body outer?)) := by
  have hcontent : Derives g (.keyword .content :: if l.after.isEmpty then [] else [.text l.after])
      (.stmts (.content defaultBlock :: texts l.after)) :=
    .moreStmts (.content (.inr ⟨rfl, rfl⟩)) (derives_texts l.after) fun _ => broken_texts l.after
  have hbefore := derives_text l.before hcontent
  cases outer? with
  | none => exact hbefore
  | some outer =>
    have hextend : Derives g [.keyword .extend, .string outer] (.stmt (.extend outer)) := .extend
    exact (hextend.moreStmts hbefore fun _ => trivial).emptyText

theorem body_ofTree_page (name layout text : String) :
    (Program.ofTree name (.extend layout :: texts text)).body = .extend layout :: texts text := by
  unfold texts
  split <;> rfl

theorem body_ofTree (name : String) (outer? : Option String) (l : Layer) :
    (Program.ofTree name (l.body outer?)).body = l.body outer? := by
  unfold body texts
  cases outer? <;> split <;> split <;> rfl

theorem compile_page {d : Delimiters} (name : String) {layout text : String}
    (h : (pageOutline layout text).Clear d) :
    ∃ p, compile d name ((pageOutline layout text).spell d) = .ok p ∧
      p.body = .extend layout :: texts text := by
  refine ⟨_, compile_of_derives ?_ ?_, body_ofTree_page name layout text⟩
  all_goals rw [Scanner.lexemes_spell h]
  · exact derives_page layout text
  · unfold pageOutline Outline.lexemes
    split <;> simp [maxNesting]

theorem compile_outline {d : Delimiters} (name : String) {outer? : Option String} {l : Layer}
    (h : (l.outline outer?).Clear d) :
    ∃ p, compile d name ((l.outline outer?).spell d) = .ok p ∧ p.body = l.body outer? := by
  refine ⟨_, compile_of_derives ?_ ?_, body_ofTree name outer? l⟩
  all_goals rw [Scanner.lexemes_spell h]
  · exact derives_outline outer? l
  · unfold outline Outline.lexemes
    cases outer? <;> split <;> simp [maxNesting]

theorem Chain.mono {ν ι : Type} {Has Has' : String → List (Stmt ν ι) → Prop} {ls : List Layer}
    (h : Chain Has ls) (himp : ∀ n ∈ ls.map name, ∀ body, Has n body → Has' n body) :
    Chain Has' ls := by
  induction ls with
  | nil => trivial
  | cons l ls ih =>
    rw [List.map_cons, List.forall_mem_cons] at himp
    exact ⟨himp.1 _ h.1, ih h.2 himp.2⟩

end Layer

namespace Engine

def Has (e : Engine) (name : String) (body : List SlotStmt) : Prop :=
  ∃ r p, e.library.resolve (e.templateName name) = .ok r ∧
    e.compile (e.templateName name) r.source = .ok p ∧ p.body = body

variable {names : String → Prop} {e : Engine} {name : String} {body : List SlotStmt}

theorem Current.get_of_has (h : e.Current names) (ha : e.options.cache = true → e.Apart names)
    (hname : names name) (hbody : e.Has name body) :
    ∃ p cache, e.get name = (.ok p, { e with cache }) ∧ p.body = body ∧
      ({ e with cache } : Engine).Current names := by
  obtain ⟨r, p, hr, hp, hbody⟩ := hbody
  obtain ⟨result, cache, hget, halike, hcurrent⟩ := h.get ha hname
  have hload : (e.load name).1 = .ok p := by simp only [Engine.load, hr, hp]
  rw [hload] at halike
  cases halike with
  | ok halike => exact ⟨_, cache, hget, halike.1.trans hbody, hcurrent⟩

end Engine

namespace Session

/-- Whether the engine of a session is another one but for its cache, in which all is current. -/
def KeepsUp (names : String → Prop) (e : Engine) (s : Session) : Prop :=
  ∃ cache, s.engine = { e with cache } ∧ s.engine.Current names

variable {names : String → Prop} {e : Engine}

theorem loads_of_has (ha : e.options.cache = true → e.Apart names) {name : String}
    (hname : names name) {body : List SlotStmt} (hbody : e.Has name body) :
    world.Loads (KeepsUp names e) name body := by
  rintro s ⟨cache, hs, hcurrent⟩
  rw [hs] at hcurrent
  obtain ⟨p, cache', hget, hp, hcurrent'⟩ := hcurrent.get_of_has ha hname hbody
  refine ⟨p, { s with engine := { e with cache := cache' } }, ?_, hp, cache', rfl, hcurrent'⟩
  show ((s.engine.get name).1, ({ s with engine := (s.engine.get name).2 } : Session)) = _
  rw [hs, hget]

/-- In deferred mode a page that is not blank is rendered within the texts of its layouts, those of
its own layout innermost, if the depth limit exceeds the number of layouts; otherwise the limit is
hit. The session need not be a new one, but its cache is current, and names with one key are one
template, as in every store. By any delimiters, a page and layouts whose texts and regions are clear
of them compile to what is asked of them here. -/
theorem render_page_within_layouts (s : Session) {names : String → Prop}
    (hcurrent : s.engine.Current names)
    (hapart : s.engine.options.cache = true → s.engine.Apart names)
    (hmode : s.engine.options.extend = .deferred) {page text : String} {l : Layer} {ls : List Layer}
    (hnames : ∀ name ∈ page :: (l :: ls).map Layer.name, names name)
    (hpage : s.engine.Has page (.extend l.name :: Layer.texts text))
    (hchain : Layer.Chain s.engine.Has (l :: ls)) (htext : Text.isBlankText text = false)
    (data : Value) :
    ((l :: ls).length + 1 ≤ s.engine.options.maxDepth → (s.render page data).1 =
        .ok (String.join ((l :: ls).reverse.map Layer.before) ++ text ++
          String.join ((l :: ls).map Layer.after))) ∧
      (1 ≤ s.engine.options.maxDepth → s.engine.options.maxDepth ≤ (l :: ls).length →
        (s.render page data).1 = .error (.recursionLimit defaultBlock s.engine.options.maxDepth)) ∧
      (∀ d name layout text, (Layer.pageOutline layout text).Clear d →
        ∃ p, compile d name ((Layer.pageOutline layout text).spell d) = .ok p ∧
          p.body = .extend layout :: Layer.texts text) ∧
      ∀ d name (l : Layer) outer?, (l.outline outer?).Clear d →
        ∃ p, compile d name ((l.outline outer?).spell d) = .ok p ∧ p.body = l.body outer? := by
  rw [List.forall_mem_cons] at hnames
  -- the page may be cached already, and its layouts too when their turn comes
  obtain ⟨p, cache, hget, hbody, hcurrent'⟩ :=
    hcurrent.get_of_has hapart hnames.1 hpage
  have hloads : Layer.Chain (world.Loads (KeepsUp names s.engine)) (l :: ls) :=
    Layer.Chain.mono hchain fun name hname _ => loads_of_has hapart (hnames.2 name hname)
  let s' : Session := { s with engine := { s.engine with cache } }
  have hrender : s.render page data = s'.run p data := by
    unfold render
    rw [hget]
  have hstart (hdepth : 1 ≤ s.engine.options.maxDepth) := Context.execute_chain hloads hbody htext
    data (c := s'.start s.engine.options .null) hmode ⟨cache, rfl, hcurrent'⟩ hdepth
  refine ⟨fun hdepth => ?_, fun hdepth hlimit => ?_, fun _ name _ _ => Layer.compile_page name,
    fun _ name _ _ => Layer.compile_outline name⟩
  · obtain ⟨c', hc', houtput⟩ := (hstart (Nat.le_of_add_left_le hdepth)).1 (by
      show 0 + (l :: ls).length < s.engine.options.maxDepth
      omega)
    have hempty : (s'.start s.engine.options .null).output = "" := rfl
    rw [hempty, String.empty_append, Layer.wrap_eq] at houtput
    rw [hrender, ← houtput]
    simp only [run, s', hc', Except.map]
  · have herror := (hstart hdepth).2 (by
      show s.engine.options.maxDepth ≤ 0 + (l :: ls).length
      omega)
    rw [hrender, run]
    generalize (s'.start s'.engine.options .null).execute world p data = r at herror
    obtain ⟨_, c'⟩ := r
    obtain rfl : _ = _ := herror
    rfl

theorem render_note_within_two_layouts :
    let t : TemplateStore := ⟨[("/note", "<% extend \"box\" %>Hi!"),
      ("/box", "<% extend \"site\" %>[<% content %>]"), ("/site", "<p><% content %>")]⟩
    let s (maxDepth : Nat) : Session :=
      { engine := ⟨.store t, .ofCapacity 4, { maxDepth, extend := .deferred }, .default⟩ }
    ((s 3).render "note" .null).1 = .ok "<p>[Hi!]" ∧
      ((s 2).render "note" .null).1 = .error (.recursionLimit defaultBlock 2) := by
  intro t s
  have hnote : t.resolve (TemplateDirectory.withExtension "" "note") =
      .ok ⟨"/note", "<% extend \"box\" %>Hi!"⟩ := by decide +kernel
  have hbox : t.resolve (TemplateDirectory.withExtension "" "box") =
      .ok ⟨"/box", "<% extend \"site\" %>[<% content %>]"⟩ := by decide +kernel
  have hsite : t.resolve (TemplateDirectory.withExtension "" "site") =
      .ok ⟨"/site", "<p><% content %>"⟩ := by decide +kernel
  have hcurrent (maxDepth : Nat) : (s maxDepth).engine.Current fun _ => True :=
    fun _ hm => nomatch hm
  have hpage (maxDepth : Nat) :
      (s maxDepth).engine.Has "note" (.extend "box" :: Layer.texts "Hi!") := by
    have hclear : (Layer.pageOutline "box" "Hi!").Clear .default :=
      Layer.clear_pageOutline (by decide +kernel) (by decide +kernel)
    obtain ⟨p, hp, hbody⟩ := Layer.compile_page "note" hclear
    exact ⟨_, p, hnote, hp, hbody⟩
  have hlayer (maxDepth : Nat) (l : Layer) (outer? : Option String) (r : Resource)
      (hr : t.resolve (TemplateDirectory.withExtension "" l.name) = .ok r)
      (hsource : r.source = (l.outline outer?).spell .default)
      (hclear : (l.outline outer?).Clear .default) :
      (s maxDepth).engine.Has l.name (l.body outer?) := by
    obtain ⟨p, hp, hbody⟩ := Layer.compile_outline l.name hclear
    exact ⟨r, p, hr, hsource ▸ hp, hbody⟩
  have hchain (maxDepth : Nat) : Layer.Chain (s maxDepth).engine.Has
      [⟨"box", "[", "]"⟩, ⟨"site", "<p>", ""⟩] :=
    ⟨hlayer _ _ _ _ hbox (by decide +kernel) (Layer.clear_outline (by decide +kernel)
      (by decide +kernel) (by decide +kernel)), hlayer _ _ _ _ hsite (by decide +kernel)
      (Layer.clear_outline (by decide +kernel) (by decide +kernel) (by decide +kernel)), trivial⟩
  have hwrapped (maxDepth : Nat) := render_page_within_layouts (s maxDepth) (hcurrent maxDepth)
    (fun _ => Engine.apart_of_store rfl) rfl (fun _ _ => trivial) (hpage maxDepth) (hchain maxDepth)
    (by decide +kernel) .null
  exact ⟨(hwrapped 3).1 (by decide), (hwrapped 2).2.1 (by decide) (by decide)⟩

end Session
end TextTemplate
