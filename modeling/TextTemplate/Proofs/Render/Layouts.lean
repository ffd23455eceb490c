import TextTemplate.Render.Evaluate

/-! Chains of layouts. In deferred mode a template is rendered within the layout that it extends,
this one within its own, and so on: each puts its texts around what the ones before it printed, and
runs one level deeper. -/

namespace TextTemplate

structure Layer where
  name : String
  before : String
  after : String

namespace Layer

variable {ν ι : Type}

def texts (t : String) : List (Stmt ν ι) :=
  if t.isEmpty then [] else [.text t]

def body (outer? : Option String) (l : Layer) : List (Stmt ν ι) :=
  (outer?.map .extend).toList ++ texts l.before ++ .content defaultBlock :: texts l.after

/-- A text with the texts of layers around it, those of the first layer innermost. -/
def wrap : List Layer → String → String
  | [], t => t
  | l :: ls, t => wrap ls (l.before ++ t ++ l.after)

theorem wrap_eq (ls : List Layer) (t : String) :
    wrap ls t = String.join (ls.reverse.map before) ++ t ++ String.join (ls.map after) := by
  induction ls generalizing t with
  | nil => simp [wrap, String.join]
  | cons l ls ih =>
    rw [wrap, ih]
    simp [String.append_assoc]

def Chain (Has : String → List (Stmt ν ι) → Prop) : List Layer → Prop
  | [] => True
  | l :: ls => Has l.name (l.body (ls.head?.map name)) ∧ Chain Has ls

end Layer
def World.Loads {σ : Type} (world : World σ) (V : σ → Prop) (name : String)
    (body : List SlotStmt) : Prop :=
  ∀ w, V w → ∃ p w', world.load name w = (.ok p, w') ∧ p.body = body ∧ V w'

theorem Text.isBlankText_around {before content after : String} (h : isBlankText content = false) :
    isBlankText (before ++ content ++ after) = false := by
  unfold isBlankText at h ⊢
  simp [h]

theorem Context.block_define {σ : Type} (c : Context σ) (name : String) (b : Block) :
    (c.define name b).block name = b := by
  simp [block, define, Entries.find?_insert]

def Context.entered {σ : Type} (c : Context σ) (slots : Nat) : Context σ :=
  { (c.newFrame slots).2 with running := c.frames.size :: c.running }

namespace Run

variable {σ : Type} (world : World σ) {deep : Deep (Run σ)} {frame : Nat} {ss : List SlotStmt}
  {c : Context σ}

theorem execAll_extend (h : c.extendMode = .deferred) (layout : String) :
    execAll world deep frame .null (.extend layout :: ss) c =
      execAll world deep frame .null ss { c with pendingLayout := some layout } := by
  simp only [execAll, exec, extend, bind_apply, get_apply, h, update_apply, pure_apply]

theorem execAll_texts (t : String) :
    execAll world deep frame .null (Layer.texts t ++ ss) c =
      execAll world deep frame .null ss (c.append t) := by
  unfold Layer.texts
  split
  · rename_i ht
    obtain rfl := String.isEmpty_iff.1 ht
    simp [Context.append]
  · simp only [List.singleton_append, execAll, exec, bind_apply, update_apply, pure_apply]

theorem callBlock_text {name content : String} (h : c.block name = .text content) :
    callBlock deep name c =
      if c.maxDepth ≤ c.depth then (.error (.error (.recursionLimit name c.maxDepth)), c)
      else (.ok (), c.append content) := by
  simp only [callBlock, bind_apply, get_apply, h, inside_apply, update_apply]
  split <;> rfl

theorem execAll_content {name content : String} (h : c.block name = .text content)
    (hd : c.depth < c.maxDepth) :
    execAll world deep frame .null (.content name :: ss) c =
      execAll world deep frame .null ss (c.append content) := by
  simp only [execAll, exec, bind_apply, callBlock_text h, if_neg (Nat.not_le.2 hd), pure_apply]

theorem execAll_content_limit {name content : String} (h : c.block name = .text content)
    (hd : c.maxDepth ≤ c.depth) :
    execAll world deep frame .null (.content name :: ss) c =
      (.error (.error (.recursionLimit name c.maxDepth)), c) := by
  simp only [execAll, exec, bind_apply, callBlock_text h, if_pos hd]

theorem execAll_start (l : Layer) {outer? : Option String} (hmode : c.extendMode = .deferred)
    (hlayout : c.pendingLayout = none) :
    execAll world deep frame .null (l.body outer?) c =
      execAll world deep frame .null (.content defaultBlock :: Layer.texts l.after)
        ({ c with pendingLayout := outer? }.append l.before) := by
  unfold Layer.body
  cases outer? with
  | none =>
    have hc : { c with pendingLayout := none } = c := by rw [← hlayout]
    rw [hc]
    exact execAll_texts world l.before
  | some layout =>
    rw [List.append_assoc]
    exact (execAll_extend world hmode layout).trans (execAll_texts world l.before)

theorem execAll_body (l : Layer) {outer? : Option String} {content : String}
    (hmode : c.extendMode = .deferred) (hlayout : c.pendingLayout = none)
    (hblock : c.block defaultBlock = .text content) (hd : c.depth < c.maxDepth) :
    execAll world deep frame .null (l.body outer?) c = (.ok .null, { c with
      output := c.output ++ (l.before ++ content ++ l.after), pendingLayout := outer? }) := by
  let c₁ := { c with pendingLayout := outer? }.append l.before
  have hcontent : execAll world deep frame .null
      (.content defaultBlock :: Layer.texts l.after) c₁ =
        execAll world deep frame .null (Layer.texts l.after) (c₁.append content) :=
    execAll_content world hblock hd
  rw [execAll_start world l hmode hlayout, hcontent, ← List.append_nil (Layer.texts l.after),
    execAll_texts]
  simp [c₁, execAll, pure_apply, Context.append, String.append_assoc]

theorem execAll_body_limit (l : Layer) {outer? : Option String} {content : String}
    (hmode : c.extendMode = .deferred) (hlayout : c.pendingLayout = none)
    (hblock : c.block defaultBlock = .text content) (hd : c.maxDepth ≤ c.depth) :
    (execAll world deep frame .null (l.body outer?) c).1 =
      .error (.error (.recursionLimit defaultBlock c.maxDepth)) := by
  let c₁ := { c with pendingLayout := outer? }.append l.before
  have hcontent : execAll world deep frame .null
      (.content defaultBlock :: Layer.texts l.after) c₁ =
        (.error (.error (.recursionLimit defaultBlock c.maxDepth)), c₁) :=
    execAll_content_limit world hblock hd
  rw [execAll_start world l hmode hlayout, hcontent]

theorem runProgram_apply (p : Program) (c : Context σ) :
    runProgram world deep p c =
      let r := execAll world deep c.frames.size .null p.body (c.entered p.slots.length)
      (r.1.map fun _ => (), { r.2 with running := c.running }) := by
  simp only [runProgram, runBody, holding_apply, forEffect, bind_apply, get_apply, update_apply,
    Context.newFrame, Context.entered, Context.hold, Context.release]
  generalize execAll world deep c.frames.size .null p.body _ = r
  obtain ⟨_ | _, _⟩ := r <;> rfl

variable (deep) in
theorem captured_runProgram {p : Program} {l : Layer} {outer? : Option String} {content : String}
    (hbody : p.body = l.body outer?) (hmode : c.extendMode = .deferred)
    (hblock : c.block defaultBlock = .text content) (hd : c.depth < c.maxDepth) :
    captured (runProgram world deep p) c =
      (.ok ⟨l.before ++ content ++ l.after, outer?⟩, (c.newFrame p.slots.length).2) := by
  have hrun : execAll world deep c.aside.frames.size .null (l.body outer?)
      (c.aside.entered p.slots.length) = (.ok .null, { c.aside.entered p.slots.length with
        output := "" ++ (l.before ++ content ++ l.after), pendingLayout := outer? }) :=
    execAll_body world l hmode rfl hblock hd
  rw [captured_apply, runProgram_apply, hbody, hrun, String.empty_append]
  rfl

variable (deep) in
theorem captured_runProgram_limit {p : Program} {l : Layer} {outer? : Option String}
    {content : String} (hbody : p.body = l.body outer?) (hmode : c.extendMode = .deferred)
    (hblock : c.block defaultBlock = .text content) (hd : c.maxDepth ≤ c.depth) :
    (captured (runProgram world deep p) c).1 =
      .error (.error (.recursionLimit defaultBlock c.maxDepth)) := by
  have hrun : (execAll world deep c.aside.frames.size .null (l.body outer?)
      (c.aside.entered p.slots.length)).1 =
        .error (.error (.recursionLimit defaultBlock c.maxDepth)) :=
    execAll_body_limit world l hmode rfl hblock hd
  rw [captured_apply, runProgram_apply, hbody]
  generalize execAll world deep c.aside.frames.size .null (l.body outer?)
    (c.aside.entered p.slots.length) = r at hrun ⊢
  obtain ⟨_, c'⟩ := r
  obtain rfl : _ = _ := hrun
  rfl

theorem includeTemplate_apply {name : String} {p : Program} {w : σ}
    (h : world.load name c.world = (.ok p, w)) (hd : c.depth < c.maxDepth) :
    includeTemplate world deep name .null c =
      let r := deep.program p { c with world := w, depth := c.depth + 1 }
      (r.1, { r.2 with depth := r.2.depth - 1 }) := by
  simp only [includeTemplate, bind_apply, withWorld_apply, h, inside_apply]
  exact if_neg (Nat.not_le.2 hd)

theorem renderProgram_layout {p : Program} {text layout : String} {c' : Context σ}
    (h : captured (runProgram world deep p) c = (.ok ⟨text, some layout⟩, c'))
    (htext : Text.isBlankText text = false) :
    renderProgram world deep p c =
      includeTemplate world deep layout .null (c'.define defaultBlock (.text text)) := by
  simp only [renderProgram, bind_apply, h, update_apply, htext, Bool.false_and, Bool.false_eq_true,
    if_false]

theorem renderProgram_alone {p : Program} {text : String} {c' : Context σ}
    (h : captured (runProgram world deep p) c = (.ok ⟨text, none⟩, c')) :
    renderProgram world deep p c = (.ok (), c'.append text) := by
  simp only [renderProgram, bind_apply, h, update_apply]

theorem renderProgram_limit {p : Program} {l : Layer} {outer? : Option String} {content : String}
    (hbody : p.body = l.body outer?) (hmode : c.extendMode = .deferred)
    (hblock : c.block defaultBlock = .text content) (hd : c.maxDepth ≤ c.depth) :
    (renderProgram world deep p c).1 =
      .error (.error (.recursionLimit defaultBlock c.maxDepth)) := by
  have h := captured_runProgram_limit world deep hbody hmode hblock hd
  simp only [renderProgram, bind_apply]
  generalize captured (runProgram world deep p) c = r at h ⊢
  obtain ⟨_, c'⟩ := r
  obtain rfl : _ = _ := h
  rfl

variable {world} {V : σ → Prop}

/-- Whether a run with `n` levels left prints the texts of some layers around the default block, or
is stopped at the limit if there are more layers than that. -/
def Wraps (n : Nat) (layers : List Layer) (content : String) (r : Run σ Unit) (c : Context σ) :
    Prop :=
  (layers.length ≤ n → ∃ c', r c = (.ok (), c') ∧
      c'.output = c.output ++ Layer.wrap layers content) ∧
    (n < layers.length → (r c).1 = .error (.error (.recursionLimit defaultBlock c.maxDepth)))

theorem wraps_of_layout (layers : List Layer) {n : Nat} {p : Program} {body : List SlotStmt}
    {text layout : String}
    (h : captured (runProgram world (levels world (n + 1)) p : Run σ Unit) c =
      (.ok ⟨text, some layout⟩, (c.newFrame p.slots.length).2))
    (htext : Text.isBlankText text = false) (hload : world.Loads V layout body)
    (hmode : c.extendMode = .deferred) (hworld : V c.world)
    (hdepth : c.maxDepth = c.depth + (n + 1))
    (hlayout : ∀ (p : Program) (c : Context σ), p.body = body → c.extendMode = .deferred →
      c.block defaultBlock = .text text → V c.world → c.maxDepth = c.depth + n →
        Wraps n layers text (renderProgram world (levels world n) p) c) :
    Wraps n layers text (renderProgram world (levels world (n + 1)) p) c := by
  obtain ⟨p', w, hp', hbody, hw⟩ := hload c.world hworld
  let c₁ := (c.newFrame p.slots.length).2.define defaultBlock (.text text)
  let c₂ := { c₁ with world := w, depth := c.depth + 1 }
  have hinclude : (includeTemplate world (levels world (n + 1)) layout .null : Run σ Unit) c₁ =
      let r := (renderProgram world (levels world n) p' : Run σ Unit) c₂
      (r.1, { r.2 with depth := r.2.depth - 1 }) :=
    includeTemplate_apply world hp' (by show c.depth < c.maxDepth; omega)
  have hdepth₂ : c₂.maxDepth = c₂.depth + n := by
    show c.maxDepth = c.depth + 1 + n
    omega
  obtain ⟨hok, hlimit⟩ := hlayout p' c₂ hbody hmode (Context.block_define _ _ _) hw hdepth₂
  unfold Wraps
  rw [renderProgram_layout world h htext, hinclude]
  refine ⟨fun hle => ?_, hlimit⟩
  obtain ⟨c', hc', houtput⟩ := hok hle
  exact ⟨{ c' with depth := c'.depth - 1 }, by rw [hc'], houtput⟩

theorem wraps_chain {l : Layer} {ls : List Layer} (hchain : Layer.Chain (world.Loads V) ls)
    {n : Nat} {p : Program} {c : Context σ} {content : String}
    (hcontent : Text.isBlankText content = false)
    (hbody : p.body = l.body (ls.head?.map Layer.name)) (hmode : c.extendMode = .deferred)
    (hblock : c.block defaultBlock = .text content) (hworld : V c.world)
    (hdepth : c.maxDepth = c.depth + n) :
    Wraps n (l :: ls) content (renderProgram world (levels world n) p) c := by
  -- what a layer comes to is the content of the next one, which has one level less
  induction ls generalizing l n p c content with
  | nil =>
    cases n with
    | zero => exact ⟨nofun, fun _ => renderProgram_limit world hbody hmode hblock (by omega)⟩
    | succ n =>
      have hlayer := captured_runProgram world (levels world (n + 1)) hbody hmode hblock
        (by omega)
      exact ⟨fun _ => ⟨_, renderProgram_alone world hlayer, rfl⟩, fun hlt => by simp at hlt⟩
  | cons l' ls ih =>
    cases n with
    | zero => exact ⟨nofun, fun _ => renderProgram_limit world hbody hmode hblock (by omega)⟩
    | succ n =>
      have hlayer := captured_runProgram world (levels world (n + 1)) hbody hmode hblock
        (by omega)
      have htext : Text.isBlankText (l.before ++ content ++ l.after) = false :=
        Text.isBlankText_around hcontent
      obtain ⟨hok, hlimit⟩ := wraps_of_layout (l' :: ls) hlayer htext hchain.1 hmode
        hworld hdepth fun p c => ih hchain.2 htext
      exact ⟨fun hle => hok (Nat.le_of_succ_le_succ hle),
        fun hlt => hlimit (Nat.lt_of_succ_lt_succ hlt)⟩

theorem captured_page {p : Program} {layout text : String}
    (hbody : p.body = .extend layout :: Layer.texts text) (hmode : c.extendMode = .deferred) :
    captured (runProgram world deep p) c =
      (.ok ⟨text, some layout⟩, (c.newFrame p.slots.length).2) := by
  let c₁ := { c.aside.entered p.slots.length with pendingLayout := some layout }
  have hstart : execAll world deep c.aside.frames.size .null (.extend layout :: Layer.texts text)
      (c.aside.entered p.slots.length) =
        execAll world deep c.aside.frames.size .null (Layer.texts text) c₁ :=
    execAll_extend (c := c.aside.entered p.slots.length) world hmode layout
  have htexts : execAll world deep c.aside.frames.size .null (Layer.texts text) c₁ =
      (.ok .null, c₁.append text) := by
    rw [← List.append_nil (Layer.texts text), execAll_texts]
    simp only [execAll, pure_apply]
  have hprinted : (c₁.append text).output = text := String.empty_append
  rw [captured_apply, runProgram_apply, hbody, hstart, htexts]
  show (Except.ok (⟨(c₁.append text).output, some layout⟩ : Rendered), _) = _
  rw [hprinted]
  rfl

end Run

namespace Context

variable {σ : Type} {world : World σ} {V : σ → Prop}

theorem execute_chain {l : Layer} {ls : List Layer}
    (hchain : Layer.Chain (world.Loads V) (l :: ls)) {p : Program} {text : String}
    (hbody : p.body = .extend l.name :: Layer.texts text)
    (htext : Text.isBlankText text = false) (self : Value) {c : Context σ}
    (hmode : c.extendMode = .deferred) (hworld : V c.world) (hdepth : c.depth < c.maxDepth) :
    (c.depth + (l :: ls).length < c.maxDepth → ∃ c', c.execute world p self = (.ok (), c') ∧
        c'.output = c.output ++ Layer.wrap (l :: ls) text) ∧
      (c.maxDepth ≤ c.depth + (l :: ls).length →
        (c.execute world p self).1 = .error (.recursionLimit defaultBlock c.maxDepth)) := by
  obtain ⟨n, hn⟩ := Nat.exists_eq_add_of_lt hdepth
  have hlevels : c.maxDepth - c.depth = n + 1 := by omega
  obtain ⟨hok, hlimit⟩ := Run.wraps_of_layout (c := { c with self }) (n := n) (l :: ls)
    (Run.captured_page hbody hmode) htext hchain.1 hmode hworld hn
    fun p c => Run.wraps_chain hchain.2 htext
  unfold execute outcome
  rw [Run.leveled_apply, hlevels, Run.withSelf, Run.between_apply]
  constructor
  · intro hlt
    obtain ⟨c', hc', houtput⟩ := hok (by omega)
    rw [hc']
    exact ⟨_, rfl, houtput⟩
  · intro hle
    have herror := hlimit (by omega)
    generalize (Run.renderProgram world (Run.levels world (n + 1)) p : Run σ Unit) { c with self } =
      r at herror
    obtain ⟨_, c'⟩ := r
    obtain rfl : _ = _ := herror
    rfl

end Context
end TextTemplate
