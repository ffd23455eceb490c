import TextTemplate.Proofs.Engine.Layouts
import TextTemplate.Proofs.Grammar.Concatenation
import TextTemplate.Proofs.Token.Written

/-! Templates of texts and strings alone. Such a template is rendered to what it says, with the
strings that are not printed as they stand escaped, whatever there is around it and however long
it is. -/

namespace TextTemplate

open Grammar

structure Printed where
  text : String
  escape : Bool
  content : String

namespace Printed

variable {ν ι : Type}

def quoted (p : Printed) : List Char :=
  (Written.string .double p.content).characters

def source (p : Printed) : String :=
  p.text ++ (if p.escape then "<%= " else "<%- ") ++ String.ofList p.quoted ++ " %>"

def output (p : Printed) : String :=
  p.text ++ if p.escape then Text.escapeHtml p.content else p.content

def stmts (p : Printed) : List (Stmt ν ι) :=
  Layer.texts p.text ++ [.output p.escape (.literal (.string p.content))]

/-- The text does not have the opening delimiter in it, nor the string the closing one. -/
structure Clear (p : Printed) : Prop where
  text : ¬ ['<', '%'] <:+: p.text.toList
  quoted : ¬ ['%', '>'] <:+: p.quoted

def region (p : Printed) : List Char :=
  (if p.escape then '=' else '-') :: ' ' :: (p.quoted ++ [' '])

variable {p : Printed} {ps : List Printed} {last : String}

theorem splits_source (h : p.Clear) :
    Splits .default p.source.toList ⟨[(p.text.toList, p.region)], []⟩ := by
  have hsource : p.source.toList = p.text.toList ++ '<' :: '%' :: (p.region ++ ['%', '>']) := by
    cases hescape : p.escape <;> simp [source, region, hescape]
  have hregion : Text.Apart '%' '>' p.region := by
    refine .cons (.cons (.append (Written.apart_of_not_infix h.quoted) (.singleton _) (by simp))
      (by decide)) ?_
    cases p.escape <;> decide
  rw [hsource]
  exact .part (g := ⟨[], []⟩)
    (Text.cutAt_append (by decide) (Written.apart_of_not_infix h.text) _)
    (Text.cutAt_append (by decide) hregion []) (.last rfl)

theorem ofRegion_region (p : Printed) :
    Lexeme.ofRegion p.region = [outputMark p.escape, .string p.content] := by
  have hscript : Lexeme.inScript (' ' :: (p.quoted ++ [' '])) = [.string p.content] := by
    rw [Written.inScript_blank_cons]
    unfold quoted
    rw [Written.inScript_characters, Lexeme.inScript_nil rfl]
    rfl
  unfold region outputMark
  cases p.escape
  · exact congrArg _ hscript
  · exact congrArg _ hscript

theorem readTemplate_source (h : p.Clear) : readTemplate .default p.source = .ok p.stmts := by
  have htokens := (splits_source h).tokens .start
  have hlexemes : Segments.lexemes ⟨[(p.text.toList, p.region)], []⟩ =
      [.text p.text, outputMark p.escape, .string p.content] := by
    simp [Segments.lexemes, Segments.front, Lexeme.texts, ofRegion_region]
  rw [hlexemes] at htokens
  have houtput : Derives .unambiguous [outputMark p.escape, .string p.content]
      (.stmt (.output p.escape (.literal (.string p.content)))) :=
    .output (.loosen (.constant rfl) (by decide))
  have hderives := Layer.derives_text p.text (.moreStmts houtput .noStmts fun _ => trivial)
  exact (read_of_derives htokens hderives).resolve_right fun hdeep =>
    absurd hdeep.1 (by simp [maxNesting])

theorem splits_last (h : ¬ ['<', '%'] <:+: last.toList) :
    Splits .default last.toList ⟨[], last.toList⟩ :=
  .last (Text.cutAt_eq_none.2 (Written.apart_of_not_infix h))

theorem readTemplate_last (h : ¬ ['<', '%'] <:+: last.toList) :
    readTemplate .default last = .ok (Layer.texts last) := by
  have htokens := (splits_last h).tokens .start
  have hlexemes : Segments.lexemes ⟨[], last.toList⟩ =
      if last.isEmpty then [] else [.text last] := by
    simp [Segments.lexemes, Segments.front, Lexeme.texts]
  rw [hlexemes] at htokens
  refine (read_of_derives htokens (Layer.derives_texts last)).resolve_right fun hdeep => ?_
  have hle := hdeep.1
  split at hle <;> simp [maxNesting] at hle

def sources (ps : List Printed) (last : String) : String :=
  String.join (ps.map source) ++ last

def outputs (ps : List Printed) (last : String) : String :=
  String.join (ps.map output) ++ last

def body (ps : List Printed) (last : String) : List (Stmt ν ι) :=
  ps.flatMap stmts ++ Layer.texts last

@[simp] theorem sources_nil (last : String) : sources [] last = last := by
  simp [sources, String.join]

@[simp] theorem sources_cons (p : Printed) (ps : List Printed) (last : String) :
    sources (p :: ps) last = p.source ++ sources ps last := by
  simp [sources, String.append_assoc]

@[simp] theorem outputs_nil (last : String) : outputs [] last = last := by
  simp [outputs, String.join]

@[simp] theorem outputs_cons (p : Printed) (ps : List Printed) (last : String) :
    outputs (p :: ps) last = p.output ++ outputs ps last := by
  simp [outputs, String.append_assoc]

@[simp] theorem body_nil (last : String) : (body [] last : List (Stmt ν ι)) = Layer.texts last :=
  rfl

@[simp] theorem body_cons (p : Printed) (ps : List Printed) (last : String) :
    (body (p :: ps) last : List (Stmt ν ι)) = p.stmts ++ body ps last := by
  simp [body]

theorem exists_splits_sources (h : ∀ p ∈ ps, p.Clear) (hlast : ¬ ['<', '%'] <:+: last.toList) :
    ∃ g, Splits .default (sources ps last).toList g := by
  induction ps with
  | nil => exact ⟨_, sources_nil last ▸ splits_last hlast⟩
  | cons p ps ih =>
    obtain ⟨hp, hps⟩ := List.forall_mem_cons.1 h
    obtain ⟨g, hg⟩ := ih hps
    rw [sources_cons, String.toList_append]
    exact ⟨_, (splits_source hp).append hg Text.not_straddles_nil⟩

theorem readTemplate_sources (h : ∀ p ∈ ps, p.Clear) (hlast : ¬ ['<', '%'] <:+: last.toList) :
    readTemplate .default (sources ps last) = .ok (body ps last) := by
  induction ps with
  | nil =>
    rw [sources_nil, body_nil]
    exact readTemplate_last hlast
  | cons p ps ih =>
    obtain ⟨hp, hps⟩ := List.forall_mem_cons.1 h
    obtain ⟨g, hg⟩ := exists_splits_sources hps hlast
    rw [sources_cons, body_cons]
    exact readTemplate_append_region (readTemplate_source hp) (ih hps) (splits_source hp) hg rfl

theorem traverseList_body (ps : List Printed) (last : String) (s : Slots) :
    Stmt.traverseList Slots.slot Slots.nextLambda (body ps last) s = (body ps last, s) := by
  induction ps with
  | nil => exact Slots.traverseList_texts last s
  | cons p ps ih =>
    have hstmts : Stmt.traverseList Slots.slot Slots.nextLambda p.stmts s = (p.stmts, s) := by
      rw [stmts, Slots.traverseList_append, Slots.traverseList_texts]
      rfl
    rw [body_cons, Slots.traverseList_append, hstmts, ih, body_cons]

theorem compile_sources (name : String) (h : ∀ p ∈ ps, p.Clear)
    (hlast : ¬ ['<', '%'] <:+: last.toList) :
    compile .default name (sources ps last) = .ok ⟨name, body ps last, []⟩ := by
  have htree : Program.ofTree name (body ps last) = ⟨name, body ps last, []⟩ := by
    unfold Program.ofTree
    rw [traverseList_body]
    rfl
  unfold compile
  rw [readTemplate_sources h hlast]
  exact congrArg Except.ok htree

end Printed

namespace Run

variable {σ : Type} (world : World σ) {deep : Deep (Run σ)} {frame : Nat} {c : Context σ}

theorem execAll_stmts (p : Printed) (ss : List SlotStmt) :
    execAll world deep frame .null (p.stmts ++ ss) c =
      execAll world deep frame .null ss (c.append p.output) := by
  have hprint : (c.append p.text).print p.escape (.string p.content) = c.append p.output := by
    simp only [Context.print, Context.append, Printed.output, Value.text, String.append_assoc]
  rw [Printed.stmts, List.append_assoc, execAll_texts, ← hprint]
  rfl

theorem execAll_printed (ps : List Printed) (last : String) :
    execAll world deep frame .null (Printed.body ps last) c =
      (.ok .null, c.append (Printed.outputs ps last)) := by
  induction ps generalizing c with
  | nil =>
    rw [Printed.body_nil, Printed.outputs_nil, ← List.append_nil (Layer.texts last), execAll_texts]
    rfl
  | cons p ps ih =>
    rw [Printed.body_cons, Printed.outputs_cons, execAll_stmts, ih]
    simp [Context.append, String.append_assoc]

variable (deep) in
theorem captured_printed {p : Program} {ps : List Printed} {last : String}
    (hbody : p.body = Printed.body ps last) : captured (runProgram world deep p) c =
      (.ok ⟨Printed.outputs ps last, none⟩, (c.newFrame p.slots.length).2) := by
  rw [captured_apply, runProgram_apply, hbody, execAll_printed]
  have houtput : ((c.aside.entered p.slots.length).append (Printed.outputs ps last)).output =
      Printed.outputs ps last := String.empty_append
  show (Except.ok (⟨((c.aside.entered p.slots.length).append _).output, none⟩ : Rendered), _) = _
  rw [houtput]
  rfl

end Run

namespace Context

variable {σ : Type} {world : World σ} {c : Context σ}

theorem execute_printed {p : Program} {ps : List Printed} {last : String}
    (hbody : p.body = Printed.body ps last) (self : Value) : ∃ c',
    c.execute world p self = (.ok (), c') ∧ c'.output = c.output ++ Printed.outputs ps last := by
  unfold execute outcome
  rw [Run.leveled_apply, Run.withSelf, Run.between_apply,
    Run.renderProgram_alone world (Run.captured_printed world _ hbody)]
  exact ⟨_, rfl, rfl⟩

end Context

namespace Session

/-- A template of texts and strings is rendered to the texts as they stand and to the strings,
escaped where it says so. The texts do not have the opening delimiter in them, and the strings as
they are written do not have the closing one. Nothing that the engine and the data may hold makes a
difference. -/
theorem renderSource_printed (s : Session)
    (hs : Engine.make? s.engine.library s.engine.cache {} = .ok s.engine) (ps : List Printed)
    (last : String) (hps : ∀ p ∈ ps, p.Clear) (hlast : ¬ ['<', '%'] <:+: last.toList)
    (name : String) (data : Value) :
    (s.renderSource name (Printed.sources ps last) data).1 = .ok (Printed.outputs ps last) := by
  have hdelimiters : s.engine.delimiters = .default := by
    obtain ⟨d, hd, he⟩ := Engine.make?_eq_ok hs
    rw [he]
    exact (Option.some.inj hd).symm
  have hcompile : s.engine.compile name (Printed.sources ps last) =
      .ok ⟨name, Printed.body ps last, []⟩ := by
    unfold Engine.compile
    rw [hdelimiters]
    exact Printed.compile_sources name hps hlast
  obtain ⟨c', hc', houtput⟩ : ∃ c', (s.start s.engine.options .null).execute world
      ⟨name, Printed.body ps last, []⟩ data = (.ok (), c') ∧
        c'.output = "" ++ Printed.outputs ps last := Context.execute_printed rfl data
  rw [String.empty_append] at houtput
  unfold renderSource run
  rw [hcompile]
  dsimp only
  rw [hc', ← houtput]
  rfl

def markup : List Printed :=
  [⟨"1 <", true, "\\ \"<b>\" & 'c'"⟩, ⟨"%> ", false, "<i>%"⟩]

theorem renderSource_printed_markup :
    let s : Session := { engine := ⟨.store .empty, .none, {}, .default⟩ }
    Engine.make? s.engine.library s.engine.cache {} = .ok s.engine ∧
    (∀ p ∈ markup, p.Clear) ∧ ¬ ['<', '%'] <:+: "%<".toList ∧
    Printed.sources markup "%<" =
      "1 <<%= \"\\\\ \\\"<b>\\\" & 'c'\" %>%> <%- \"<i>%\" %>%<" ∧
    Printed.outputs markup "%<" = "1 <\\ &quot;&lt;b&gt;&quot; &amp; &#39;c&#39;%> <i>%%<" ∧
    (s.renderSource "page" (Printed.sources markup "%<") .null).1 =
      .ok (Printed.outputs markup "%<") := by
  intro s
  have hs : Engine.make? s.engine.library s.engine.cache {} = .ok s.engine := rfl
  have hclear : ∀ p ∈ markup, p.Clear := by
    unfold markup
    simp only [List.forall_mem_cons]
    exact ⟨⟨by decide +kernel, by decide +kernel⟩, ⟨by decide +kernel, by decide +kernel⟩, nofun⟩
  have hlast : ¬ ['<', '%'] <:+: "%<".toList := by decide +kernel
  exact ⟨hs, hclear, hlast, by decide +kernel, by decide +kernel,
    s.renderSource_printed hs markup "%<" hclear hlast "page" .null⟩

end Session
end TextTemplate
