import TextTemplate.Proofs.Grammar.Closure
import TextTemplate.Proofs.Grammar.Progress
import Mathlib.Logic.Function.Iterate

/-! The limit on nesting. Readers call one another only one level deeper, no level lies below the
limit, and a reader that comes to the limit ends the reading: what is left is skipped, and nothing
more is reported after the one report of it. -/

namespace TextTemplate.Grammar

variable {α β : Type} {s t : State} {d : Nat}

theorem Construct.closed {K : ⦃α : Type⦄ → Reader α → State → Prop} (h : Closed K) {n : Nat}
    {r : Reader α} (hr : Construct n s r) : K r s := by
  have hd := h.levels n
  have hc := h.carries hd
  cases hr with
  | templateName => exact h.templateName s
  | memberName => exact h.memberName s
  | closingWord => exact h.expectEnd s
  | extend hl => exact h.extendStatement hl
  | block hl => exact h.blockStatement hd hl
  | content hl => exact h.contentStatement hl
  | include_ hl => exact h.includeStatement hd hl
  | output escape hl => exact h.outputStatement hd hl
  | branch hl => exact h.branchStatement hd hl
  | loop hl => exact h.loopStatement hd hl
  | loopHead => exact h.loopHead hd s
  | switch hl => exact h.switchStatement hd hl
  | switchArms =>
    exact h.switchArms s (fun _ _ => h.whenArm hd) fun _ _ => h.elseArm hd
  | statement => exact h.statement hd s
  | nestedAssignment => exact hd.assignment s
  | assignment => exact h.assignment s (h.conditional hc) hd.assignment
  | conditional => exact h.conditional hc s
  | logical => exact h.logical hc s
  | equality => exact h.equality hc s
  | comparison => exact h.comparison hc s
  | additive => exact h.additive hc s
  | multiplicative => exact h.multiplicative hc s
  | nestedUnary => exact hd.unary s
  | unary => exact h.unary hc s
  | postfixed => exact h.postfixed hc s
  | update op before e => exact h.updateOf op before e s
  | callMember => exact h.callMember hc s
  | primary => exact h.primary hc s
  | items closing what => exact h.separated hd.assignment s
  | mapEntry => exact h.mapEntry hc s
  | entries => exact h.separated (h.mapEntry hc) s
  | parenthesized hl => exact h.parenthesized hc hl
  | lambdaBody => exact h.lambdaBody hd s
  | template => exact h.template s

/-- The states that a reader goes through from `s` on: those of the readers that it is put together
from, as far as these are run. -/
inductive Visits : {α : Type} → Reader α → State → State → Prop
  | start {α : Type} (r : Reader α) (s : State) : Visits r s s
  | stop {α : Type} (r : Reader α) (s : State) : Visits r s (r.run s).2
  | first {α β : Type} {r : Reader α} {k : α → Reader β} {s t : State} (h : Visits r s t) :
      Visits (r >>= k) s t
  | next {α β : Type} {r : Reader α} {k : α → Reader β} {a : α} {s s' t : State}
      (hrun : r.run s = (some a, s')) (h : Visits (k a) s' t) : Visits (r >>= k) s t
  | optional {α : Type} {r : Reader α} {s t : State} (h : Visits r s t) : Visits (optional r) s t
  | nested {α : Type} {r : Reader α} {s t : State} (hd : s.depth < maxNesting)
      (h : Visits r { s with depth := s.depth + 1 } t) : Visits (nested r) s t
  | inBraces {α : Type} {r : Reader α} {s t : State}
      (h : Visits r { s with braces := s.braces + 1 } t) : Visits (inBraces r) s t
  | pass {α β : Type} {pass : α → Reader (α ⊕ β)} {a : α} {s t : State} (h : Visits (pass a) s t) :
      Visits (repeatUntil pass a) s t
  | again {α β : Type} {pass : α → Reader (α ⊕ β)} {a a' : α} {s s' t : State}
      (hrun : (pass a).run s = (some (.inl a'), s')) (hlt : s'.left < s.left)
      (h : Visits (repeatUntil pass a') s' t) : Visits (repeatUntil pass a) s t

namespace Visits

variable {r : Reader α}

theorem depth_le (h : Visits r s t) (hs : s.depth ≤ maxNesting) : t.depth ≤ maxNesting := by
  induction h with
  | start => exact hs
  | stop r s => exact Nat.le_trans (Nat.le_of_eq (r.leads s).depth) hs
  | first _ ih | optional _ ih | inBraces _ ih | pass _ ih => exact ih hs
  | @next _ _ r _ _ s _ _ hrun _ ih =>
    have hleads := r.leads s
    rw [hrun] at hleads
    exact ih (Nat.le_trans (Nat.le_of_eq hleads.depth) hs)
  | nested hd _ ih => exact ih hd
  | @again _ _ pass a _ s _ _ hrun _ _ ih =>
    have hleads := (pass a).leads s
    rw [hrun] at hleads
    exact ih (Nat.le_trans (Nat.le_of_eq hleads.depth) hs)

theorem exceeded (h : Visits r s t) (ht : t.exceeded = true) : (r.run s).2.exceeded = true := by
  induction h with
  | start r s => exact ((r.leads s).exceeded ht).1
  | stop => exact ht
  | @first _ _ r k s _ _ ih =>
    have hr := ih ht
    rcases hrun : r.run s with ⟨_ | a, s'⟩ <;> rw [hrun] at hr
    · rwa [run_bind_none hrun]
    · rw [run_bind_some hrun]
      exact (((k a).leads s').exceeded hr).1
  | next hrun _ ih =>
    rw [run_bind_some hrun]
    exact ih ht
  | optional _ ih => exact ih ht
  | @nested _ r s _ hd _ ih =>
    rw [run_nested_below (Nat.not_le.2 hd)]
    exact ih ht
  | inBraces _ ih => exact ih ht
  | @pass _ _ pass a s _ _ ih =>
    have hr := ih ht
    change (passes pass a s).2.exceeded = true
    rw [passes]
    split
    · rename_i a' s' hrun
      rw [hrun] at hr
      split
      · exact ((leads_passes pass a' s').exceeded hr).1
      · exact hr
    · rename_i hrun
      rwa [hrun] at hr
    · rename_i hrun
      rwa [hrun] at hr
  | @again _ _ pass a a' s s' _ hrun hlt _ ih =>
    have hpasses : passes pass a s = passes pass a' s' := by
      rw [passes, hrun]
      exact if_pos hlt
    change (passes pass a s).2.exceeded = true
    rw [hpasses]
    exact ih ht

end Visits

def Deeper.above (deeper : Deeper) : Deeper :=
  { statements := nestedStatements (statementList deeper)
    assignment := nested (Grammar.assignment deeper)
    unary := nested (Grammar.unary deeper) }

theorem sameAt_above (hd : maxNesting ≤ d) (deeper : Deeper) :
    (levels 0).SameAt d deeper.above :=
  have hstatements : SameAt d (nested giveUp) (nested (statementList deeper)) :=
    .nested fun hlt => absurd hlt (by omega)
  ⟨.bind (.optional hstatements) fun _ => .refl _, .giveUp (assignment deeper) hd,
    .giveUp (unary deeper) hd⟩

/-- However often readers call one another, those below the limit are never called: it makes no
difference what they are. -/
theorem sameAt_iterate_above (bottom : Deeper) : ∀ {n m d : Nat}, d ≤ maxNesting →
    maxNesting < d + n → maxNesting ≤ d + m → (levels m).SameAt d (Deeper.above^[n] bottom)
  | 0, _, _, hd, hn, _ => absurd hn (by omega)
  | n + 1, 0, _, _, _, hm => by
    rw [Function.iterate_succ_apply']
    exact sameAt_above hm _
  | n + 1, m + 1, d, _, hn, hm => by
    have hdeeper (hlt : d < maxNesting) :
        (levels m).SameAt (d + 1) (Deeper.above^[n] bottom) :=
      sameAt_iterate_above bottom hlt (by omega) (by omega)
    rw [Function.iterate_succ_apply']
    exact ⟨.bind (.optional (.nested fun hlt => .statementList (hdeeper hlt))) fun _ => .refl _,
      .nested fun hlt => .assignment (hdeeper hlt), .nested fun hlt => .unary (hdeeper hlt)⟩

namespace State

structure Proper (s : State) : Prop where
  ends : s.Ends
  once : s.lexemes.count .endOfInput ≤ 1

theorem Proper.leads {s' : State} (h : s.Proper) (hs : s.Leads s') : s'.Proper where
  ends := h.ends.leads hs
  once := Nat.le_trans ((hs.tokens.sublist.map Token.lexeme).count_le _) h.once

theorem Proper.lexemes_eq (h : s.Proper) (hs : s.current.lexeme = .endOfInput) :
    s.lexemes = [.endOfInput] := by
  obtain ⟨hends, honce⟩ := h
  rw [Ends, State.lexemes_eq, hs] at hends
  rw [State.lexemes_eq, hs] at honce ⊢
  -- the end of the input would be met again at the end of what comes after it
  cases hu : s.upcoming.map Token.lexeme with
  | nil => rfl
  | cons l ls =>
    rw [hu, List.getLast?_cons_cons] at hends
    have hmem : Lexeme.endOfInput ∈ l :: ls := List.mem_of_getLast? hends
    have hpos := List.count_pos_iff.2 hmem
    rw [hu, List.count_cons_self] at honce
    omega

theorem lexemes_of_leads {s' : State} (h : s.lexemes = [.endOfInput]) (hs : s.Leads s') :
    s'.lexemes = [.endOfInput] := by
  have hsuffix : s'.lexemes <:+ s.lexemes := hs.tokens.map Token.lexeme
  rw [h, s'.lexemes_eq, List.suffix_cons_iff] at hsuffix
  rw [s'.lexemes_eq]
  simpa using hsuffix

theorem current_skipTo_end (h : s.Ends) :
    (s.skipTo (· == .endOfInput)).current.lexeme = .endOfInput := by
  have hfirst (t : Token) (ts : List Token) (h : ((t :: ts).map Token.lexeme).getLast? =
      some .endOfInput) : (firstIn (· == .endOfInput) t ts).1.lexeme = .endOfInput := by
    induction ts generalizing t with
    | nil => simpa [firstIn] using h
    | cons t' ts ih =>
      unfold firstIn
      split
      · rename_i ht
        exact beq_iff_eq.1 ht
      · exact ih t' (by simpa using h)
  exact hfirst s.current s.upcoming h

/-- Whether the limit was hit shows: if it was, it is the last problem on record, and the only one
of this kind, and nothing is left to read; else there is none of this kind. -/
structure Settled (s : State) : Prop where
  within : s.exceeded = false → ∀ p ∈ s.problems, p.fault ≠ .tooDeep
  beyond : s.exceeded = true → s.lexemes = [.endOfInput] ∧ ∃ ps position,
    s.problems = ps ++ [⟨position, .tooDeep⟩] ∧ ∀ p ∈ ps, p.fault ≠ .tooDeep

theorem Settled.forward {s' : State} (h : s.Settled) (hs : s.Leads s')
    (he : s'.exceeded = s.exceeded) (hp : s'.problems = s.problems) : s'.Settled where
  within hf := hp ▸ h.within (he ▸ hf)
  beyond ht := by
    obtain ⟨hl, hlast⟩ := h.beyond (he ▸ ht)
    exact ⟨lexemes_of_leads hl hs, hp ▸ hlast⟩

theorem Settled.record {fault : Fault} {position : Position} (h : s.Settled)
    (hne : fault ≠ .tooDeep) : (s.record position fault).Settled := by
  unfold State.record
  split
  · exact h
  · rename_i hf
    refine ⟨fun _ p hp => ?_, fun ht => absurd ht hf⟩
    rcases List.mem_append.1 hp with hp | hp
    · exact h.within (Bool.eq_false_iff.2 hf) p hp
    · obtain rfl := List.mem_singleton.1 hp
      exact hne

theorem Settled.giveUp (h : s.Settled) (hs : s.Proper) : s.giveUp.Settled := by
  have hproper := hs.leads (.giveUp s)
  have hrecord : (s.record s.current.position .tooDeep).Ends := hs.ends.leads (.record ..)
  have hend : s.giveUp.current.lexeme = .endOfInput := current_skipTo_end hrecord
  refine ⟨nofun, fun _ => ⟨hproper.lexemes_eq hend, ?_⟩⟩
  change ∃ ps position, (s.record s.current.position .tooDeep).problems = _ ∧ _
  unfold State.record
  split
  · rename_i he
    exact (h.beyond he).2
  · rename_i hf
    exact ⟨s.problems, s.current.position, rfl, h.within (Bool.eq_false_iff.2 hf)⟩

end State

theorem moves_settled : Moves State.Proper fun s s' => s.Settled → s'.Settled where
  leads := State.Proper.leads
  within _ _ h := ⟨h.ends, h.once⟩
  refl _ := id
  trans h h' := h' ∘ h
  shift _ _ _ h := ⟨h.within, h.beyond⟩
  advance _ h := h.forward (.advance _) (State.exceeded_advance _) (State.problems_advance _)
  record _ hne h := h.record hne
  recover _ h := h.forward (.recover _) (State.exceeded_recover _) (State.problems_recover _)
  giveUp hs h := h.giveUp hs

theorem closed_settled : Closed (Along State.Proper fun s s' => s.Settled → s'.Settled) :=
  have h := moves_settled.respected
  h.closed (fun _ hs => moves_settled.advance hs) fun s =>
    h.assignment s fun _ _ _ hs hsettled =>
      moves_settled.recover (hs.leads (.record ..)) (hsettled.record nofun)

theorem proper_ofTokens {tokens : List Token} {ls : List Lexeme}
    (h : tokens.map Token.lexeme = ls ++ [.endOfInput]) (hls : .endOfInput ∉ ls) :
    (State.ofTokens tokens).Proper where
  ends := ends_ofTokens h
  once := by
    cases tokens with
    | nil => simp at h
    | cons t ts =>
      have hlexemes : (State.ofTokens (t :: ts)).lexemes = ls ++ [.endOfInput] := h
      rw [hlexemes, List.count_append, List.count_eq_zero.2 hls]
      exact Nat.le_refl 1

theorem depth_ofTokens (tokens : List Token) : (State.ofTokens tokens).depth = 0 := by
  cases tokens <;> rfl

theorem problems_ofTokens (tokens : List Token) : (State.ofTokens tokens).problems = [] := by
  cases tokens <;> rfl

theorem exceeded_ofTokens (tokens : List Token) : (State.ofTokens tokens).exceeded = false := by
  cases tokens <;> rfl

theorem settled_ofTokens (tokens : List Token) : (State.ofTokens tokens).Settled where
  within _ p hp := by
    rw [problems_ofTokens] at hp
    cases hp
  beyond he := by
    rw [exceeded_ofTokens] at he
    cases he

theorem run_nested_at_limit {r : Reader α} (hs : s.Proper) (hd : maxNesting ≤ s.depth) :
    ∃ s', (nested r).run s = (none, s') ∧ s'.exceeded = true ∧ s'.lexemes = [.endOfInput] := by
  have hrecord : (s.record s.current.position .tooDeep).Ends := hs.ends.leads (.record ..)
  have hends := (hs.leads (.giveUp s)).lexemes_eq (State.current_skipTo_end hrecord)
  exact ⟨s.giveUp, run_nested_limit hd, rfl, hends⟩

end TextTemplate.Grammar

namespace TextTemplate

open Grammar

theorem head?_append_of {s t : String} {c : Char} (h : s.toList.head? = some c) :
    (s ++ t).toList.head? = some c := by
  rw [String.toList_append, List.head?_append, h]
  rfl

theorem Expected.head_text (what : Expected) :
    ∃ c, what.text.toList.head? = some c ∧ c ≠ 'n' := by
  cases what <;> exact ⟨_, rfl, by decide⟩

theorem Fault.message_ne {fault : Fault} (h : fault ≠ .tooDeep) :
    fault.message ≠ "nested too deeply (limit 128)" := by
  have hhead : ∃ c, fault.message.toList.head? = some c ∧ c ≠ 'n' := by
    cases fault with
    | tooDeep => exact absurd rfl h
    | expected what found =>
      obtain ⟨c, hc, hne⟩ := what.head_text
      exact ⟨c, head?_append_of (head?_append_of hc), hne⟩
    | unclosed opened closing =>
      have hopened : ("script opened at line " ++ toString opened.line).toList.head? = some 's' :=
        head?_append_of rfl
      have hplace := head?_append_of (t := toString opened.column)
        (head?_append_of (t := ", column ") hopened)
      exact ⟨'s', head?_append_of (head?_append_of (head?_append_of hplace)), by decide⟩
    | invalidToken content => exact ⟨'i', head?_append_of (head?_append_of rfl), by decide⟩
    | unexpected found => exact ⟨'u', head?_append_of rfl, by decide⟩
    | keyWithoutColon key => exact ⟨_, head?_append_of (head?_append_of rfl), by decide⟩
    | duplicateElse | emptyParentheses | lambdaParameters | assignmentTarget | updateTarget =>
      exact ⟨_, rfl, by decide⟩
  obtain ⟨c, hc, hne⟩ := hhead
  rintro hm
  rw [hm] at hc
  exact hne (Option.some.inj hc).symm

def problemsOf (ts : List Token) : List Problem :=
  (template.run (.ofTokens ts)).2.problems

theorem readTemplate_of_problems {delimiters : Delimiters} {source : String} {ps : List Problem}
    (h : problemsOf (Scanner.ofString delimiters source).tokens = ps) (hne : ps ≠ []) :
    readTemplate delimiters source = .error ps := by
  rw [readTemplate, Grammar.read]
  unfold problemsOf at h
  rcases hrun : template.run (.ofTokens (Scanner.ofString delimiters source).tokens) with
    ⟨_ | tree, s⟩ <;> rw [hrun] at h <;> dsimp only at h <;> simp [h, hne]

theorem compile_exceeded {delimiters : Delimiters} {source : String} {s : State} (name : String)
    (h : (template.run (.ofTokens (Scanner.ofString delimiters source).tokens)).2 = s)
    (hs : s.Settled) (he : s.exceeded = true) :
    ∃ rs r, compile delimiters name source = .error (.compileFailed name (rs ++ [r])) ∧
      r.message = "nested too deeply (limit 128)" ∧
      ∀ r' ∈ rs, r'.message ≠ "nested too deeply (limit 128)" := by
  obtain ⟨-, ps, position, hps, hne⟩ := hs.beyond he
  refine ⟨ps.map (Problem.report name source), Problem.report name source ⟨position, .tooDeep⟩,
    ?_, rfl, ?_⟩
  · have hread := readTemplate_of_problems (congrArg State.problems h) (by simp [hps])
    simp only [compile, hread, hps, List.map_append, List.map_singleton]
  · intro r' hr'
    obtain ⟨p, hp, rfl⟩ := List.mem_map.1 hr'
    exact Fault.message_ne (hne p hp)

/-- The nesting limit fails cleanly. No reader that compiling a template goes through finds more
than the allowed number of others under way; readers call one another through `nested` only, so
that what lies below the limit is never called; the counts of open readers and braces are restored;
and once the limit is hit, nothing is left to read, and its report is the last of all and the only
one of its kind. -/
theorem nesting_limit_fails_cleanly (delimiters : Delimiters) (name source : String) :
    let start := State.ofTokens (Scanner.ofString delimiters source).tokens
    (∀ t, Visits template start t → t.depth ≤ maxNesting ∧ (t.exceeded = true →
      ∃ rs r, compile delimiters name source = .error (.compileFailed name (rs ++ [r])) ∧
        r.message = "nested too deeply (limit 128)" ∧
        ∀ r' ∈ rs, r'.message ≠ "nested too deeply (limit 128)")) ∧
    (∀ bottom n d, d ≤ maxNesting → maxNesting < d + n →
      (levels maxNesting).SameAt d (Deeper.above^[n] bottom)) ∧
    (∀ {α : Type} {r : Reader α} n s, Construct n s r → s.Proper → s.Settled →
      (r.run s).2.Settled ∧ (r.run s).2.depth = s.depth ∧ (r.run s).2.braces = s.braces) ∧
    (∀ {α : Type} (r : Reader α) (s : State), s.Proper → maxNesting ≤ s.depth →
      ∃ s', (nested r).run s = (none, s') ∧ s'.exceeded = true ∧ s'.lexemes = [.endOfInput]) ∧
    start.Proper ∧ start.Settled := by
  obtain ⟨htokens, hls⟩ := (Scanner.ofString delimiters source).lexemes_tokens
  intro start
  have hproper : start.Proper := proper_ofTokens htokens hls
  have hsettled : start.Settled := settled_ofTokens _
  have hdepth : start.depth ≤ maxNesting := by
    rw [depth_ofTokens]
    exact Nat.zero_le maxNesting
  refine ⟨fun t ht => ⟨ht.depth_le hdepth, fun he => ?_⟩, fun bottom n d hd hn => ?_,
    fun {_ r} n s h hs hsettled => ?_, fun r s => run_nested_at_limit, hproper, hsettled⟩
  · have hend := closed_settled.template start hproper hsettled
    exact compile_exceeded name rfl hend (ht.exceeded he)
  · exact sameAt_iterate_above bottom hd hn (Nat.le_add_left ..)
  · have hleads := r.leads s
    exact ⟨h.closed closed_settled hs hsettled, hleads.depth, hleads.braces⟩

theorem deep_parentheses_fail_cleanly :
    let source := String.ofList ("<% ".toList ++ List.replicate 127 '(' ++ "1 %>".toList)
    ∃ t, Visits template (.ofTokens (Scanner.ofString .default source).tokens) t ∧
      t.depth ≤ maxNesting ∧ t.exceeded = true ∧ ∃ rs r,
        compile .default "page" source = .error (.compileFailed "page" (rs ++ [r])) ∧
        r.message = "nested too deeply (limit 128)" ∧
        ∀ r' ∈ rs, r'.message ≠ "nested too deeply (limit 128)" := by
  intro source
  obtain ⟨hvisits, -⟩ := nesting_limit_fails_cleanly .default "page" source
  have hvisit := Visits.stop template (.ofTokens (Scanner.ofString .default source).tokens)
  have he : (template.run (.ofTokens (Scanner.ofString .default source).tokens)).2.exceeded
      = true := by
    rw [Scanner.ofString, String.toList_ofList]
    decide +kernel
  obtain ⟨hdepth, hfails⟩ := hvisits _ hvisit
  exact ⟨_, hvisit, hdepth, he, hfails he⟩

end TextTemplate
