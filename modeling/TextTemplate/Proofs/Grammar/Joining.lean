import TextTemplate.Proofs.Grammar.ParallelTemplates
import TextTemplate.Proofs.Token.Segments

/-! Reading tokens one after the other. Statements that are read up to a text are read the same
whatever comes after it, and what is read after it does not depend on what stands before. -/

namespace TextTemplate.Grammar

variable {s s' : State} {n : Nat}

theorem run_statementPass (deeper : Deeper) (s : State) :
    (endsStatements (decide (0 < s.braces)) s.current.lexeme = true ∧
      ∀ read, (statementPass deeper read).run s = (some (.inr read.reverse), s)) ∨
    ∃ ss s', ∀ read, (statementPass deeper read).run s = (some (.inl (ss ++ read)), s') := by
  by_cases hends : endsStatements (decide (0 < s.braces)) s.current.lexeme = true
  · refine .inl ⟨hends, fun read => ?_⟩
    change (if endsStatements (decide (0 < s.braces)) s.current.lexeme then _ else _ :
      Reader (List SourceStmt ⊕ List SourceStmt)).run s = _
    rw [if_pos hends]
    rfl
  · right
    by_cases htext : ∃ c, s.current.lexeme = .text c
    · obtain ⟨c, hc⟩ := htext
      refine ⟨Layer.texts c, s.advance, fun read => (run_statementPass_text hc).trans ?_⟩
      unfold Layer.texts
      split <;> rfl
    · refine ⟨((statement deeper).run s).1.toList, ((statement deeper).run s).2, fun read => ?_⟩
      exact run_statementPass_statement (Bool.eq_false_iff.2 hends) (not_exists.1 htext)

theorem passes_statements (n : Nat) (hs : s.Ends) : ∃ ss s₁,
    endsStatements (decide (0 < s₁.braces)) s₁.current.lexeme = true ∧
      ∀ read, passes (statementPass (levels n)) read s = (some (read.reverse ++ ss), s₁) := by
  induction hn : s.left using Nat.strongRecOn generalizing s with
  | ind m ih =>
    rcases run_statementPass (levels n) s with ⟨hends, hrun⟩ | ⟨ss, s', hrun⟩
    · refine ⟨[], s, hends, fun read => ?_⟩
      rw [List.append_nil]
      exact passes_of_run (hrun read)
    · have hlt := Advances.statementPass hs _ s' (hrun [])
      have hleads := (statementPass (levels n) []).leads s
      rw [hrun] at hleads
      obtain ⟨ss', s₁, hends, hrest⟩ := ih s'.left (hn ▸ hlt) (hs.leads hleads) rfl
      refine ⟨ss.reverse ++ ss', s₁, hends, fun read => ?_⟩
      have hgo := (passes_of_run (hrun read)).trans (if_pos hlt)
      rw [hgo, hrest, List.reverse_append, List.append_assoc]

def State.body (tokens : List Token) : State :=
  { State.ofTokens tokens with depth := (State.ofTokens tokens).depth + 1 }

theorem braces_ofTokens (tokens : List Token) : (State.ofTokens tokens).braces = 0 := by
  cases tokens <;> rfl

theorem run_levels_statements (hn : maxNesting = n + 1) {tokens : List Token}
    {ss : List SourceStmt}
    (h : passes (statementPass (levels n)) [] (.body tokens) = (some ss, s)) :
    (levels maxNesting).statements.run (.ofTokens tokens) =
      (some ss, { s with depth := s.depth - 1 }) := by
  have hd : ¬ maxNesting ≤ (State.ofTokens tokens).depth := by
    rw [depth_ofTokens, hn]
    exact Nat.not_succ_le_zero n
  have hlist : (statementList (levels n)).run { State.ofTokens tokens with
      depth := (State.ofTokens tokens).depth + 1 } = (some ss, s) := h
  have hnested := run_nested_below (r := statementList (levels n)) hd
  rw [hlist] at hnested
  have hoptional : (optional (nested (statementList (levels n)))).run (.ofTokens tokens) =
      (some (some ss), { s with depth := s.depth - 1 }) :=
    congrArg (fun x : Option (List SourceStmt) × State => (some x.1, x.2)) hnested
  rw [hn]
  exact run_bind_some hoptional

section Templates

variable {read ss : List SourceStmt}
  (h : (levels maxNesting).statements.run s = (some ss, s'))

include h

theorem run_templatePass_end (hl : s'.current.lexeme = .endOfInput) :
    (templatePass read).run s = (some (.inr (read ++ ss)), s') := by
  unfold templatePass
  rw [run_bind_some h, run_current, hl]
  rfl

theorem problems_templatePass (hl : s'.current.lexeme ≠ .endOfInput) :
    ((templatePass read).run s).2.problems ≠ [] := by
  unfold templatePass
  rw [run_bind_some h, run_current]
  split
  · rename_i he
    exact absurd he hl
  · exact problems_bind (problems_failAt (α := Unit))

end Templates

theorem read_eq_ok_iff {tokens : List Token} {tree : List SourceStmt} (hn : maxNesting = n + 1)
    (hends : (State.ofTokens tokens).Ends) : read tokens = .ok tree ↔
      ∃ s, passes (statementPass (levels n)) [] (.body tokens) = (some tree, s) ∧
        s.current.lexeme = .endOfInput ∧ s.problems = [] := by
  have hbody : (State.body tokens).Ends := hends
  obtain ⟨ss, s, -, hss⟩ := passes_statements n hbody
  have hpasses := hss []
  rw [List.reverse_nil, List.nil_append] at hpasses
  have hstatements := run_levels_statements hn hpasses
  rw [hpasses]
  by_cases hl : s.current.lexeme = .endOfInput
  · have htemplate : template.run (.ofTokens tokens) = (some ss, { s with depth := s.depth - 1 }) :=
      passes_of_run (run_templatePass_end hstatements hl)
    unfold read
    rw [htemplate]
    dsimp only
    constructor
    · intro h
      split at h
      · rename_i hp
        cases h
        exact ⟨s, rfl, hl, List.isEmpty_iff.1 hp⟩
      · cases h
    · rintro ⟨_, h, -, hp⟩
      cases h
      rw [if_pos (List.isEmpty_iff.2 hp)]
  · constructor
    · intro h
      have hp := (problemsOf_of_read h).1
      have hpass := State.problems_eq_nil (leads_passes_of_pass templatePass [] _) hp
      exact absurd hpass (problems_templatePass hstatements hl)
    · rintro ⟨_, h, he, -⟩
      cases h
      exact absurd he hl

theorem parts_of_read {E U : List Lexeme} (hne : E ≠ []) (hs : Beside E U s s') (hs' : s'.Ends)
    {tree : List SourceStmt} {t : State}
    (hrun : passes (statementPass (levels n)) [] s = (some tree, t))
    (ht : t.current.lexeme = .endOfInput) (hp : t.problems = []) :
    Parts E U (statementPass (levels n)) [] s s' := by
  refine (Parallel.statementList (Parallel.levels n) [] hs).resolve_left fun h => ?_
  obtain ⟨ss, t', hends, hss⟩ := passes_statements n hs'
  have hrun' := hss []
  change _ ∧ (passes (statementPass (levels n)) [] s).2.problems ≠ [] ∨ _ ∧
    Beside E U (passes (statementPass (levels n)) [] s).2
      (passes (statementPass (levels n)) [] s').2 at h
  rw [hrun, hrun'] at h
  rcases h with ⟨-, h⟩ | ⟨-, h⟩
  · exact h hp
  · rcases h.view with ⟨-, hl, -⟩ | ⟨c, -, -, -, -, hl⟩ | ⟨c, c', -, -, -, hl, -⟩
    · exact hl hne ht
    · -- statements do not end at a text
      rw [hl] at hends
      cases hends
    · exact absurd (hl.symm.trans ht) nofun

theorem lastStatements_texts (tail : List Char) :
    lastStatements (Lexeme.texts tail ++ [.endOfInput]) = Layer.texts (String.ofList tail) := by
  unfold Lexeme.texts Layer.texts
  cases tail with
  | nil => rfl
  | cons c cs => rfl

theorem parting_texts (tail : List Char) (c : String) (ls : List Lexeme) :
    Parting (Lexeme.texts tail ++ [.endOfInput]) (.text c :: ls) := by
  unfold Lexeme.texts
  split
  · exact .ends c ls
  · exact .text _ c ls

theorem ends_of_lexemes {ls : List Lexeme} (h : s.lexemes = ls ++ [.endOfInput]) : s.Ends := by
  simp [State.Ends, h]

theorem beside_texts {c c' : String} {ls : List Lexeme}
    (h : s.lexemes = .text c :: (ls ++ [.endOfInput]))
    (h' : s'.lexemes = .text c' :: (ls ++ [.endOfInput])) (hclosed : ∀ c, .unclosed c ∉ ls)
    (hdepth : s'.depth = s.depth) (hbraces : s'.braces = s.braces) (hp : s.problems = [])
    (hp' : s'.problems = []) : Beside [] [] s.advance s'.advance := by
  have hadvance {s : State} {c : String} (h : s.lexemes = .text c :: (ls ++ [.endOfInput])) :
      s.advance.lexemes = ls ++ [.endOfInput] := by
    have hl := (List.cons.inj (s.lexemes_eq.symm.trans h)).1
    have hends : s.Ends := ends_of_lexemes (h.trans (List.cons_append ..).symm)
    exact (List.cons.inj ((State.lexemes_advance hends hl nofun).symm.trans h)).2
  have hexceeded {s : State} (hp : s.problems = []) : s.exceeded = false :=
    Bool.eq_false_iff.2 fun he => s.problems_ne_nil he hp
  refine ⟨.nowhere, ⟨ls ++ [.endOfInput], by rw [hadvance h, List.append_nil],
    by rw [hadvance h', List.append_nil], nofun⟩, ends_of_lexemes (hadvance h),
    fun c hc => ?_, ?_, ?_, ?_, ?_⟩
  · rw [hadvance h] at hc
    exact hclosed c (by simpa using hc)
  · rw [(State.Leads.advance s).depth, (State.Leads.advance s').depth, hdepth]
  · rw [(State.Leads.advance s).braces, (State.Leads.advance s').braces, hbraces]
  · rw [s.exceeded_advance, s'.exceeded_advance, hexceeded hp, hexceeded hp']
  · rw [s.problems_advance, s'.problems_advance, hp, hp']

theorem passes_behind {c c' : String} {ls : List Lexeme}
    (h : s.lexemes = .text c :: (ls ++ [.endOfInput]))
    (h' : s'.lexemes = .text c' :: (ls ++ [.endOfInput])) (hs : Beside [] [] s.advance s'.advance) :
    ∃ vs t t', Beside [] [] t t' ∧
      (∀ read, passes (statementPass (levels n)) read s =
        (some (read.reverse ++ Layer.texts c ++ vs), t)) ∧
      ∀ read, passes (statementPass (levels n)) read s' =
        (some (read.reverse ++ Layer.texts c' ++ vs), t') := by
  have hends : s.Ends := ends_of_lexemes (h.trans (List.cons_append ..).symm)
  have hends' : s'.Ends := ends_of_lexemes (h'.trans (List.cons_append ..).symm)
  have hl := (List.cons.inj (s.lexemes_eq.symm.trans h)).1
  have hl' := (List.cons.inj (s'.lexemes_eq.symm.trans h')).1
  obtain ⟨vs, t, -, hvs⟩ := passes_statements n (hends.leads (.advance s))
  obtain ⟨vs', t', -, hvs'⟩ := passes_statements n (hends'.leads (.advance s'))
  have hlist := (Parallel.statementList (Parallel.levels n) [] hs).resolve_right fun h => h.1 rfl
  obtain ⟨hsame, ht⟩ := hlist.resolve_left fun h => h.1 rfl
  change (passes (statementPass (levels n)) [] s'.advance).1 =
    (passes (statementPass (levels n)) [] s.advance).1 at hsame
  change Beside [] [] (passes (statementPass (levels n)) [] s.advance).2
    (passes (statementPass (levels n)) [] s'.advance).2 at ht
  rw [hvs, hvs'] at hsame ht
  obtain rfl : vs' = vs := List.append_cancel_left (Option.some.inj hsame)
  refine ⟨vs', t, t', ht, fun read => ?_, fun read => ?_⟩
  · rw [passes_text hends hl, hvs, List.reverse_append, reverse_texts]
  · rw [passes_text hends' hl', hvs', List.reverse_append, reverse_texts]

theorem passes_front {tokens joined : List Token} {front ls : List Lexeme} {tail : List Char}
    {both : String} {tree : List SourceStmt} {t : State}
    (h : tokens.map Token.lexeme = front ++ (Lexeme.texts tail ++ [.endOfInput]))
    (hjoined : joined.map Token.lexeme = front ++ .text both :: (ls ++ [.endOfInput]))
    (hfront : .endOfInput ∉ front) (hclosed : ∀ c, .unclosed c ∉ tokens.map Token.lexeme)
    (hrun : passes (statementPass (levels n)) [] (.body tokens) = (some tree, t))
    (ht : t.current.lexeme = .endOfInput) (hp : t.problems = []) : ∃ us s₁ s₁',
      tree = us.reverse ++ Layer.texts (String.ofList tail) ∧
      s₁'.lexemes = .text both :: (ls ++ [.endOfInput]) ∧
      Beside (Lexeme.texts tail ++ [.endOfInput]) (.text both :: (ls ++ [.endOfInput])) s₁ s₁' ∧
      passes (statementPass (levels n)) us s₁ = (some tree, t) ∧
      passes (statementPass (levels n)) [] (.body joined) =
        passes (statementPass (levels n)) us s₁' := by
  have h₀ : tokens.map Token.lexeme = (front ++ Lexeme.texts tail) ++ [.endOfInput] := by
    rw [h, List.append_assoc]
  have hjoined₀ : joined.map Token.lexeme = (front ++ .text both :: ls) ++ [.endOfInput] := by
    rw [hjoined, List.append_assoc, List.cons_append]
  have hbeside : Beside (Lexeme.texts tail ++ [.endOfInput]) (.text both :: (ls ++ [.endOfInput]))
      (State.body tokens) (State.body joined) :=
    (beside_ofTokens (parting_texts tail both _) h hjoined (fun _ => hfront) (ne_nil_of_lexemes h₀)
      (ne_nil_of_lexemes hjoined₀) (ends_ofTokens h₀) hclosed).deeper
  obtain ⟨hE, us, s₁, s₁', hl, hl', hs₁, hgo, hgo'⟩ :=
    parts_of_read (by simp) hbeside (ends_ofTokens hjoined₀) hrun ht hp
  obtain ⟨t₁, -, -, hlast⟩ := passes_parted (n := n) hs₁ hl hE us
  obtain ⟨htree, rfl⟩ := Prod.mk.inj (hlast.symm.trans (hgo.symm.trans hrun))
  refine ⟨us, s₁, s₁', ?_, hl', hs₁, hgo.symm.trans hrun, hgo'⟩
  rw [← Option.some.inj htree, lastStatements_texts]

theorem read_texts {tokens : List Token} {front : List Lexeme} {tail : List Char}
    {tree : List SourceStmt}
    (h : tokens.map Token.lexeme = front ++ (Lexeme.texts tail ++ [.endOfInput]))
    (hfront : .endOfInput ∉ front) (hclosed : ∀ c, .unclosed c ∉ tokens.map Token.lexeme)
    (hread : read tokens = .ok tree) : ∃ us, tree = us ++ Layer.texts (String.ofList tail) := by
  obtain ⟨n, hn⟩ : ∃ n, maxNesting = n + 1 := ⟨_, rfl⟩
  have h₀ : tokens.map Token.lexeme = (front ++ Lexeme.texts tail) ++ [.endOfInput] := by
    rw [h, List.append_assoc]
  obtain ⟨t, hrun, ht, hp⟩ := (read_eq_ok_iff hn (ends_ofTokens h₀)).1 hread
  have hjoined : ((front ++ Lexeme.text "" :: ([] ++ [.endOfInput])).map (Token.mk · .start)).map
      Token.lexeme = front ++ .text "" :: ([] ++ [.endOfInput]) := by simp [Function.comp_def]
  obtain ⟨us, -, -, htree, -⟩ := passes_front h hjoined hfront hclosed hrun ht hp
  exact ⟨_, htree⟩

theorem read_endOfInput {tokens : List Token} (h : tokens.map Token.lexeme = [] ++ [.endOfInput]) :
    read tokens = .ok [] := by
  obtain ⟨n, hn⟩ : ∃ n, maxNesting = n + 1 := ⟨_, rfl⟩
  have hl : (State.ofTokens tokens).current.lexeme = .endOfInput :=
    (List.cons.inj ((lexemes_ofTokens (ne_nil_of_lexemes h)).trans h)).1
  exact (read_eq_ok_iff hn (ends_ofTokens h)).2
    ⟨_, passes_end (s := .body tokens) hl [], hl, problems_ofTokens tokens⟩

/-- Tokens up to a text or the end, joined with tokens from a text on, are read as both are, with
one text for the two. -/
theorem read_join {tokens tokens' joined : List Token} {front rest : List Lexeme} {tail : List Char}
    {lead both : String} {tree tree' : List SourceStmt}
    (h : tokens.map Token.lexeme = front ++ (Lexeme.texts tail ++ [.endOfInput]))
    (h' : tokens'.map Token.lexeme = .text lead :: (rest ++ [.endOfInput]))
    (hjoined : joined.map Token.lexeme = front ++ .text both :: (rest ++ [.endOfInput]))
    (hfront : .endOfInput ∉ front) (hclosed : ∀ c, .unclosed c ∉ tokens.map Token.lexeme)
    (hclosed' : ∀ c, .unclosed c ∉ rest)
    (hread : read tokens = .ok tree) (hread' : read tokens' = .ok tree') :
    ∃ us vs, tree = us ++ Layer.texts (String.ofList tail) ∧ tree' = Layer.texts lead ++ vs ∧
      read joined = .ok (us ++ Layer.texts both ++ vs) := by
  obtain ⟨n, hn⟩ : ∃ n, maxNesting = n + 1 := ⟨_, rfl⟩
  have h₀ : tokens.map Token.lexeme = (front ++ Lexeme.texts tail) ++ [.endOfInput] := by
    rw [h, List.append_assoc]
  have h₀' : tokens'.map Token.lexeme = (.text lead :: rest) ++ [.endOfInput] := h'
  have hjoined₀ : joined.map Token.lexeme = (front ++ .text both :: rest) ++ [.endOfInput] := by
    rw [hjoined, List.append_assoc, List.cons_append]
  obtain ⟨t, hrun, ht, hp⟩ := (read_eq_ok_iff hn (ends_ofTokens h₀)).1 hread
  obtain ⟨t', hrun', ht', hp'⟩ := (read_eq_ok_iff hn (ends_ofTokens h₀')).1 hread'
  obtain ⟨us, s₁, s₁', htree, hl', hs₁, hgo, hgo'⟩ :=
    passes_front h hjoined hfront hclosed hrun ht hp
  -- the states behind the texts are as far in as each other, and nothing is wrong in them
  have hleads := leads_passes (statementPass (levels n)) [] (.body tokens)
  have hleads₁ := leads_passes (statementPass (levels n)) us s₁
  rw [hrun] at hleads
  rw [hgo] at hleads₁
  have hlead : (State.body tokens').lexemes = .text lead :: (rest ++ [.endOfInput]) :=
    (lexemes_ofTokens (ne_nil_of_lexemes h₀')).trans h'
  have hdepth : s₁'.depth = (State.body tokens').depth := by
    rw [hs₁.depth, ← hleads₁.depth, hleads.depth]
    simp [State.body, depth_ofTokens]
  have hbraces : s₁'.braces = (State.body tokens').braces := by
    rw [hs₁.braces, ← hleads₁.braces, hleads.braces]
    simp [State.body, braces_ofTokens]
  have hp₁ : s₁'.problems = [] := by
    have hfaults := hs₁.faults
    rw [State.problems_eq_nil hleads₁ hp] at hfaults
    exact List.map_eq_nil_iff.1 hfaults
  obtain ⟨vs, u, u', hu, hbehind, hbehind'⟩ := passes_behind (n := n) hlead hl' <|
    beside_texts hlead hl' hclosed' hdepth hbraces (problems_ofTokens tokens') hp₁
  obtain ⟨htree', rfl⟩ := Prod.mk.inj ((hbehind []).symm.trans hrun')
  refine ⟨us.reverse, vs, htree, ?_,
    (read_eq_ok_iff hn (ends_ofTokens hjoined₀)).2 ⟨u', ?_, ?_, ?_⟩⟩
  · exact (Option.some.inj htree').symm
  · exact hgo'.trans (hbehind' us)
  · rcases hu.view with ⟨hl, -⟩ | ⟨c, hE, -⟩ | ⟨c, c', hE, -⟩
    · exact hl.trans ht'
    · cases hE
    · cases hE
  · have hfaults := hu.faults
    rw [hp'] at hfaults
    exact List.map_eq_nil_iff.1 hfaults

end TextTemplate.Grammar
