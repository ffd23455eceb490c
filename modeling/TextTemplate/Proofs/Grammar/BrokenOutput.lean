import TextTemplate.Proofs.Grammar.Recovery
import TextTemplate.Proofs.Token.Splice

/-! Compiling a template with an output that lacks its expression. -/

namespace TextTemplate

open Grammar

namespace Scanner

theorem tokens_lead {lead : String} (h : Outside .default lead.toList) :
    ∃ front c, .endOfInput ∉ front.map Token.lexeme ∧
      (front.map Token.lexeme).getLast? = some (.text c) ∧
      ∀ region rest : String, Text.cutAt ['%', '>'] region.toList = none →
        (ofString .default (lead ++ "<%" ++ region ++ "%>" ++ rest)).tokens =
          front ++ (Scanner.mk .default (.script true region.toList) rest.toList
            (Position.start.advance (lead ++ "<%").toList)).tokens := by
  obtain ⟨front, c, hfront, hlast, htokens⟩ := tokens_outside h .start
  refine ⟨front, c, hfront, hlast, fun region rest hregion => ?_⟩
  have hclear : Text.Clear ['%', '>'] region.toList := Text.clear_pair (by decide) hregion
  have hsource : (lead ++ "<%" ++ region ++ "%>" ++ rest).toList =
      lead.toList ++ (['<', '%'] ++ (region.toList ++ (['%', '>'] ++ rest.toList))) := by
    simp
  have hlead : (lead ++ "<%").toList = lead.toList ++ ['<', '%'] := by simp
  rw [ofString, hsource, hlead]
  exact htokens region.toList rest.toList hclear

theorem tokens_mark {mark : String} (hmark : mark = "=" ∨ mark = "-") (d : Delimiters)
    (inner : String) (rest : List Char) (position : Position) : ∃ t ts escape,
      (Scanner.mk d (.script true (mark ++ inner).toList) rest position).tokens = t :: ts ∧
      t.lexeme = outputMark escape := by
  rw [String.toList_append]
  rcases hmark with rfl | rfl
  · exact ⟨_, _, true, tokens_cons nofun, rfl⟩
  · exact ⟨_, _, false, tokens_cons nofun, rfl⟩

theorem tokens_brokenOutput (rest : List Char) (position : Position) : ∃ next later,
    (Scanner.mk .default (.script true ['=', ' ']) rest position).tokens =
      ⟨.escapeMark, position⟩ :: next :: later ∧
    next.position = position.advance ['=', ' ', '%', '>'] ∧
    (next.lexeme = .endOfInput ∧ later = [] ∨
      (∃ c, next.lexeme = .text c) ∧ ∃ t ∈ later, t.lexeme = .endOfInput) := by
  obtain ⟨next, later, hnext, hposition, hlexeme⟩ :=
    tokens_text .default rest (position.advance ['=', ' ', '%', '>'])
  refine ⟨next, later, ?_, hposition, hlexeme⟩
  have hblank : (Scanner.mk .default (.script false [' ']) rest (position.advance ['='])).tokens =
      next :: later := by
    rw [← hnext]
    exact tokens_congr (next_closed (s := ⟨.default, .script false [' '], rest, _⟩) rfl rfl)
  rw [← hblank]
  exact tokens_cons nofun

theorem ends_tokens (s : Scanner) : (State.ofTokens s.tokens).Ends := by
  obtain ⟨hlexemes, -⟩ := s.lexemes_tokens
  have hne : s.tokens ≠ [] := by
    intro h
    simp [h] at hlexemes
  rw [State.Ends, State.lexemes, tokens_ofTokens hne, hlexemes, List.getLast?_concat]

end Scanner

theorem read_of_compile {d : Delimiters} {name source : String} {p : Program}
    (h : compile d name source = .ok p) :
    ∃ tree, read (Scanner.ofString d source).tokens = .ok tree :=
  (readTemplate_of_compile h).imp fun _ => And.left

/-- An output that lacks its expression does not compile. The end of its region is reported, and
besides just what is reported where the output is left out and what is passed over after it: the
text behind it and all up to the next text, `end` or end of the template. -/
theorem broken_output_reported {name lead mark inner rest : String} {p : Program}
    (hlead : Outside .default lead.toList) (hmark : mark = "=" ∨ mark = "-")
    (hinner : Text.cutAt ['%', '>'] (mark ++ inner).toList = none)
    (h : compile .default name (lead ++ "<%" ++ (mark ++ inner) ++ "%>" ++ rest) = .ok p) :
    let broken := lead ++ "<%= %>" ++ rest
    ∃ front m next later,
      (Scanner.ofString .default broken).tokens = front ++ m :: next :: later ∧
      m = ⟨.escapeMark, Position.start.advance (lead ++ "<%").toList⟩ ∧
      next.position = Position.start.advance (lead ++ "<%= %>").toList ∧
      (next.lexeme = .endOfInput ∨ ∃ c, next.lexeme = .text c) ∧
      compile .default name broken = .error (.compileFailed name
        ((⟨next.position, .expected .expression next.lexeme⟩ ::
          problemsOf (front ++ resumption (next :: later))).map (Problem.report name broken))) ∧
      ((∃ r, compile .default name broken = .error (.compileFailed name [r])) ↔
        ∃ tree, read (front ++ resumption (next :: later)) = .ok tree) := by
  intro broken
  obtain ⟨front, c, hfront, hlast, htokens⟩ := Scanner.tokens_lead hlead
  obtain ⟨t, ts, escape, hwhole, ht⟩ := Scanner.tokens_mark hmark .default inner
    rest.toList (Position.start.advance (lead ++ "<%").toList)
  obtain ⟨next, later, hbroken, hposition, hends⟩ := Scanner.tokens_brokenOutput
    rest.toList (Position.start.advance (lead ++ "<%").toList)
  have hnext : next.lexeme = .endOfInput ∨ ∃ c, next.lexeme = .text c :=
    hends.imp And.left And.left
  let m : Token := ⟨.escapeMark, Position.start.advance (lead ++ "<%").toList⟩
  let B : Break := ⟨_, m, next, later, ⟨t, ts, escape, hwhole, ht⟩, ⟨true, rfl⟩, hnext⟩
  have hsource : broken = lead ++ "<%" ++ "= " ++ "%>" ++ rest := by
    simp [broken, ← String.toList_inj]
  have hspliced : (Scanner.ofString .default broken).tokens = front ++ B.broken := by
    rw [hsource, htokens "= " rest (by decide)]
    exact congrArg (front ++ ·) hbroken
  have hresumed : B.resumed = resumption (next :: later) :=
    B.resumed_eq (hends.imp_left And.right)
  have hproblems : problemsOf (front ++ B.broken) =
      B.problem :: problemsOf (front ++ B.resumed) := by
    obtain ⟨tree, hread⟩ := read_of_compile h
    rw [htokens _ rest hinner] at hread
    exact problemsOf_broken B hlast hfront hread
  have hcompile : compile .default name broken = .error (.compileFailed name
      ((B.problem :: problemsOf (front ++ B.resumed)).map (Problem.report name broken))) := by
    rw [← hspliced] at hproblems
    rw [compile, readTemplate_of_problems hproblems (List.cons_ne_nil _ _)]
  rw [hresumed] at hcompile
  refine ⟨front, m, next, later, hspliced, rfl, ?_, hnext, hcompile, ?_⟩
  · rw [hposition]
    simp only [String.toList_append, Position.advance_append]
    rfl
  · have hends : (State.ofTokens (front ++ B.resumed)).Ends :=
      B.ends_resumed (hspliced ▸ Scanner.ends_tokens _)
    rw [← problemsOf_eq_nil (hresumed ▸ hends), hcompile]
    simp

theorem broken_output_in_branch :
    ∃ front m next later,
      (Scanner.ofString .default "<% if a %>x<%= %>y<% end %>z").tokens =
        front ++ m :: next :: later ∧
      m = ⟨.escapeMark, ⟨1, 14⟩⟩ ∧ next.position = ⟨1, 18⟩ ∧
      compile .default "page" "<% if a %>x<%= %>y<% end %>z" = .error (.compileFailed "page"
        ((⟨next.position, .expected .expression next.lexeme⟩ ::
          problemsOf (front ++ resumption (next :: later))).map
            (Problem.report "page" "<% if a %>x<%= %>y<% end %>z"))) := by
  have hfirst : Text.Clear ['<', '%'] [] := Text.clear_pair (by decide) rfl
  have hregion : Text.Clear ['%', '>'] " if a ".toList := Text.clear_pair (by decide) (by decide)
  have hlast : Outside .default ['x'] := .text (Text.clear_pair (by decide) (by decide))
  have hlead : Outside .default "<% if a %>x".toList := .region hfirst hregion hlast
  have hok : (compile .default "page"
      ("<% if a %>x" ++ "<%" ++ ("=" ++ " b ") ++ "%>" ++ "y<% end %>z")).isOk = true := by
    decide +kernel
  cases h : compile .default "page"
      ("<% if a %>x" ++ "<%" ++ ("=" ++ " b ") ++ "%>" ++ "y<% end %>z") with
  | error => rw [h] at hok; cases hok
  | ok p =>
    obtain ⟨front, m, next, later, htokens, hm, hposition, -, hcompile, -⟩ :=
      broken_output_reported hlead (.inl rfl) (by decide) h
    exact ⟨front, m, next, later, htokens, hm, hposition, hcompile⟩

/-- Behind a broken output the head of a branch is passed over, and then its `end` is reported. -/
theorem broken_output_before_branch_reported_twice :
    (compile .default "page" "<%= x %><% if x %>b<% end %>").isOk = true ∧
      ∃ r r', compile .default "page" "<%= %><% if x %>b<% end %>" =
          .error (.compileFailed "page" [r, r']) ∧
        r.position = ⟨1, 7⟩ ∧ r'.position = ⟨1, 21⟩ ∧ r'.message = "unexpected 'end'" := by
  refine ⟨by decide +kernel, ?_⟩
  have hproblems : problemsOf (Scanner.ofString .default "<%= %><% if x %>b<% end %>").tokens =
      [⟨⟨1, 7⟩, .expected .expression (.text "")⟩, ⟨⟨1, 21⟩, .unexpected (.keyword .end_)⟩] := by
    decide +kernel
  have hread := readTemplate_of_problems hproblems nofun
  exact ⟨_, _, by rw [compile, hread]; rfl, rfl, rfl, rfl⟩

end TextTemplate
