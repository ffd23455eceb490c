import TextTemplate.Compile
import TextTemplate.Proofs.Grammar.ErrorOrder
import TextTemplate.Proofs.Text.Lines
import TextTemplate.Proofs.Token.Places

/-! Where the problems of a template stand, and what the excerpts of their reports show. Every
problem stands where a token does, so in the source. Its line is one of those that the excerpt
counts, unless it stands behind a line feed at the end of the source. -/

namespace TextTemplate.Grammar

variable {T : List Token} {s s' : State}

def Placed (T : List Token) (s s' : State) : Prop :=
  ∀ p ∈ s'.problems, p ∈ s.problems ∨ ∃ t ∈ T, p.position = t.position

namespace Placed

theorem same (h : s'.problems = s.problems) : Placed T s s' :=
  fun _ hp => .inl (h ▸ hp)

theorem trans {s'' : State} (h : Placed T s s') (h' : Placed T s' s'') : Placed T s s'' := by
  intro p hp
  rcases h' p hp with hp | ht
  · exact h p hp
  · exact .inr ht

theorem record {t : Token} (ht : t ∈ T) (s : State) (fault : Fault) :
    Placed T s (s.record t.position fault) := by
  rcases s.problems_record t.position fault with h | h
  · exact same h
  · intro p hp
    rw [h] at hp
    refine (List.mem_append.1 hp).imp_right fun hp => ⟨t, ht, ?_⟩
    rw [List.mem_singleton.1 hp]

theorem current_mem (h : Amid T s) : s.current ∈ T := h.subset List.mem_cons_self

theorem moves (T : List Token) : Moves (Amid T) (Placed T) where
  leads := Amid.leads
  within _ _ h := h
  refl _ := same rfl
  trans := trans
  shift _ _ _ := same rfl
  advance _ := same (State.problems_advance _)
  record {s fault} h _ := record (current_mem h) s fault
  recover _ := same (State.problems_recover _)
  giveUp {s} h := record (current_mem h) s .tooDeep

theorem closed (T : List Token) : Closed (Along (Amid T) (Placed T)) := by
  have h := (moves T).respected
  refine h.closed (fun _ _ => same (State.problems_advance _)) fun s hconditional hassignment => ?_
  intro hs
  refine h.assignment s (fun lhs s' _ _ => ?_) hconditional hassignment hs
  -- the target began at a token, wherever reading has come to since
  refine (record (current_mem hs) s' .assignmentTarget).trans ?_
  exact same (State.problems_recover _)

end Placed

theorem isIn_of_read {delimiters : Delimiters} {source : String} {ps : List Problem}
    (h : readTemplate delimiters source = .error ps) :
    ∀ p ∈ ps, p.position.IsIn source.toList := by
  obtain ⟨htokens, -⟩ := (Scanner.ofString delimiters source).lexemes_tokens
  have hne : (Scanner.ofString delimiters source).tokens ≠ [] := by
    intro hnil
    simp [hnil] at htokens
  have hplaced := (Placed.closed _).template _ (amid_ofTokens hne)
  intro p hp
  rw [← problems_of_read h] at hp
  rcases hplaced p hp with hp | ⟨t, ht, hposition⟩
  · rw [problems_ofTokens] at hp
    cases hp
  · rw [hposition]
    exact Scanner.isIn_of_mem_tokens (Scanner.within_ofString delimiters source) t ht

theorem toList_ne_nil_of_read {delimiters : Delimiters} {source : String} {ps : List Problem}
    {p : Problem} (h : readTemplate delimiters source = .error ps) (hp : p ∈ ps) :
    source.toList ≠ [] := by
  intro hnil
  have hend : (Scanner.ofString delimiters source).next.1 = Token.endOfInput .start := by
    simp [Scanner.ofString, Scanner.next, Scanner.nextText, hnil]
  have htokens : (Scanner.ofString delimiters source).tokens = [Token.endOfInput .start] := by
    rw [Scanner.tokens]
    simp only [hend]
    rfl
  have hnone : problemsOf [Token.endOfInput .start] = [] := by decide +kernel
  rw [← problems_of_read h, htokens, hnone] at hp
  cases hp

end TextTemplate.Grammar

namespace TextTemplate

open Grammar

/-- The report shows the line of the source that it is about, with a caret line right behind it. -/
def Report.PointsInto (source : String) (r : Report) : Prop :=
  ∃ k piece shown, r.position.line = k + 1 ∧ (source.toList.splitOn '\n')[k]? = some piece ∧
    Text.Shows shown piece ∧
    Excerpt.lineText r.position.line shown ++ Excerpt.caretText r.position.column <:+: r.text.toList

theorem Problem.pointsInto_report {name source : String} {p : Problem} {k : Nat} {shown : String}
    {piece : List Char} (hline : p.position.line = k + 1)
    (hpiece : (source.toList.splitOn '\n')[k]? = some piece) (hshows : Text.Shows shown piece)
    (h : (Text.lines source)[k]? = some shown) : (p.report name source).PointsInto source := by
  refine ⟨k, piece, shown, hline, hpiece, hshows, (Excerpt.caret_infix hline h).trans ?_⟩
  simp only [Problem.report, Report.withSource, Report.text, Excerpt.text, String.toList_append,
    String.toList_ofList, ← List.append_assoc]
  exact (List.suffix_append ..).isInfix

/-- The end of a source that ends with a line feed. There is no line there. -/
def Position.IsBehindFeed (source : String) (p : Position) : Prop :=
  source.toList.getLast? = some '\n' ∧ p = Position.start.advance source.toList

theorem Position.getElem?_lines {source : String} {p : Position} (hp : p.IsIn source.toList)
    (hsource : source.toList ≠ []) (h : ¬ p.IsBehindFeed source) :
    ∃ k piece shown, p.line = k + 1 ∧ (source.toList.splitOn '\n')[k]? = some piece ∧
      Text.Shows shown piece ∧ (Text.lines source)[k]? = some shown := by
  obtain ⟨before, ⟨after, hbefore⟩, rfl⟩ := hp
  have hcount : before.count '\n' + after.count '\n' = source.toList.count '\n' := by
    rw [← hbefore, List.count_append]
  have hlt : before.count '\n' < (Text.piecesFrom [] source.toList).length := by
    rw [Text.length_piecesFrom]
    omega
  obtain ⟨piece, hpiece⟩ : ∃ piece, (Text.piecesFrom [] source.toList)[before.count '\n']? =
      some piece := ⟨_, List.getElem?_eq_getElem hlt⟩
  have hshown : piece ≠ [] ∨ before.count '\n' < source.toList.count '\n' := by
    by_contra hno
    obtain ⟨rfl, hle⟩ := not_or.1 hno |>.imp not_not.1 Nat.not_lt.1
    have hcount' : before.count '\n' = source.toList.count '\n' := by omega
    rw [hcount'] at hpiece
    have hlast := Text.getLast?_of_piece_nil (.inl hsource) hpiece
    -- the last line feed is before the position, so nothing comes after it
    have hafter : after = [] := by
      by_contra hne
      rw [← hbefore, List.getLast?_append_of_ne_nil _ hne] at hlast
      have := List.count_pos_iff.2 (List.mem_of_getLast? hlast)
      omega
    rw [hafter, List.append_nil] at hbefore
    exact h ⟨hlast, congrArg _ hbefore⟩
  obtain ⟨shown, hline, hshows⟩ := Text.getElem?_linesFrom hpiece hshown
  rw [Text.piecesFrom_empty] at hpiece
  refine ⟨_, piece, shown, ?_, hpiece, hshows, hline⟩
  rw [line_advance]
  exact Nat.add_comm ..

/-- The report of a template that does not compile points into the source, unless the source ends
with a line feed and the report is about its end: then no line of the excerpt has a caret. -/
theorem excerpt_of_compile {delimiters : Delimiters} {name source : String} {e : Error}
    (h : compile delimiters name source = .error e) :
    ∃ reports, e = .compileFailed name reports ∧ ∀ r ∈ reports,
      (¬ r.position.IsBehindFeed source → r.PointsInto source) ∧
      (r.position.IsBehindFeed source → ∃ x, r.excerpt = some x ∧
        x.chars = x.lines.flatMap fun l => Excerpt.lineText l.1 l.2) := by
  unfold compile at h
  split at h
  · cases h
  rename_i ps hread
  refine ⟨ps.map (Problem.report name source), (Except.error.inj h).symm, ?_⟩
  refine List.forall_mem_map.2 fun p hp => ⟨fun hfeed => ?_, fun ⟨hlast, hposition⟩ => ?_⟩
  · obtain ⟨k, piece, shown, hline, hpiece, hshows, hshown⟩ :=
      Position.getElem?_lines (isIn_of_read hread p hp) (toList_ne_nil_of_read hread hp) hfeed
    exact p.pointsInto_report hline hpiece hshows hshown
  · refine ⟨_, rfl, Excerpt.chars_of_beyond ?_⟩
    have hposition : p.position = Position.start.advance source.toList := hposition
    rw [hposition, Position.line_advance, Text.lines, Text.length_linesFrom hlast]
    exact Nat.lt_add_of_pos_left Nat.one_pos

theorem excerpt_of_compile_second_line :
    ∃ r, compile .default "page" "<p>\r\n<% ) %>\r\n" = .error (.compileFailed "page" [r]) ∧
      r.position = ⟨2, 4⟩ ∧ r.PointsInto "<p>\r\n<% ) %>\r\n" := by
  have hproblems : problemsOf (Scanner.ofString .default "<p>\r\n<% ) %>\r\n").tokens =
      [⟨⟨2, 4⟩, .expected .expression (.symbol .rparen)⟩] := by
    decide +kernel
  have hcompile : compile .default "page" "<p>\r\n<% ) %>\r\n" = .error (.compileFailed "page"
      [Problem.report "page" "<p>\r\n<% ) %>\r\n"
        ⟨⟨2, 4⟩, .expected .expression (.symbol .rparen)⟩]) := by
    rw [compile, readTemplate_of_problems hproblems (List.cons_ne_nil _ _)]
    rfl
  obtain ⟨reports, he, hreports⟩ := excerpt_of_compile hcompile
  cases he
  have hfeed : ¬ (⟨2, 4⟩ : Position).IsBehindFeed "<p>\r\n<% ) %>\r\n" :=
    fun h => absurd h.2 (by decide +kernel)
  exact ⟨_, hcompile, rfl, (hreports _ List.mem_cons_self).1 hfeed⟩

/-- What is missing at the end of this source is missing in its second line. That line is empty, and
the excerpt has only the first. -/
theorem missing_end_behind_feed_without_caret :
    ∃ r, compile .default "test" "<% if x %>\n" = .error (.compileFailed "test" [r]) ∧
      r.position = ⟨2, 1⟩ ∧ ¬ r.PointsInto "<% if x %>\n" := by
  have hproblems : problemsOf (Scanner.ofString .default "<% if x %>\n").tokens =
      [⟨⟨2, 1⟩, .expected .endOfConstruct .endOfInput⟩] := by
    decide +kernel
  have hread := readTemplate_of_problems hproblems (List.cons_ne_nil _ _)
  refine ⟨_, by rw [compile, hread]; rfl, rfl, ?_⟩
  rintro ⟨_, _, _, -, -, -, hinfix⟩
  have hcaret := hinfix.subset (List.mem_append_right _ (show '^' ∈ Excerpt.caretText 1 by decide))
  revert hcaret
  decide +kernel

end TextTemplate
