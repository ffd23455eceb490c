import TextTemplate.Compile
import TextTemplate.Proofs.Grammar.ParallelTemplates
import TextTemplate.Proofs.Token.Segments

/-! Delimiters only tell texts and regions apart. What a template compiles to is decided by these,
whatever stands between them. -/

namespace TextTemplate

open Grammar

variable {d d' : Delimiters} {g : Segments}

theorem readTemplate_of_splits (h : Splits d (g.characters d) g)
    (h' : Splits d' (g.characters d') g) :
    (readTemplate d' (g.assemble d')).mapError (·.map Problem.fault) =
      (readTemplate d (g.assemble d)).mapError (·.map Problem.fault) := by
  have htokens {d : Delimiters} (h : Splits d (g.characters d) g) :
      (Scanner.ofString d (g.assemble d)).tokens.map Token.lexeme = g.lexemes ++ [.endOfInput] := by
    have htokens := h.tokens .start
    rwa [Scanner.ofString, Segments.assemble, String.toList_ofList]
  exact read_congr (htokens h) (htokens h') g.closed_lexemes

theorem messages_report (name source : String) (problems : List Problem) :
    (problems.map (Problem.report name source)).map Report.message =
      (problems.map Problem.fault).map Fault.message := by
  rw [List.map_map, List.map_map]
  rfl

/-- Under any two pairs of delimiters that split the template into the same segments, it compiles
to the same body and slots, or fails with the same messages. -/
theorem compile_of_splits (d d' : Delimiters) (g : Segments) (name name' : String)
    (h : Splits d (g.characters d) g) (h' : Splits d' (g.characters d') g) :
    (∃ p p', compile d name (g.assemble d) = .ok p ∧ compile d' name' (g.assemble d') = .ok p' ∧
      p'.body = p.body ∧ p'.slots = p.slots) ∨
    ∃ rs rs', compile d name (g.assemble d) = .error (.compileFailed name rs) ∧
      compile d' name' (g.assemble d') = .error (.compileFailed name' rs') ∧
      rs'.map Report.message = rs.map Report.message := by
  have hread := readTemplate_of_splits h h'
  unfold compile
  cases ht : readTemplate d (g.assemble d) with
  | ok tree =>
    cases ht' : readTemplate d' (g.assemble d') with
    | ok tree' =>
      rw [ht, ht'] at hread
      obtain rfl : tree' = tree := Except.ok.inj hread
      exact .inl ⟨_, _, rfl, rfl, rfl, rfl⟩
    | error problems' =>
      rw [ht, ht'] at hread
      cases hread
  | error problems =>
    cases ht' : readTemplate d' (g.assemble d') with
    | ok tree' =>
      rw [ht, ht'] at hread
      cases hread
    | error problems' =>
      rw [ht, ht'] at hread
      have hfaults : problems'.map Problem.fault = problems.map Problem.fault :=
        Except.error.inj hread
      refine .inr ⟨_, _, rfl, rfl, ?_⟩
      rw [messages_report, messages_report, hfaults]

def lineDelimiters : Delimiters := ⟨['\n'], ['\n'], by decide, by decide⟩

def outputSegments : Segments := ⟨[("total:".toList, "= x >= 10 ? 'a' : y".toList)], " %".toList⟩

theorem compile_lines_or_tags :
    Splits .default (outputSegments.characters .default) outputSegments ∧
    Splits lineDelimiters (outputSegments.characters lineDelimiters) outputSegments ∧
    outputSegments.assemble .default = "total:<%= x >= 10 ? 'a' : y%> %" ∧
    outputSegments.assemble lineDelimiters = "total:\n= x >= 10 ? 'a' : y\n %" ∧
    ((∃ p p', compile .default "page" (outputSegments.assemble .default) = .ok p ∧
      compile lineDelimiters "page" (outputSegments.assemble lineDelimiters) = .ok p' ∧
      p'.body = p.body ∧ p'.slots = p.slots) ∨
    ∃ rs rs', compile .default "page" (outputSegments.assemble .default) =
        .error (.compileFailed "page" rs) ∧
      compile lineDelimiters "page" (outputSegments.assemble lineDelimiters) =
        .error (.compileFailed "page" rs') ∧
      rs'.map Report.message = rs.map Report.message) := by
  have hopening : Text.cutAt ['<', '%'] (outputSegments.characters .default) =
      some ("total:".toList, "= x >= 10 ? 'a' : y%> %".toList) := by decide +kernel
  have hopening' : Text.cutAt ['\n'] (outputSegments.characters lineDelimiters) =
      some ("total:".toList, "= x >= 10 ? 'a' : y\n %".toList) := by decide +kernel
  have h : Splits .default (outputSegments.characters .default) outputSegments :=
    .part (g := ⟨[], " %".toList⟩) hopening (by decide +kernel) (.last (by decide +kernel))
  have h' : Splits lineDelimiters (outputSegments.characters lineDelimiters) outputSegments :=
    .part (g := ⟨[], " %".toList⟩) hopening' (by decide +kernel) (.last (by decide +kernel))
  exact ⟨h, h', by decide +kernel, by decide +kernel, compile_of_splits _ _ _ "page" "page" h h'⟩

end TextTemplate
