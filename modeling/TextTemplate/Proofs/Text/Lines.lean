import Mathlib.Data.List.Basic
import TextTemplate.Report

/-! The lines of a text are its pieces between line feeds, each less a carriage return at its end,
without the last piece if it is empty. An excerpt has a caret line behind the line of its position,
if the text has that line. -/

namespace TextTemplate

namespace Text

variable {line cs piece : List Char} {k : Nat}

/-- Whether a line is shown for a piece: the whole of it, or all but a carriage return at its
end. -/
def Shows (shown : String) (piece : List Char) : Prop :=
  piece = shown.toList ∨ piece = shown.toList ++ ['\r']

theorem shows_ofList (cs : List Char) : Shows (String.ofList cs) cs :=
  .inl String.toList_ofList.symm

theorem shows_dropReturn (line : List Char) :
    Shows (String.ofList (dropReturn line).reverse) line.reverse := by
  unfold dropReturn
  split
  · refine .inr ?_
    rw [String.toList_ofList, List.reverse_cons]
  · exact shows_ofList _

def piecesFrom (line cs : List Char) : List (List Char) :=
  (cs.splitOn '\n').modifyHead (line.reverse ++ ·)

theorem piecesFrom_empty (cs : List Char) : piecesFrom [] cs = cs.splitOn '\n' := by
  unfold piecesFrom
  cases cs.splitOn '\n' <;> rfl

theorem piecesFrom_nil (line : List Char) : piecesFrom line [] = [line.reverse] := by
  simp [piecesFrom]

theorem piecesFrom_feed (line cs : List Char) :
    piecesFrom line ('\n' :: cs) = line.reverse :: piecesFrom [] cs := by
  rw [piecesFrom_empty]
  simp [piecesFrom, List.splitOn_eq_splitOnP, List.splitOnP_cons_eq_if_modifyHead]

theorem piecesFrom_cons {c : Char} (hc : c ≠ '\n') (line cs : List Char) :
    piecesFrom line (c :: cs) = piecesFrom (c :: line) cs := by
  simp [piecesFrom, List.splitOn_eq_splitOnP, List.splitOnP_cons_eq_if_modifyHead, hc,
    Function.comp_def]

theorem length_piecesFrom (line cs : List Char) :
    (piecesFrom line cs).length = cs.count '\n' + 1 := by
  induction cs generalizing line with
  | nil => rw [piecesFrom_nil]; rfl
  | cons c cs ih =>
    by_cases hc : c = '\n'
    · rw [hc, piecesFrom_feed, List.length_cons, ih, List.count_cons_self]
    · rw [piecesFrom_cons hc, ih, List.count_cons_of_ne hc]

theorem getElem?_linesFrom (hpiece : (piecesFrom line cs)[k]? = some piece)
    (h : piece ≠ [] ∨ k < cs.count '\n') :
    ∃ shown, (linesFrom line cs)[k]? = some shown ∧ Shows shown piece := by
  induction cs generalizing line k with
  | nil =>
    rw [piecesFrom_nil] at hpiece
    obtain ⟨rfl, rfl⟩ : k = 0 ∧ line.reverse = piece := by
      cases k <;> simp_all
    have hline : line.isEmpty = false := by simpa using h
    exact ⟨_, by simp [linesFrom, hline], shows_ofList _⟩
  | cons c cs ih =>
    by_cases hc : c = '\n'
    · subst hc
      rw [piecesFrom_feed] at hpiece
      cases k with
      | zero =>
        obtain rfl := Option.some.inj hpiece
        exact ⟨_, rfl, shows_dropReturn line⟩
      | succ k => exact ih hpiece (h.imp_right (by simp))
    · rw [piecesFrom_cons hc] at hpiece
      rw [List.count_cons_of_ne hc] at h
      rw [linesFrom.eq_3 _ _ _ hc]
      exact ih hpiece h

theorem getLast?_of_piece_nil (hcs : cs ≠ [] ∨ line ≠ [])
    (h : (piecesFrom line cs)[cs.count '\n']? = some []) : cs.getLast? = some '\n' := by
  induction cs generalizing line with
  | nil =>
    rw [piecesFrom_nil] at h
    simp_all
  | cons c cs ih =>
    by_cases hc : c = '\n'
    · subst hc
      rw [piecesFrom_feed, List.count_cons_self, List.getElem?_cons_succ] at h
      by_cases hnil : cs = []
      · rw [hnil]
        rfl
      · rw [List.getLast?_cons_of_ne_nil hnil]
        exact ih (.inl hnil) h
    · rw [piecesFrom_cons hc, List.count_cons_of_ne hc] at h
      have hlast := ih (.inr (List.cons_ne_nil c line)) h
      rw [List.getLast?_cons, hlast]
      rfl

theorem length_linesFrom (h : cs.getLast? = some '\n') :
    (linesFrom line cs).length = cs.count '\n' := by
  induction cs generalizing line with
  | nil => cases h
  | cons c cs ih =>
    by_cases hnil : cs = []
    · subst hnil
      obtain rfl := Option.some.inj h
      rfl
    rw [List.getLast?_cons_of_ne_nil hnil] at h
    by_cases hc : c = '\n'
    · subst hc
      rw [List.count_cons_self, ← ih h]
      rfl
    · rw [linesFrom.eq_3 _ _ _ hc, List.count_cons_of_ne hc, ih h]

end Text

namespace Excerpt

variable {source line : String} {p : Position}

theorem mem_number {n k : Nat} {l : String} {ls : List String} :
    (k, l) ∈ number n ls ↔ ∃ j, k = n + j ∧ ls[j]? = some l := by
  induction ls generalizing n with
  | nil => simp [number]
  | cons l' ls ih =>
    rw [number, List.mem_cons, ih]
    constructor
    · rintro (h | ⟨j, hk, hj⟩)
      · obtain ⟨rfl, rfl⟩ := Prod.mk.inj h
        exact ⟨0, rfl, rfl⟩
      · exact ⟨j + 1, by omega, hj⟩
    · rintro ⟨_ | j, hk, hj⟩
      · exact .inl (Prod.ext hk (Option.some.inj hj).symm)
      · exact .inr ⟨j, by omega, hj⟩

theorem mem_lines_ofSource {k : Nat} (hp : p.line = k + 1)
    (h : (Text.lines source)[k]? = some line) : (p.line, line) ∈ (ofSource source p).lines := by
  refine List.mem_filter.2 ⟨mem_number.2 ⟨k, by omega, h⟩, ?_⟩
  simp only [Bool.and_eq_true, decide_eq_true_eq]
  omega

theorem caret_infix {k : Nat} (hp : p.line = k + 1) (h : (Text.lines source)[k]? = some line) :
    lineText p.line line ++ caretText p.column <:+: (ofSource source p).chars := by
  obtain ⟨before, after, hlines⟩ := List.append_of_mem (mem_lines_ofSource hp h)
  rw [chars, hlines, List.flatMap_append, List.flatMap_cons]
  dsimp only
  rw [if_pos (show p.line = (ofSource source p).position.line from rfl)]
  exact List.infix_append' ..

theorem chars_of_beyond (h : (Text.lines source).length < p.line) :
    (ofSource source p).chars =
      (ofSource source p).lines.flatMap fun l => lineText l.1 l.2 := by
  refine List.flatMap_congr fun l hl => ?_
  obtain ⟨j, hl, hline⟩ := mem_number.1 (List.mem_filter.1 hl).1
  have hlt := (List.getElem?_eq_some_iff.1 hline).1
  have hne : l.1 ≠ (ofSource source p).position.line := by
    change l.1 ≠ p.line
    omega
  exact (congrArg _ (if_neg hne)).trans (List.append_nil _)

end Excerpt
end TextTemplate
