import Mathlib.Data.List.TakeWhile
import TextTemplate.Proofs.Text.Lines

/-! Where the caret of an excerpt stands. The line above it comes after a label that grows with the
number of the line once that has more than four digits; the margin of the caret does not. -/

namespace TextTemplate

theorem Text.feed_notMem_linesFrom {line cs : List Char} (hline : '\n' ∉ line) :
    ∀ l ∈ linesFrom line cs, '\n' ∉ l.toList := by
  induction cs generalizing line with
  | nil =>
    unfold linesFrom
    split <;> simp [hline]
  | cons c cs ih =>
    by_cases hc : c = '\n'
    · subst hc
      have hfirst : '\n' ∉ (dropReturn line).reverse := by
        unfold dropReturn
        split <;> simp_all
      rw [linesFrom, List.forall_mem_cons, String.toList_ofList]
      exact ⟨hfirst, ih List.not_mem_nil⟩
    · rw [linesFrom.eq_3 _ _ _ hc]
      exact ih (by simp [hline, Ne.symm hc])

theorem Text.getElem?_lines_feeds (n : Nat) :
    (lines (String.ofList (List.replicate n '\n' ++ ['x'])))[n]? = some "x" := by
  rw [lines, String.toList_ofList]
  induction n with
  | zero => rfl
  | succ n ih =>
    rw [List.replicate_succ, List.cons_append, linesFrom, List.getElem?_cons_succ]
    exact ih

namespace Excerpt

def rows (e : Excerpt) : List (List Char) :=
  e.text.toList.splitOn '\n'

def linesBefore (e : Excerpt) : Nat :=
  (e.lines.takeWhile fun l => l.1 ≠ e.position.line).length

/-- Whether the caret stands as far from the start of its row as the column does in the row above,
where the line comes after a label. -/
def CaretUnderColumn (e : Excerpt) (line : String) : Prop :=
  ∃ label margin, e.rows[e.linesBefore]? = some (label ++ line.toList) ∧
    e.rows[e.linesBefore + 1]? = some (margin ++ ['^']) ∧ '^' ∉ margin ∧
    margin.length = label.length + (e.position.column - 1)

def lineRow (n : Nat) (line : String) : List Char :=
  lineLabel n ++ " | ".toList ++ line.toList

def caretMargin (column : Nat) : List Char :=
  "     | ".toList ++ List.replicate (column - 1) ' '

theorem length_lineLabel (n : Nat) : (lineLabel n).length = max 4 (Nat.toDigits 10 n).length := by
  rw [lineLabel, List.length_append, List.length_replicate]
  omega

theorem feed_notMem_lineLabel (n : Nat) : '\n' ∉ lineLabel n := by
  intro h
  rcases List.mem_append.1 h with hpad | hdigit
  · cases List.eq_of_mem_replicate hpad
  · cases Nat.isDigit_of_mem_toDigits (by decide) (by decide) hdigit

theorem feed_notMem_lineRow (n : Nat) {line : String} (h : '\n' ∉ line.toList) :
    '\n' ∉ lineRow n line := by
  simp [lineRow, feed_notMem_lineLabel, h]

theorem splitOn_lineText (n : Nat) {line : String} (h : '\n' ∉ line.toList) (cs : List Char) :
    (lineText n line ++ cs).splitOn '\n' = lineRow n line :: cs.splitOn '\n' := by
  have hrow := List.splitOn_append_cons_self_of_not_mem (feed_notMem_lineRow n h) cs
  simpa [lineText, lineRow] using hrow

theorem splitOn_lineTexts {ls : List (Nat × String)} (h : ∀ l ∈ ls, '\n' ∉ l.2.toList)
    (cs : List Char) :
    (ls.flatMap (fun l => lineText l.1 l.2) ++ cs).splitOn '\n' =
      ls.map (fun l => lineRow l.1 l.2) ++ cs.splitOn '\n' := by
  induction ls with
  | nil => rfl
  | cons l ls ih =>
    rw [List.forall_mem_cons] at h
    rw [List.flatMap_cons, List.append_assoc, splitOn_lineText l.1 h.1, ih h.2]
    rfl

theorem mem_caretMargin {column : Nat} {c : Char} (h : c ∈ caretMargin column) :
    c = ' ' ∨ c = '|' := by
  rcases List.mem_append.1 h with hmark | hpad
  · have hall : "     | ".toList.all (fun c => c = ' ' ∨ c = '|') = true := by decide
    exact of_decide_eq_true (List.all_eq_true.1 hall c hmark)
  · exact .inl (List.eq_of_mem_replicate hpad)

theorem length_caretMargin (column : Nat) : (caretMargin column).length = 7 + (column - 1) := by
  have hmark : "     | ".toList.length = 7 := by decide
  unfold caretMargin
  rw [List.length_append, List.length_replicate, hmark]

theorem caretText_eq (column : Nat) : caretText column = caretMargin column ++ ['^', '\n'] := by
  have hcaret : "^\n".toList = ['^', '\n'] := by decide
  unfold caretText caretMargin
  rw [hcaret]

theorem splitOn_caretText (column : Nat) (cs : List Char) :
    (caretText column ++ cs).splitOn '\n' = (caretMargin column ++ ['^']) :: cs.splitOn '\n' := by
  have hrow : '\n' ∉ caretMargin column ++ ['^'] := by
    intro h
    rcases List.mem_append.1 h with hmargin | hcaret
    · rcases mem_caretMargin hmargin with hc | hc <;> cases hc
    · cases List.mem_singleton.1 hcaret
  have happend : caretText column ++ cs = (caretMargin column ++ ['^']) ++ '\n' :: cs := by
    simp [caretText_eq]
  rw [happend, List.splitOn_append_cons_self_of_not_mem hrow]

variable {source line : String} {p : Position} {k : Nat}

theorem lines_ofSource (hp : p.line = k + 1) (h : (Text.lines source)[k]? = some line) :
    ∃ before after, (ofSource source p).lines = before ++ (p.line, line) :: after ∧
      ∀ l ∈ before, l.1 ≠ p.line := by
  obtain ⟨before, after, hlines, hnew⟩ := List.eq_append_cons_of_mem (mem_lines_ofSource hp h)
  refine ⟨before, after, hlines, fun l hl hnumber => hnew ?_⟩
  -- there is but one line with the number
  have hl' : l ∈ (ofSource source p).lines := hlines ▸ List.mem_append_left _ hl
  obtain ⟨j, hj, hline⟩ := mem_number.1 (List.mem_filter.1 hl').1
  obtain rfl : j = k := by omega
  obtain rfl : l = (p.line, line) := Prod.ext hnumber (Option.some.inj (hline.symm.trans h))
  exact hl

theorem chars_ofSource {before after : List (Nat × String)}
    (hlines : (ofSource source p).lines = before ++ (p.line, line) :: after)
    (hother : ∀ l ∈ before, l.1 ≠ p.line) :
    ∃ cs, (ofSource source p).chars = before.flatMap (fun l => lineText l.1 l.2) ++
      (lineText p.line line ++ (caretText p.column ++ cs)) := by
  have hposition : (ofSource source p).position = p := rfl
  have hbefore : before.flatMap (fun l => lineText l.1 l.2 ++
      if l.1 = p.line then caretText p.column else []) =
        before.flatMap fun l => lineText l.1 l.2 := by
    apply List.flatMap_congr
    intro l hl
    rw [if_neg (hother l hl), List.append_nil]
  refine ⟨after.flatMap fun l => lineText l.1 l.2 ++
    if l.1 = p.line then caretText p.column else [], ?_⟩
  rw [chars, hlines, List.flatMap_append, List.flatMap_cons, hposition, hbefore]
  dsimp only
  rw [if_pos rfl, List.append_assoc]

theorem feed_notMem_lines (source : String) (p : Position) :
    ∀ l ∈ (ofSource source p).lines, '\n' ∉ l.2.toList := by
  intro l hl
  obtain ⟨j, -, hline⟩ := mem_number.1 (List.mem_filter.1 hl).1
  exact Text.feed_notMem_linesFrom List.not_mem_nil _ (List.mem_of_getElem? hline)

theorem rows_ofSource (hp : p.line = k + 1) (h : (Text.lines source)[k]? = some line) :
    ∃ before after, before.length = (ofSource source p).linesBefore ∧
      (ofSource source p).rows =
        before ++ lineRow p.line line :: (caretMargin p.column ++ ['^']) :: after := by
  obtain ⟨before, after, hlines, hother⟩ := lines_ofSource hp h
  obtain ⟨cs, hchars⟩ := chars_ofSource hlines hother
  have hfeed := feed_notMem_lines source p
  rw [hlines, List.forall_mem_append, List.forall_mem_cons] at hfeed
  refine ⟨before.map fun l => lineRow l.1 l.2, cs.splitOn '\n', ?_, ?_⟩
  · have htake : (ofSource source p).lines.takeWhile (fun l => decide (l.1 ≠ p.line)) = before := by
      rw [hlines, List.takeWhile_append_of_pos (by simpa using hother)]
      simp
    rw [List.length_map, ← congrArg List.length htake]
    rfl
  · rw [rows, text, String.toList_ofList, hchars, splitOn_lineTexts hfeed.1,
      splitOn_lineText _ hfeed.2.1, splitOn_caretText]

theorem caretUnderColumn_iff (hp : p.line = k + 1) (h : (Text.lines source)[k]? = some line) :
    (ofSource source p).CaretUnderColumn line ↔ (lineLabel p.line).length = 4 := by
  obtain ⟨before, after, hbefore, hrows⟩ := rows_ofSource hp h
  have hline : (ofSource source p).rows[(ofSource source p).linesBefore]? =
      some (lineLabel p.line ++ " | ".toList ++ line.toList) := by
    rw [hrows, ← hbefore, List.getElem?_append_right le_rfl, Nat.sub_self]
    rfl
  have hcaret : (ofSource source p).rows[(ofSource source p).linesBefore + 1]? =
      some (caretMargin p.column ++ ['^']) := by
    rw [hrows, ← hbefore, List.getElem?_append_right (Nat.le_add_right ..), Nat.add_sub_cancel_left]
    rfl
  have hlabel : (lineLabel p.line ++ " | ".toList).length = (lineLabel p.line).length + 3 := by
    rw [List.length_append]
    rfl
  have hposition : (ofSource source p).position = p := rfl
  rw [CaretUnderColumn, hline, hcaret, hposition]
  constructor
  · rintro ⟨label, margin, hlabel', hmargin, -, hlength⟩
    have h1 := List.append_cancel_right (Option.some.inj hlabel')
    have h2 := List.append_cancel_right (Option.some.inj hmargin)
    rw [← h1, ← h2, hlabel, length_caretMargin] at hlength
    omega
  · intro hfour
    refine ⟨_, _, rfl, rfl, fun hmem => ?_, ?_⟩
    · rcases mem_caretMargin hmem with hc | hc <;> cases hc
    · rw [hlabel, length_caretMargin, hfour]

/-- For each line of each source and each column, the caret of the excerpt stands under the column
just if the number of the line has at most four digits. -/
theorem caretUnderColumn_iff_line_lt (hp : p.line = k + 1)
    (h : (Text.lines source)[k]? = some line) :
    (ofSource source p).CaretUnderColumn line ↔ p.line < 10000 := by
  have hdigits : (Nat.toDigits 10 p.line).length ≤ 4 ↔ p.line < 10 ^ 4 :=
    Nat.length_toDigits_le_iff (by decide) (by decide)
  rw [caretUnderColumn_iff hp h, length_lineLabel, ← show 10 ^ 4 = 10000 from rfl, ← hdigits]
  omega

theorem caretUnderColumn_line_9999 :
    (Text.lines (String.ofList (List.replicate 9998 '\n' ++ ['x'])))[9998]? = some "x" ∧
      (ofSource (String.ofList (List.replicate 9998 '\n' ++ ['x'])) ⟨9999, 2⟩).CaretUnderColumn
        "x" := by
  have hline := Text.getElem?_lines_feeds 9998
  exact ⟨hline, (caretUnderColumn_iff_line_lt rfl hline).2 (by decide)⟩

/-- The label of line 10000 is one character longer than the margin of the caret. -/
theorem not_caretUnderColumn_line_10000 :
    (Text.lines (String.ofList (List.replicate 9999 '\n' ++ ['x'])))[9999]? = some "x" ∧
      ¬ (ofSource (String.ofList (List.replicate 9999 '\n' ++ ['x'])) ⟨10000, 1⟩).CaretUnderColumn
        "x" := by
  have hline := Text.getElem?_lines_feeds 9999
  refine ⟨hline, ?_⟩
  rw [caretUnderColumn_iff rfl hline]
  decide

end Excerpt
end TextTemplate
