/-! Operations on texts: cutting at the first occurrence of another text, reading off lines, and
escaping for HTML. A line ends with a line feed, which may follow a carriage return; neither belongs
to the line. What stands after the last line feed is a line only if it is not empty. -/

namespace TextTemplate.Text

def cutAt (pattern : List Char) : List Char → Option (List Char × List Char)
  | [] => if pattern.isEmpty then some ([], []) else none
  | c :: cs =>
    if pattern.isPrefixOf (c :: cs) then
      some ([], (c :: cs).drop pattern.length)
    else
      (cutAt pattern cs).map fun (before, after) => (c :: before, after)

theorem eq_append_of_cutAt {pattern text before after : List Char}
    (h : cutAt pattern text = some (before, after)) : text = before ++ pattern ++ after := by
  induction text generalizing before after with
  | nil =>
    unfold cutAt at h
    split at h <;> simp_all
  | cons c cs ih =>
    unfold cutAt at h
    split at h
    · rename_i hp
      obtain ⟨t, ht⟩ := List.isPrefixOf_iff_prefix.1 hp
      simp only [Option.some.injEq, Prod.mk.injEq] at h
      obtain ⟨rfl, rfl⟩ := h
      rw [← ht]
      simp
    · obtain ⟨⟨b, a⟩, hc, hba⟩ := Option.map_eq_some_iff.1 h
      simp only [Prod.mk.injEq] at hba
      obtain ⟨rfl, rfl⟩ := hba
      simp [ih hc]

theorem length_of_cutAt {pattern text before after : List Char}
    (h : cutAt pattern text = some (before, after)) :
    text.length = before.length + pattern.length + after.length := by
  rw [eq_append_of_cutAt h]
  simp [Nat.add_assoc]

def dropWord? (word cs : List Char) : Option (List Char) :=
  if word.isPrefixOf cs then some (cs.drop word.length) else none

def dropReturn : List Char → List Char
  | '\r' :: line => line
  | line => line

/-- The lines of `cs`, the first of which begins with the reverse of `line`. -/
def linesFrom (line : List Char) : List Char → List String
  | [] => if line.isEmpty then [] else [String.ofList line.reverse]
  | '\n' :: cs => String.ofList (dropReturn line).reverse :: linesFrom [] cs
  | c :: cs => linesFrom (c :: line) cs

def lines (text : String) : List String :=
  linesFrom [] text.toList

def htmlEntity : Char → List Char
  | '&' => "&amp;".toList
  | '<' => "&lt;".toList
  | '>' => "&gt;".toList
  | '"' => "&quot;".toList
  | '\'' => "&#39;".toList
  | c => [c]

def escapeHtml (s : String) : String :=
  String.ofList (s.toList.flatMap htmlEntity)

end TextTemplate.Text
