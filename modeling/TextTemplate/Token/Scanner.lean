import TextTemplate.Token.Lexeme
import TextTemplate.Text

/-! Splitting a template into tokens. Outside script regions everything up to the next opening
delimiter is one text token, possibly empty. A region runs to the first closing delimiter after
it, whatever stands inside. One that is not closed gives a single token that says so, after which
the template ends. -/

namespace TextTemplate

inductive ScanMode where
  | text
  /-- In a region of which `region` is left; `fresh` right after its opening delimiter. -/
  | script (fresh : Bool) (region : List Char)
  | unclosed (opened : Position)
  deriving Repr, DecidableEq

/-- A scanner of a template text. In a region, `rest` is what follows its closing delimiter. -/
structure Scanner where
  delimiters : Delimiters
  mode : ScanMode
  rest : List Char
  position : Position

namespace Scanner

def ofString (delimiters : Delimiters) (source : String) : Scanner :=
  ⟨delimiters, .text, source.toList, .start⟩

def openRegion (s : Scanner) (opened : Position) (after : List Char) : Scanner :=
  let position := opened.advance s.delimiters.opening
  match Text.cutAt s.delimiters.closing after with
  | some (region, rest) => { s with mode := .script true region, rest, position }
  | none => { s with mode := .unclosed opened, rest := after, position }

def nextText (s : Scanner) : Token × Scanner :=
  if s.rest.isEmpty then (.endOfInput s.position, s)
  else
    match Text.cutAt s.delimiters.opening s.rest with
    | some (before, after) =>
      (⟨.text (String.ofList before), s.position⟩, s.openRegion (s.position.advance before) after)
    | none =>
      (⟨.text (String.ofList s.rest), s.position⟩,
        { s with rest := [], position := s.position.advance s.rest })

def take (s : Scanner) (region : List Char) (n : Nat) : Scanner :=
  { s with mode := .script false (region.drop n), position := s.position.advance (region.take n) }

def nextScript (s : Scanner) (region : List Char) : Token × Scanner :=
  let blanks := region.takeWhile Text.isBlank
  let position := s.position.advance blanks
  match region.dropWhile Text.isBlank with
  | [] =>
    nextText { s with mode := .text, position := position.advance s.delimiters.closing }
  | c :: cs =>
    let (lexeme, n) := Lexeme.scan c cs
    (⟨lexeme, position⟩, take { s with position } (c :: cs) n)

def next (s : Scanner) : Token × Scanner :=
  match s.mode with
  | .text => s.nextText
  | .script true ('=' :: region) => (⟨.escapeMark, s.position⟩, s.take ('=' :: region) 1)
  | .script true ('-' :: region) => (⟨.rawMark, s.position⟩, s.take ('-' :: region) 1)
  | .script _ region => s.nextScript region
  | .unclosed opened =>
    (⟨.unclosed (String.ofList s.delimiters.closing), opened⟩,
      { s with mode := .text, rest := [], position := s.position.advance s.rest })

def remaining (s : Scanner) : Nat :=
  match s.mode with
  | .text => 2 * s.rest.length
  | .script _ region => 2 * (region.length + s.rest.length) + 1
  | .unclosed _ => 2 * s.rest.length + 1

theorem remaining_openRegion_le (s : Scanner) (opened : Position) (after : List Char) :
    (s.openRegion opened after).remaining ≤ 2 * after.length + 1 := by
  unfold openRegion
  split
  · rename_i region rest h
    have := Text.length_of_cutAt h
    simp only [remaining]
    omega
  · simp [remaining]

theorem remaining_nextText {s : Scanner} (hm : s.mode = .text)
    (h : s.nextText.1.lexeme ≠ .endOfInput) : s.nextText.2.remaining < 2 * s.rest.length := by
  have hne := List.length_pos_iff.2 s.delimiters.opening_ne_nil
  unfold nextText at h ⊢
  split at h
  · simp [Token.endOfInput] at h
  rename_i hr
  rw [if_neg hr]
  split
  · rename_i before after hc
    have hl := Text.length_of_cutAt hc
    have := remaining_openRegion_le s (s.position.advance before) after
    dsimp only
    omega
  · have : s.rest ≠ [] := by simpa using hr
    have := List.length_pos_iff.2 this
    simp only [remaining, hm, List.length_nil]
    omega

theorem remaining_take_lt (s : Scanner) {region : List Char} {n : Nat} (hn : 0 < n)
    (hr : region ≠ []) :
    (s.take region n).remaining < 2 * (region.length + s.rest.length) + 1 := by
  have := List.length_pos_iff.2 hr
  simp only [take, remaining, List.length_drop]
  omega

theorem remaining_nextScript {s : Scanner} {region : List Char}
    (h : (s.nextScript region).1.lexeme ≠ .endOfInput) :
    (s.nextScript region).2.remaining < 2 * (region.length + s.rest.length) + 1 := by
  have hd := (List.dropWhile_sublist Text.isBlank (l := region)).length_le
  unfold nextScript at h ⊢
  dsimp only at h ⊢
  split
  · rename_i hb
    rw [hb] at h
    exact Nat.lt_of_lt_of_le (remaining_nextText rfl h) (by simp only; omega)
  · rename_i c cs hb
    rw [hb] at hd
    exact Nat.lt_of_lt_of_le (remaining_take_lt _ (Lexeme.scan_pos c cs) (by simp))
      (by simp only; omega)

theorem remaining_next {s : Scanner} (h : s.next.1.lexeme ≠ .endOfInput) :
    s.next.2.remaining < s.remaining := by
  unfold next at h ⊢
  split
  · rename_i hm
    rw [hm] at h
    exact Nat.lt_of_lt_of_eq (remaining_nextText hm h) (by simp [remaining, hm])
  · rename_i region hm
    exact Nat.lt_of_lt_of_eq (s.remaining_take_lt Nat.one_pos (by simp)) (by simp [remaining, hm])
  · rename_i region hm
    exact Nat.lt_of_lt_of_eq (s.remaining_take_lt Nat.one_pos (by simp)) (by simp [remaining, hm])
  · rename_i fresh region h1 h2 hm
    refine Nat.lt_of_lt_of_eq (remaining_nextScript ?_) (by simp [remaining, hm])
    intro he
    apply h
    split <;> simp_all
  · rename_i opened hm
    simp [remaining, hm]

def tokens (s : Scanner) : List Token :=
  match _h : s.next with
  | (t, later) => if _hl : t.lexeme = .endOfInput then [t] else t :: later.tokens
termination_by s.remaining
decreasing_by
  have := remaining_next (s := s) (by rw [_h]; exact _hl)
  rwa [_h] at this

def lexemes (s : Scanner) : List Lexeme :=
  (s.tokens.map Token.lexeme).dropLast

def exhaust (s : Scanner) : Scanner :=
  match _h : s.next with
  | (t, later) => if _hl : t.lexeme = .endOfInput then later else later.exhaust
termination_by s.remaining
decreasing_by
  have := remaining_next (s := s) (by rw [_h]; exact _hl)
  rwa [_h] at this

theorem lexemes_tokens (s : Scanner) :
    s.tokens.map Token.lexeme = s.lexemes ++ [.endOfInput] ∧ .endOfInput ∉ s.lexemes := by
  unfold lexemes
  fun_induction tokens s with
  | case1 s t later hnext hend => simp [hend]
  | case2 s t later hnext hend ih =>
    have hne : later.tokens.map Token.lexeme ≠ [] := by
      intro h
      rw [h] at ih
      simp at ih
    rw [List.map_cons, List.dropLast_cons_of_ne_nil hne]
    refine ⟨congrArg _ ih.1, ?_⟩
    simp only [List.mem_cons, not_or]
    exact ⟨fun h => hend h.symm, ih.2⟩

end Scanner
end TextTemplate
