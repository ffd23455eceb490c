import Mathlib.Data.List.Nodup
import TextTemplate.Proofs.Token.Written

/-! Operators are read by maximal munch: of all the operators that the rest of a region begins with
the longest is taken, and if there is none, one character. Taking as many characters as an operator
with the same first character can have, up to the end of the region and to the first character of
no operator, and giving them up one by one from the right until they are an operator, comes to the
same. -/

namespace TextTemplate

namespace Symbol

variable {text : List Char} {e e' : List Char × Symbol}

structure Longest (text : List Char) (e : List Char × Symbol) : Prop where
  mem : e ∈ table
  begins : e.1 <+: text
  longest : ∀ e' ∈ table, e'.1 <+: text → e'.1.length ≤ e.1.length

inductive Munches : List Char → Lexeme → Nat → Prop
  | operator {text : List Char} {e : List Char × Symbol} (h : Longest text e) :
    Munches text (.symbol e.2) e.1.length
  | stray {c : Char} {cs : List Char} (h : ∀ e ∈ table, ¬ e.1 <+: c :: cs) :
    Munches (c :: cs) (.invalid (String.singleton c)) 1

def isSymbolChar (c : Char) : Bool :=
  table.any fun e => e.1.contains c

def reach (first : Char) : Nat :=
  ((table.filter fun e => e.1.head? = some first).map fun e => e.1.length).max?.getD 1

def candidate : List Char → List Char
  | [] => []
  | c :: cs => ((c :: cs).take (reach c)).takeWhile isSymbolChar

def shrink? : List Char → Option (List Char × Symbol)
  | [] => none
  | c :: cs =>
    match table.find? fun e => e.1 == c :: cs with
    | some e => some e
    | none => shrink? (c :: cs).dropLast
termination_by text => text.length

def munch (c : Char) (cs : List Char) : Lexeme × Nat :=
  match shrink? (candidate (c :: cs)) with
  | some (spelling, s) => (.symbol s, spelling.length)
  | none => (.invalid (String.singleton c), 1)

theorem eq_of_spelling (he : e ∈ table) (he' : e' ∈ table) (h : e.1 = e'.1) : e = e' := by
  have hdistinct : (table.map Prod.fst).Nodup := by decide
  exact List.inj_on_of_nodup_map hdistinct he he' h

theorem spelling_ne_nil : ∀ e ∈ table, e.1 ≠ [] := by decide

theorem Longest.unique (h : Longest text e) (h' : Longest text e') : e = e' := by
  have hlength : e.1.length = e'.1.length :=
    Nat.le_antisymm (h'.longest e h.mem h.begins) (h.longest e' h'.mem h'.begins)
  refine eq_of_spelling h.mem h'.mem ?_
  rw [List.prefix_iff_eq_take.1 h.begins, List.prefix_iff_eq_take.1 h'.begins, hlength]

theorem longest_congr {text' : List Char}
    (h : ∀ e ∈ table, e.1 <+: text ↔ e.1 <+: text') : Longest text e ↔ Longest text' e := by
  constructor
  · intro hl
    exact ⟨hl.mem, (h e hl.mem).1 hl.begins, fun e' he' hb => hl.longest e' he' ((h e' he').2 hb)⟩
  · intro hl
    exact ⟨hl.mem, (h e hl.mem).2 hl.begins, fun e' he' hb => hl.longest e' he' ((h e' he').1 hb)⟩

theorem longest_of_longest? (h : longest? text = some e) : Longest text e := by
  have hsorted : table.Pairwise fun e e' => e'.1.length ≤ e.1.length := by decide
  obtain ⟨hbegins, before, after, htable, hbefore⟩ := List.find?_eq_some_iff_append.1 h
  refine ⟨List.mem_of_find?_eq_some h, List.isPrefixOf_iff_prefix.1 hbegins, fun e' he' hb => ?_⟩
  -- an operator before it in the table would have been found first
  rw [htable] at he' hsorted
  rcases List.mem_append.1 he' with he' | he'
  · have hnot := hbefore e' he'
    simp [List.isPrefixOf_iff_prefix.2 hb] at hnot
  · rcases List.mem_cons.1 he' with rfl | he'
    · exact Nat.le_refl _
    · exact (List.pairwise_cons.1 (List.pairwise_append.1 hsorted).2.1).1 e' he'

theorem longest?_eq_none_iff : longest? text = none ↔ ∀ e ∈ table, ¬ e.1 <+: text := by
  simp [longest?]

theorem longest?_eq_some_iff : longest? text = some e ↔ Longest text e := by
  refine ⟨longest_of_longest?, fun h => ?_⟩
  cases hfound : longest? text with
  | none => exact absurd h.begins (longest?_eq_none_iff.1 hfound e h.mem)
  | some e' => rw [(longest_of_longest? hfound).unique h]

theorem prefix_dropLast_iff {x : List Char} (hne : x ≠ text) :
    x <+: text.dropLast ↔ x <+: text := by
  rcases List.eq_nil_or_concat text with rfl | ⟨front, c, rfl⟩
  · rfl
  · rw [List.concat_eq_append] at hne ⊢
    rw [List.dropLast_concat, List.prefix_concat_iff, or_iff_right hne]

theorem shrink?_eq_some_iff : shrink? text = some e ↔ Longest text e := by
  fun_induction shrink? text generalizing e with
  | case1 =>
    refine ⟨nofun, fun h => ?_⟩
    exact absurd (List.prefix_nil.1 h.begins) (spelling_ne_nil e h.mem)
  | case2 c cs found hfound =>
    have hspelling : found.1 = c :: cs := by simpa using List.find?_some hfound
    have hlongest : Longest (c :: cs) found :=
      ⟨List.mem_of_find?_eq_some hfound, hspelling ▸ List.prefix_rfl,
        fun e' _ hb => by rw [hspelling]; exact hb.length_le⟩
    exact ⟨fun h => Option.some.inj h ▸ hlongest, fun h => congrArg some (hlongest.unique h)⟩
  | case3 c cs hnone ih =>
    rw [ih]
    refine longest_congr fun e he => prefix_dropLast_iff ?_
    simpa using List.find?_eq_none.1 hnone e he

theorem le_reach {c : Char} {cs : List Char} (he : e ∈ table) (h : e.1 = c :: cs) :
    e.1.length ≤ reach c := by
  refine List.le_max?_getD_of_mem (List.mem_map.2 ⟨e, List.mem_filter.2 ⟨he, ?_⟩, rfl⟩)
  simp [h]

theorem prefix_candidate_iff (he : e ∈ table) : e.1 <+: candidate text ↔ e.1 <+: text := by
  constructor
  · intro h
    refine h.trans ?_
    cases text with
    | nil => exact List.prefix_rfl
    | cons c cs => exact (List.takeWhile_prefix _).trans (List.take_prefix _ _)
  · rintro ⟨rest, rfl⟩
    obtain ⟨c, cs, hcs⟩ := List.exists_cons_of_ne_nil (spelling_ne_nil e he)
    have hchars : ∀ d ∈ e.1, isSymbolChar d = true := fun d hd =>
      List.any_eq_true.2 ⟨e, he, by simpa using hd⟩
    have hcandidate : candidate (e.1 ++ rest) =
        ((e.1 ++ rest).take (reach c)).takeWhile isSymbolChar := by
      rw [hcs]
      rfl
    rw [hcandidate, List.take_append, List.take_of_length_le (le_reach he hcs),
      List.takeWhile_append_of_pos hchars]
    exact List.prefix_append _ _

theorem shrink?_candidate (text : List Char) : shrink? (candidate text) = longest? text := by
  refine Option.ext fun e => ?_
  rw [shrink?_eq_some_iff, longest?_eq_some_iff]
  exact longest_congr fun e he => prefix_candidate_iff he

theorem exists_head_of_isSymbolChar {c : Char} (hc : isSymbolChar c = true) :
    ∃ e ∈ table, e.1.head? = some c := by
  have hheads : (table.all fun e => e.1.all fun d => table.any fun e' =>
      e'.1.head? == some d) = true := by decide
  obtain ⟨e, he, hmem⟩ := List.any_eq_true.1 hc
  have hd := List.all_eq_true.1 (List.all_eq_true.1 hheads e he) c (by simpa using hmem)
  obtain ⟨e', he', hhead⟩ := List.any_eq_true.1 hd
  exact ⟨e', he', beq_iff_eq.1 hhead⟩

theorem scan_symbolChar {c : Char} (hc : isSymbolChar c = true) (cs : List Char) :
    Text.isBlank c = false ∧ Lexeme.scan c cs =
      match longest? (c :: cs) with
      | some (spelling, s) => (.symbol s, spelling.length)
      | none => (.invalid (String.singleton c), 1) := by
  obtain ⟨e, he, hhead⟩ := exists_head_of_isSymbolChar hc
  obtain ⟨c', cs', hcs', hblank, hquote, hdigit, hletter⟩ := Written.head_table e he
  obtain rfl : c' = c := by simpa [hcs'] using hhead
  refine ⟨hblank, ?_⟩
  unfold Lexeme.scan
  rw [if_neg hquote, if_neg (by simp [hdigit])]
  exact if_neg (by simp [hletter])

theorem munch_eq_scan {c : Char} (hc : isSymbolChar c = true) (cs : List Char) :
    munch c cs = Lexeme.scan c cs := by
  rw [munch, shrink?_candidate, (scan_symbolChar hc cs).2]

theorem scan_eq_iff_munches {c : Char} (hc : isSymbolChar c = true) (cs : List Char)
    (lexeme : Lexeme) (n : Nat) :
    Lexeme.scan c cs = (lexeme, n) ↔ Munches (c :: cs) lexeme n := by
  rw [(scan_symbolChar hc cs).2]
  constructor
  · intro h
    cases hfound : longest? (c :: cs) with
    | some e =>
      simp only [hfound, Prod.mk.injEq] at h
      obtain ⟨rfl, rfl⟩ := h
      exact .operator (longest?_eq_some_iff.1 hfound)
    | none =>
      simp only [hfound, Prod.mk.injEq] at h
      obtain ⟨rfl, rfl⟩ := h
      exact .stray (longest?_eq_none_iff.1 hfound)
  · intro h
    cases h with
    | operator h => rw [longest?_eq_some_iff.2 h]
    | stray h => rw [longest?_eq_none_iff.2 h]

end Symbol

namespace Scanner

variable {s : Scanner} {fresh : Bool} {blanks region cs : List Char} {c : Char}

theorem next_eq_nextScript (hmode : s.mode = .script fresh region)
    (hmark : fresh = true → region.head? ≠ some '=' ∧ region.head? ≠ some '-') :
    s.next = s.nextScript region := by
  unfold next
  rw [hmode]
  split
  · contradiction
  · rename_i h
    obtain ⟨rfl, rfl⟩ := ScanMode.script.inj h
    exact absurd rfl (hmark rfl).1
  · rename_i h
    obtain ⟨rfl, rfl⟩ := ScanMode.script.inj h
    exact absurd rfl (hmark rfl).2
  · rename_i h
    obtain ⟨-, rfl⟩ := ScanMode.script.inj h
    rfl
  · contradiction

theorem nextScript_scan (hblanks : blanks.all Text.isBlank = true) (hc : Text.isBlank c = false) :
    s.nextScript (blanks ++ c :: cs) =
      (⟨(Lexeme.scan c cs).1, s.position.advance blanks⟩,
        { s with
          mode := .script false ((c :: cs).drop (Lexeme.scan c cs).2)
          position := s.position.advance (blanks ++ (c :: cs).take (Lexeme.scan c cs).2) }) := by
  rw [List.all_eq_true] at hblanks
  have htake : (blanks ++ c :: cs).takeWhile Text.isBlank = blanks := by
    rw [List.takeWhile_append_of_pos hblanks]
    simp [hc]
  have hdrop : (blanks ++ c :: cs).dropWhile Text.isBlank = c :: cs := by
    rw [List.dropWhile_append_of_pos hblanks]
    simp [hc]
  rw [nextScript, htake, hdrop, Position.advance_append]
  rfl

end Scanner

/-- Where a region goes on with a character of an operator, the token is the longest operator that
the rest of the region begins with, and just its characters are taken; or, if there is none, that
one character is taken as no part of the language. What follows the region does not matter. Reading
off the candidate of an operator gives the same. -/
theorem operator_is_longest_in_region {c : Char} (hc : Symbol.isSymbolChar c = true)
    (cs : List Char) :
    (∀ lexeme n, Lexeme.scan c cs = (lexeme, n) ↔ Symbol.Munches (c :: cs) lexeme n) ∧
    Symbol.munch c cs = Lexeme.scan c cs ∧
    ∀ (s : Scanner) (fresh : Bool) (blanks : List Char),
      s.mode = .script fresh (blanks ++ c :: cs) → blanks.all Text.isBlank = true →
      (fresh = true → blanks = [] → c ≠ '=' ∧ c ≠ '-') →
      ∀ lexeme n, Symbol.Munches (c :: cs) lexeme n →
        s.next = (⟨lexeme, s.position.advance blanks⟩,
          { s with
            mode := .script false ((c :: cs).drop n)
            position := s.position.advance (blanks ++ (c :: cs).take n) }) := by
  have hblank := (Symbol.scan_symbolChar hc cs).1
  refine ⟨Symbol.scan_eq_iff_munches hc cs, Symbol.munch_eq_scan hc cs, ?_⟩
  intro s fresh blanks hmode hblanks hmark lexeme n hmunches
  have hscan := (Symbol.scan_eq_iff_munches hc cs lexeme n).2 hmunches
  have hnext : s.next = s.nextScript (blanks ++ c :: cs) := by
    refine Scanner.next_eq_nextScript hmode fun hfresh => ?_
    cases blanks with
    | nil => simpa using hmark hfresh rfl
    | cons b blanks =>
      -- the marks are no blanks
      have hb : Text.isBlank b = true := List.all_eq_true.1 hblanks b List.mem_cons_self
      constructor <;> · rintro ⟨⟩; cases hb
  rw [hnext, Scanner.nextScript_scan hblanks hblank, hscan]

/-- Before a closing delimiter `=>`, the `=` that ends a region is read alone, though the template
goes on with another. -/
theorem assignment_before_closing_delimiter :
    let d : Delimiters := ⟨['<', '%'], ['=', '>'], by decide, by decide⟩
    let s := (Scanner.ofString d "<% a ==>").next.2.next.2
    Symbol.isSymbolChar '=' = true ∧ s.mode = .script false ([' '] ++ ['=']) ∧
      [' '].all Text.isBlank = true ∧ Symbol.Munches ['='] (.symbol .assign) 1 ∧
      s.next.1.lexeme = .symbol .assign ∧ s.next.2.mode = .script false [] := by
  intro d s
  have hc : Symbol.isSymbolChar '=' = true := by decide
  have hmode : s.mode = .script false ([' '] ++ ['=']) := by decide +kernel
  have hmunches : Symbol.Munches ['='] (.symbol .assign) 1 :=
    .operator (e := (['='], .assign)) ⟨by decide, by decide, by decide⟩
  obtain ⟨-, -, hscanner⟩ := operator_is_longest_in_region hc []
  have hnext := hscanner s false [' '] hmode rfl nofun _ _ hmunches
  refine ⟨hc, hmode, rfl, hmunches, ?_⟩
  rw [hnext]
  exact ⟨rfl, rfl⟩

end TextTemplate
