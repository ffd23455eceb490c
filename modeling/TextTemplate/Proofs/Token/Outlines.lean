import TextTemplate.Proofs.Token.Spelling

/-! Templates put together from texts and script regions, under any delimiters. A delimiter that is
put after a text has to be found there and not before, and a text may hold the beginning of one. -/

namespace TextTemplate

namespace Text

/-- Whether `pattern`, put after a text, is not found before. -/
def Clear (pattern cs : List Char) : Prop :=
  ∀ rest, cutAt pattern (cs ++ (pattern ++ rest)) = some (cs, rest)

theorem clear_pair {a b : Char} {cs : List Char} (hab : a ≠ b) (h : cutAt [a, b] cs = none) :
    Clear [a, b] cs :=
  cutAt_append hab (cutAt_eq_none.1 h)

end Text

structure Outline where
  parts : List (String × List Lexeme)
  last : String

namespace Outline

def lexemes (o : Outline) : List Lexeme :=
  o.parts.flatMap (fun p => .text p.1 :: p.2) ++ if o.last.isEmpty then [] else [.text o.last]

def characters (d : Delimiters) (o : Outline) : List Char :=
  o.parts.flatMap (fun p => p.1.toList ++ (d.opening ++ ((script p.2).1 ++ d.closing)))
    ++ o.last.toList

def spell (d : Delimiters) (o : Outline) : String :=
  String.ofList (o.characters d)

structure ClearPart (d : Delimiters) (p : String × List Lexeme) : Prop where
  text : Text.Clear d.opening p.1.toList
  spellable : Spellable false p.2
  inRegion : ∀ l ∈ p.2, l.isText = false
  region : Text.Clear d.closing (script p.2).1

structure Clear (d : Delimiters) (o : Outline) : Prop where
  parts : ∀ p ∈ o.parts, ClearPart d p
  last : Text.cutAt d.opening o.last.toList = none

theorem clear_default {o : Outline}
    (hparts : ∀ p ∈ o.parts, Text.cutAt ['<', '%'] p.1.toList = none ∧ Spellable false p.2 ∧
      ∀ l ∈ p.2, l.isText = false)
    (hlast : Text.cutAt ['<', '%'] o.last.toList = none) : o.Clear .default where
  parts p hp :=
    { text := Text.clear_pair (by decide) (hparts p hp).1
      spellable := (hparts p hp).2.1
      inRegion := (hparts p hp).2.2
      region := Text.cutAt_append (by decide) (apart_script (hparts p hp).2.1) }
  last := hlast

end Outline

namespace Scanner

theorem tokens_congr {s s' : Scanner} (h : s.next = s'.next) : s.tokens = s'.tokens := by
  rw [tokens, tokens, h]

theorem tokens_region {s : Scanner} {fresh : Bool} {ls : List Lexeme} (hls : Spellable false ls)
    (ht : ∀ l ∈ ls, l.isText = false) (hmode : s.mode = .script fresh (script ls).1) :
    ∃ position, s.tokens.map Token.lexeme =
      ls ++ ({ s with mode := .text, position } : Scanner).tokens.map Token.lexeme := by
  induction ls generalizing s fresh with
  | nil =>
    obtain ⟨position, hend⟩ := s.nextScript_end
    have hnext : s.next = ({ s with mode := .text, position } : Scanner).next := by
      rw [next_blank hmode, hend]
      rfl
    exact ⟨position, by rw [tokens_congr hnext, List.nil_append]⟩
  | cons l ls ih =>
    have hl : l.isText = false := ht l List.mem_cons_self
    have hm : l.isMark = false := Bool.eq_false_iff.2 fun hm => absurd (hls.1 hm) nofun
    have hls' : Spellable false ls := hl ▸ hls.2.2
    have hne : l ≠ .endOfInput := by
      rintro rfl
      exact hls.2.1
    obtain ⟨hlexeme, p, hnext⟩ := next_spelled hls.2.1 hl hm hls' hmode
    obtain ⟨position, htokens⟩ := ih (s := s.next.2) hls'
      (fun l' hl' => ht l' (List.mem_cons_of_mem _ hl')) (congrArg mode hnext)
    rw [hnext] at htokens
    exact ⟨position, by rw [tokens_map, hlexeme, if_neg hne, hnext, htokens, List.cons_append]⟩

theorem tokens_part {s : Scanner} {p : String × List Lexeme} (hp : Outline.ClearPart s.delimiters p)
    (rest : List Char) (hmode : s.mode = .text) (hrest : s.rest =
      p.1.toList ++ (s.delimiters.opening ++ ((script p.2).1 ++ (s.delimiters.closing ++ rest)))) :
    ∃ position, s.tokens.map Token.lexeme = .text p.1 :: p.2 ++
      ({ s with mode := .text, rest, position } : Scanner).tokens.map Token.lexeme := by
  have hne : ¬ s.rest.isEmpty = true := by simp [hrest, s.delimiters.opening_ne_nil]
  have hopening := hp.text ((script p.2).1 ++ (s.delimiters.closing ++ rest))
  have hclosing := hp.region rest
  have hnext : s.next = s.nextText := by
    unfold next
    rw [hmode]
  obtain ⟨position, htext, hregion⟩ : ∃ position, s.next.1.lexeme = .text p.1 ∧ s.next.2 =
      { s with mode := .script true (script p.2).1, rest, position } := by
    rw [hnext]
    unfold nextText
    rw [if_neg hne, hrest, hopening]
    unfold openRegion
    dsimp only
    rw [hclosing]
    exact ⟨_, congrArg Lexeme.text String.ofList_toList, rfl⟩
  obtain ⟨position', htokens⟩ := tokens_region (s := { s with
    mode := .script true (script p.2).1, rest, position }) hp.spellable hp.inRegion rfl
  exact ⟨position', by rw [tokens_map, htext, if_neg nofun, hregion, htokens, List.cons_append]⟩

theorem tokens_last {s : Scanner} (hmode : s.mode = .text)
    (hlast : Text.cutAt s.delimiters.opening s.rest = none) :
    s.tokens.map Token.lexeme =
      (if s.rest.isEmpty then [] else [.text (String.ofList s.rest)]) ++ [.endOfInput] := by
  have hnext : s.next = s.nextText := by
    unfold next
    rw [hmode]
  unfold nextText at hnext
  split at hnext
  · rename_i hr
    have hend : s.next.1.lexeme = .endOfInput := by rw [hnext]; rfl
    rw [tokens_map, if_pos hend, if_pos hr, List.nil_append]
  · rename_i hr
    rw [hlast] at hnext
    have hend (position : Position) :
        ({ s with rest := [], position } : Scanner).next.1.lexeme = .endOfInput := by
      simp [next, hmode, nextText, Token.endOfInput]
    rw [tokens_map, hnext, if_neg (by simp), if_neg hr, tokens_map, if_pos (hend _)]
    rfl

theorem lexemes_spell {d : Delimiters} {o : Outline} (h : o.Clear d) :
    (ofString d (o.spell d)).lexemes = o.lexemes := by
  have htokens (parts : List (String × List Lexeme)) (hparts : ∀ p ∈ parts, Outline.ClearPart d p)
      (position : Position) : (Scanner.mk d .text (Outline.characters d ⟨parts, o.last⟩)
        position).tokens.map Token.lexeme = Outline.lexemes ⟨parts, o.last⟩ ++ [.endOfInput] := by
    -- each part leaves the scanner before the next one, but not at a position that matters
    induction parts generalizing position with
    | nil =>
      rw [tokens_last rfl h.last]
      simp [Outline.lexemes, Outline.characters]
    | cons p parts ih =>
      obtain ⟨position', htokens⟩ := tokens_part (s := Scanner.mk d .text
        (Outline.characters d ⟨p :: parts, o.last⟩) position) (hparts p List.mem_cons_self)
        (Outline.characters d ⟨parts, o.last⟩) rfl (by simp [Outline.characters])
      rw [htokens, ih fun p' hp' => hparts p' (List.mem_cons_of_mem _ hp')]
      simp [Outline.lexemes]
  have hofString : ofString d (o.spell d) = ⟨d, .text, o.characters d, .start⟩ := by
    simp [ofString, Outline.spell]
  rw [lexemes, hofString, htokens o.parts h.parts, List.dropLast_concat]

end Scanner
end TextTemplate
