import TextTemplate.Proofs.Token.Outlines
import TextTemplate.Proofs.Token.Tiling

/-! The tokens before a region do not depend on what comes after them. -/

namespace TextTemplate

/-- Characters behind which an opening delimiter opens a region: texts, each but the last with a
region after it. -/
inductive Outside (d : Delimiters) : List Char → Prop
  | text {cs : List Char} (h : Text.Clear d.opening cs) : Outside d cs
  | region {cs region more : List Char} (htext : Text.Clear d.opening cs)
      (hregion : Text.Clear d.closing region) (hmore : Outside d more) :
      Outside d (cs ++ (d.opening ++ (region ++ (d.closing ++ more))))

namespace Scanner

theorem tokens_cons {s : Scanner} (h : s.next.1.lexeme ≠ .endOfInput) :
    s.tokens = s.next.1 :: s.next.2.tokens := by
  rw [tokens]
  split
  rename_i t later hnext
  rw [hnext] at h ⊢
  exact dif_neg h

theorem next_rest {s : Scanner} {fresh : Bool} {region : List Char}
    (hmode : s.mode = .script fresh region) (hblank : region.all Text.isBlank = false)
    (rest : List Char) :
    ({ s with rest } : Scanner).next = (s.next.1, { s.next.2 with rest }) := by
  have hdrop : region.dropWhile Text.isBlank ≠ [] := by
    rw [Ne, List.dropWhile_eq_nil_iff, ← List.all_eq_true, hblank]
    decide
  obtain ⟨c, cs, hd⟩ := List.exists_cons_of_ne_nil hdrop
  unfold next
  dsimp only
  rw [hmode]
  split
  · contradiction
  · rfl
  · rfl
  · rename_i h
    obtain ⟨-, rfl⟩ := ScanMode.script.inj h
    unfold nextScript
    rw [hd]
    rfl
  · contradiction

theorem tokens_script (d : Delimiters) (fresh : Bool) (region : List Char) (position : Position) :
    ∃ ts, .endOfInput ∉ ts.map Token.lexeme ∧ ∀ rest,
      (Scanner.mk d (.script fresh region) rest position).tokens =
        ts ++ (Scanner.mk d .text rest (position.advance (region ++ d.closing))).tokens := by
  induction hn : region.length using Nat.strongRecOn generalizing fresh region position with
  | ind n ih =>
    cases hblank : region.all Text.isBlank with
    | true => exact ⟨[], nofun, fun rest => tokens_congr (next_closed rfl hblank)⟩
    | false =>
      obtain ⟨spelled, left, t, hregion, hne, ht, -, -, hnext⟩ :=
        next_region (s := ⟨d, .script fresh region, [], position⟩) rfl hblank
      have hstep (rest : List Char) := next_rest (s := ⟨d, .script fresh region, [], position⟩)
        rfl hblank rest
      rw [hnext] at hstep
      generalize region.takeWhile Text.isBlank = blanks at hregion hstep
      subst hregion
      have hlt : left.length < n := by
        have hpos := List.length_pos_iff.2 hne
        simp only [List.length_append] at hn
        omega
      have hend : t.lexeme ≠ .endOfInput := by
        intro h
        rw [h] at ht
        cases ht
      obtain ⟨ts, hts, htokens⟩ :=
        ih left.length hlt false left (position.advance (blanks ++ spelled)) rfl
      refine ⟨t :: ts, ?_, fun rest => ?_⟩
      · simp only [List.map_cons, List.mem_cons, not_or]
        exact ⟨hend.symm, hts⟩
      · have hposition : (position.advance (blanks ++ spelled)).advance (left ++ d.closing) =
            position.advance (blanks ++ (spelled ++ left) ++ d.closing) := by
          simp only [← Position.advance_append, List.append_assoc]
        have hcons := tokens_cons (s := ⟨d, .script fresh (blanks ++ (spelled ++ left)), rest,
          position⟩) (by rwa [hstep])
        rw [hcons, hstep, ← hposition, List.cons_append]
        exact congrArg (t :: ·) (htokens rest)

theorem next_clear {d : Delimiters} {cs : List Char} (h : Text.Clear d.opening cs)
    (after : List Char) (position : Position) :
    (Scanner.mk d .text (cs ++ (d.opening ++ after)) position).next =
      (⟨.text (String.ofList cs), position⟩,
        (Scanner.mk d .text [] position).openRegion (position.advance cs) after) := by
  have hne : ¬ (cs ++ (d.opening ++ after)).isEmpty = true := by simp [d.opening_ne_nil]
  rw [next_eq_nextText rfl, nextText, if_neg hne]
  dsimp only
  rw [h after]
  rfl

theorem openRegion_clear {d : Delimiters} {region : List Char} (h : Text.Clear d.closing region)
    (s : Scanner) (hd : s.delimiters = d) (opened : Position) (rest : List Char) :
    s.openRegion opened (region ++ (d.closing ++ rest)) =
      ⟨d, .script true region, rest, opened.advance d.opening⟩ := by
  subst hd
  rw [openRegion, h rest]

theorem tokens_outside {d : Delimiters} {cs : List Char} (h : Outside d cs) (position : Position) :
    ∃ ts c, .endOfInput ∉ ts.map Token.lexeme ∧
      (ts.map Token.lexeme).getLast? = some (.text c) ∧
      ∀ region rest, Text.Clear d.closing region →
        (Scanner.mk d .text (cs ++ (d.opening ++ (region ++ (d.closing ++ rest))))
          position).tokens =
          ts ++ (Scanner.mk d (.script true region) rest
            (position.advance (cs ++ d.opening))).tokens := by
  induction h generalizing position with
  | @text cs hcs =>
    refine ⟨[⟨.text (String.ofList cs), position⟩], _, by simp, rfl, fun region rest hregion => ?_⟩
    have hnext := next_clear hcs (region ++ (d.closing ++ rest)) position
    rw [openRegion_clear hregion _ rfl, ← Position.advance_append] at hnext
    rw [tokens_cons (by rw [hnext]; nofun), hnext]
    rfl
  | @region cs region more hcs hregion _ ih =>
    let inside := position.advance (cs ++ d.opening)
    obtain ⟨ts, hts, hscript⟩ := tokens_script d true region inside
    obtain ⟨us, c, hus, hlast, hmore⟩ := ih (inside.advance (region ++ d.closing))
    refine ⟨⟨.text (String.ofList cs), position⟩ :: (ts ++ us), c, ?_, ?_, fun region' rest h => ?_⟩
    · simp [hts, hus]
    · rw [← List.cons_append, List.map_append, List.getLast?_append, hlast]
      rfl
    · have hnext := next_clear hcs (region ++ (d.closing ++ (more ++ (d.opening ++
        (region' ++ (d.closing ++ rest)))))) position
      rw [openRegion_clear hregion _ rfl, ← Position.advance_append] at hnext
      have hcons := tokens_cons (by rw [hnext]; nofun)
      rw [hnext, hscript, hmore region' rest h] at hcons
      simp only [List.append_assoc, List.cons_append, inside, ← Position.advance_append] at hcons ⊢
      exact hcons

theorem tokens_text (d : Delimiters) (rest : List Char) (position : Position) :
    ∃ t ts, (Scanner.mk d .text rest position).tokens = t :: ts ∧ t.position = position ∧
      (t.lexeme = .endOfInput ∧ ts = [] ∨
        (∃ c, t.lexeme = .text c) ∧ ∃ t' ∈ ts, t'.lexeme = .endOfInput) := by
  have hnext : (Scanner.mk d .text rest position).next = _ := next_eq_nextText rfl
  have htoken : (Scanner.mk d .text rest position).next.1.position = position ∧
      ((Scanner.mk d .text rest position).next.1.lexeme = .endOfInput ∨
        ∃ c, (Scanner.mk d .text rest position).next.1.lexeme = .text c) := by
    rw [hnext, nextText]
    split
    · exact ⟨rfl, .inl rfl⟩
    · split
      · exact ⟨rfl, .inr ⟨_, rfl⟩⟩
      · exact ⟨rfl, .inr ⟨_, rfl⟩⟩
  rw [tokens]
  split
  rename_i t later h
  rw [h] at htoken
  obtain ⟨hposition, hlexeme⟩ := htoken
  split
  · rename_i hend
    exact ⟨t, [], rfl, hposition, .inl ⟨hend, rfl⟩⟩
  · rename_i hend
    have hmem : .endOfInput ∈ later.tokens.map Token.lexeme := by
      rw [later.lexemes_tokens.1]
      exact List.mem_append_right _ List.mem_cons_self
    exact ⟨t, later.tokens, rfl, hposition, .inr ⟨hlexeme.resolve_left hend, List.mem_map.1 hmem⟩⟩

end Scanner
end TextTemplate
