import TextTemplate.Proofs.Token.Splice

/-! A source as its delimiters split it, into texts and the regions between them. What a source
says is what its texts and regions say one after the other, and a region says the same under any
delimiters and wherever it stands. -/

namespace TextTemplate

namespace Text

variable {pattern cs more before after : List Char}

/-- An occurrence of the pattern begins in the first text and ends inside the one after it. -/
def Straddles (pattern cs more : List Char) : Prop :=
  ∃ n < pattern.length, 0 < n ∧ pattern.take n <:+ cs ∧ pattern.drop n <+: more

instance (pattern cs more : List Char) : Decidable (Straddles pattern cs more) := by
  unfold Straddles
  infer_instance

theorem not_straddles_nil : ¬ Straddles pattern [] more := by
  rintro ⟨n, hn, hpos, hsuffix, -⟩
  have hlength := hsuffix.length_le
  rw [List.length_take_of_le (Nat.le_of_lt hn), List.length_nil] at hlength
  omega

theorem cutAt_nil (hne : pattern ≠ []) : cutAt pattern [] = none := by
  unfold cutAt
  rw [if_neg (by simpa using hne)]

theorem cutAt_append_right (h : cutAt pattern cs = some (before, after)) (more : List Char) :
    cutAt pattern (cs ++ more) = some (before, after ++ more) := by
  induction cs generalizing before after with
  | nil =>
    unfold cutAt at h
    split at h
    · rename_i hpattern
      obtain ⟨rfl, rfl⟩ := Prod.mk.inj (Option.some.inj h)
      rw [List.isEmpty_iff.1 hpattern]
      cases more <;> simp [cutAt]
    · cases h
  | cons c cs ih =>
    have hlength := length_of_cutAt h
    rw [List.cons_append, cutAt, ← List.cons_append]
    unfold cutAt at h
    split at h
    · rename_i hpre
      rw [List.isPrefixOf_iff_prefix] at hpre
      obtain ⟨rfl, rfl⟩ := Prod.mk.inj (Option.some.inj h)
      have hpre' := hpre.trans (List.prefix_append (c :: cs) more)
      rw [if_pos (List.isPrefixOf_iff_prefix.2 hpre'), List.drop_append_of_le_length hpre.length_le]
    · rename_i hpre
      obtain ⟨⟨before', after'⟩, hcut, heq⟩ := Option.map_eq_some_iff.1 h
      obtain ⟨rfl, rfl⟩ := Prod.mk.inj heq
      have hpre' : ¬ pattern.isPrefixOf (c :: cs ++ more) = true := by
        rw [List.isPrefixOf_iff_prefix] at hpre ⊢
        exact fun h' =>
          hpre (List.prefix_of_prefix_length_le h' (List.prefix_append _ _) (by omega))
      rw [if_neg hpre', ih hcut]
      rfl

theorem cutAt_append_left (hnone : ¬ pattern <:+: cs) (hstraddle : ¬ Straddles pattern cs more) :
    cutAt pattern (cs ++ more) =
      (cutAt pattern more).map fun (before, after) => (cs ++ before, after) := by
  induction cs with
  | nil => simp
  | cons c cs ih =>
    have hnone' : ¬ pattern <:+: cs := fun h => hnone (h.trans (List.suffix_cons c cs).isInfix)
    have hstraddle' : ¬ Straddles pattern cs more := by
      rintro ⟨n, hn, hpos, hsuffix, hprefix⟩
      exact hstraddle ⟨n, hn, hpos, hsuffix.trans (List.suffix_cons c cs), hprefix⟩
    have hpre : ¬ pattern.isPrefixOf (c :: cs ++ more) = true := by
      rw [List.isPrefixOf_iff_prefix]
      rintro ⟨rest, hrest⟩
      -- the pattern would either lie in the text in front or go beyond its end
      rcases List.append_eq_append_iff.1 hrest with ⟨rest', hcs, -⟩ | ⟨back, hback, hmore⟩
      · exact hnone ⟨[], rest', by simpa using hcs.symm⟩
      · by_cases hnil : back = []
        · exact hnone ⟨[], [], by simp [hback, hnil]⟩
        · have hpos := List.length_pos_iff.2 hnil
          refine hstraddle ⟨(c :: cs).length, ?_, Nat.succ_pos _, ?_, ?_⟩
          · rw [hback, List.length_append]
            omega
          · have htake : pattern.take (c :: cs).length = c :: cs := by rw [hback, List.take_left]
            exact ⟨[], htake⟩
          · rw [hback, List.drop_left, hmore]
            exact List.prefix_append back rest
    rw [List.cons_append, cutAt, ← List.cons_append, if_neg hpre, ih hnone' hstraddle',
      Option.map_map]
    rfl

end Text

namespace Lexeme

def inScript (region : List Char) : List Lexeme :=
  match _h : region.dropWhile Text.isBlank with
  | [] => []
  | c :: cs => (scan c cs).1 :: inScript ((c :: cs).drop (scan c cs).2)
termination_by region.length
decreasing_by
  have hle := (List.dropWhile_sublist Text.isBlank (l := region)).length_le
  have hpos := scan_pos c cs
  rw [_h] at hle
  simp only [List.length_cons, List.length_drop] at hle ⊢
  omega

def ofRegion : List Char → List Lexeme
  | '=' :: region => .escapeMark :: inScript region
  | '-' :: region => .rawMark :: inScript region
  | region => inScript region

theorem inScript_nil {region : List Char} (h : region.dropWhile Text.isBlank = []) :
    inScript region = [] := by
  rw [inScript]
  split
  · rfl
  · simp_all

theorem inScript_cons {region cs : List Char} {c : Char}
    (h : region.dropWhile Text.isBlank = c :: cs) :
    inScript region = (scan c cs).1 :: inScript ((c :: cs).drop (scan c cs).2) := by
  rw [inScript]
  split
  · simp_all
  · rename_i h'
    obtain ⟨rfl, rfl⟩ := List.cons.inj (h'.symm.trans h)
    rfl

theorem inRegion_inScript (region : List Char) : ∀ l ∈ inScript region, l.inRegion := by
  induction hn : region.length using Nat.strongRecOn generalizing region with
  | ind n ih =>
    have hle := (List.dropWhile_sublist Text.isBlank (l := region)).length_le
    cases hd : region.dropWhile Text.isBlank with
    | nil =>
      rw [inScript_nil hd]
      nofun
    | cons c cs =>
      have hpos := scan_pos c cs
      rw [hd] at hle
      rw [inScript_cons hd, List.forall_mem_cons]
      refine ⟨inRegion_scan c cs, ih _ ?_ _ rfl⟩
      simp only [List.length_cons, List.length_drop] at hle ⊢
      omega

theorem inRegion_ofRegion (region : List Char) : ∀ l ∈ ofRegion region, l.inRegion := by
  unfold ofRegion
  split
  · exact List.forall_mem_cons.2 ⟨rfl, inRegion_inScript _⟩
  · exact List.forall_mem_cons.2 ⟨rfl, inRegion_inScript _⟩
  · exact inRegion_inScript _

def texts (cs : List Char) : List Lexeme :=
  if cs.isEmpty then [] else [.text (String.ofList cs)]

end Lexeme

namespace Scanner

variable {d : Delimiters}

theorem tokens_inScript (d : Delimiters) (region rest : List Char) (position : Position) :
    ∃ position', (Scanner.mk d (.script false region) rest position).tokens.map Token.lexeme =
      Lexeme.inScript region ++ (Scanner.mk d .text rest position').tokens.map Token.lexeme := by
  induction hn : region.length using Nat.strongRecOn generalizing region position with
  | ind n ih =>
    cases hblank : region.all Text.isBlank with
    | true =>
      rw [Lexeme.inScript_nil (List.dropWhile_eq_nil_iff.2 (List.all_eq_true.1 hblank))]
      exact ⟨_, congrArg _ (tokens_congr (next_closed rfl hblank))⟩
    | false =>
      obtain ⟨c, cs, hd⟩ := List.exists_cons_of_ne_nil (l := region.dropWhile Text.isBlank) <| by
        rw [Ne, List.dropWhile_eq_nil_iff, ← List.all_eq_true, hblank]
        decide
      have hle := (List.dropWhile_sublist Text.isBlank (l := region)).length_le
      have hpos := Lexeme.scan_pos c cs
      rw [hd] at hle
      have hnext : (Scanner.mk d (.script false region) rest position).next =
          Scanner.nextScript (Scanner.mk d (.script false region) rest position) region := rfl
      rw [nextScript, hd] at hnext
      have hlexeme := Lexeme.inRegion_scan c cs
      have hend : (Lexeme.scan c cs).1 ≠ .endOfInput := by
        intro h
        rw [h] at hlexeme
        cases hlexeme
      obtain ⟨position', htokens⟩ := ih _ (by
        simp only [List.length_cons, List.length_drop] at hle ⊢
        omega) ((c :: cs).drop (Lexeme.scan c cs).2) _ rfl
      refine ⟨position', ?_⟩
      rw [tokens_map, hnext, if_neg hend, Lexeme.inScript_cons hd, List.cons_append]
      exact congrArg _ htokens

theorem tokens_ofRegion (d : Delimiters) (region rest : List Char) (position : Position) :
    ∃ position', (Scanner.mk d (.script true region) rest position).tokens.map Token.lexeme =
      Lexeme.ofRegion region ++ (Scanner.mk d .text rest position').tokens.map Token.lexeme := by
  -- but for a mark at the front it makes no difference that the region is fresh
  unfold Lexeme.ofRegion
  split
  · rename_i region
    obtain ⟨position', htokens⟩ := tokens_inScript d region rest (position.advance ['='])
    exact ⟨position', by rw [tokens_map, if_neg nofun, List.cons_append]; exact congrArg _ htokens⟩
  · rename_i region
    obtain ⟨position', htokens⟩ := tokens_inScript d region rest (position.advance ['-'])
    exact ⟨position', by rw [tokens_map, if_neg nofun, List.cons_append]; exact congrArg _ htokens⟩
  · rename_i hescape hraw
    have hnext : (Scanner.mk d (.script true region) rest position).next =
        (Scanner.mk d (.script false region) rest position).next := by
      unfold next
      dsimp only
      split
      · contradiction
      · rename_i region h
        obtain ⟨-, rfl⟩ := ScanMode.script.inj h
        exact absurd rfl (hescape region)
      · rename_i region h
        obtain ⟨-, rfl⟩ := ScanMode.script.inj h
        exact absurd rfl (hraw region)
      · rename_i h
        obtain ⟨-, rfl⟩ := ScanMode.script.inj h
        rfl
      · contradiction
    obtain ⟨position', htokens⟩ := tokens_inScript d region rest position
    exact ⟨position', by rw [tokens_congr hnext, htokens]⟩

theorem next_opening {cs text after : List Char}
    (hopening : Text.cutAt d.opening cs = some (text, after)) (position : Position) :
    (Scanner.mk d .text cs position).next = (⟨.text (String.ofList text), position⟩,
      (Scanner.mk d .text cs position).openRegion (position.advance text) after) := by
  have hne : ¬ cs.isEmpty = true := by
    rintro h
    rw [List.isEmpty_iff.1 h, Text.cutAt_nil d.opening_ne_nil] at hopening
    cases hopening
  rw [next_eq_nextText rfl, nextText, if_neg hne]
  dsimp only
  rw [hopening]

theorem tokens_closed {cs text after region rest : List Char}
    (hopening : Text.cutAt d.opening cs = some (text, after))
    (hclosing : Text.cutAt d.closing after = some (region, rest)) (position : Position) :
    ∃ position', (Scanner.mk d .text cs position).tokens.map Token.lexeme =
      .text (String.ofList text) :: (Lexeme.ofRegion region ++
        (Scanner.mk d .text rest position').tokens.map Token.lexeme) := by
  have hnext := next_opening hopening position
  dsimp only [openRegion] at hnext
  rw [hclosing] at hnext
  obtain ⟨position', htokens⟩ := tokens_ofRegion d region rest
    ((position.advance text).advance d.opening)
  exact ⟨position', by rw [tokens_map, hnext, if_neg nofun, htokens]⟩

end Scanner

structure Segments where
  parts : List (List Char × List Char)
  last : List Char
  deriving Repr, DecidableEq

namespace Segments

def characters (d : Delimiters) (g : Segments) : List Char :=
  g.parts.flatMap (fun p => p.1 ++ (d.opening ++ (p.2 ++ d.closing))) ++ g.last

def assemble (d : Delimiters) (g : Segments) : String :=
  String.ofList (g.characters d)

def front (g : Segments) : List Lexeme :=
  g.parts.flatMap fun p => .text (String.ofList p.1) :: Lexeme.ofRegion p.2

def lexemes (g : Segments) : List Lexeme :=
  g.front ++ Lexeme.texts g.last

theorem mem_lexemes {g : Segments} {l : Lexeme} (h : l ∈ g.lexemes) :
    (∃ c, l = .text c) ∨ l.inRegion = true := by
  rcases List.mem_append.1 h with h | h
  · obtain ⟨p, -, hp⟩ := List.mem_flatMap.1 h
    exact (List.mem_cons.1 hp).imp (⟨_, ·⟩) (Lexeme.inRegion_ofRegion p.2 l)
  · unfold Lexeme.texts at h
    split at h
    · cases h
    · exact .inl ⟨_, List.mem_singleton.1 h⟩

theorem closed_lexemes (g : Segments) (c : String) : .unclosed c ∉ g.lexemes := by
  intro h
  rcases mem_lexemes h with ⟨_, h⟩ | h <;> cases h

theorem endOfInput_notMem_lexemes (g : Segments) : .endOfInput ∉ g.lexemes := by
  intro h
  rcases mem_lexemes h with ⟨_, h⟩ | h <;> cases h

def lead (g : Segments) : List Char :=
  match g.parts with
  | [] => g.last
  | p :: _ => p.1

/-- The segments of two sources one after the other, where the last text of the one and the first
text of the other are one text. -/
def append (g g' : Segments) : Segments :=
  match g'.parts with
  | [] => ⟨g.parts, g.last ++ g'.last⟩
  | p :: parts => ⟨g.parts ++ (g.last ++ p.1, p.2) :: parts, g'.last⟩

theorem lexemes_append {g' : Segments} (h : g' ≠ ⟨[], []⟩) : ∃ rest,
    g'.lexemes = .text (String.ofList g'.lead) :: rest ∧ ∀ g : Segments,
      (g.append g').lexemes = g.front ++ .text (String.ofList (g.last ++ g'.lead)) :: rest := by
  obtain ⟨parts, last⟩ := g'
  cases parts with
  | nil =>
    have hlast : last ≠ [] := by
      rintro rfl
      exact h rfl
    refine ⟨[], ?_, fun g => ?_⟩
    · simp [lexemes, front, lead, Lexeme.texts, hlast]
    · simp [lexemes, front, lead, append, Lexeme.texts, hlast]
  | cons p parts =>
    exact ⟨Lexeme.ofRegion p.2 ++ lexemes ⟨parts, last⟩, by simp [lexemes, front, lead],
      fun g => by simp [lexemes, front, lead, append]⟩

end Segments

/-- How the delimiters split a source: at the first opening one, at the first closing one after it,
and so on. -/
inductive Splits (d : Delimiters) : List Char → Segments → Prop
  | last {cs : List Char} (h : Text.cutAt d.opening cs = none) : Splits d cs ⟨[], cs⟩
  | part {cs text after region rest : List Char} {g : Segments}
      (hopening : Text.cutAt d.opening cs = some (text, after))
      (hclosing : Text.cutAt d.closing after = some (region, rest)) (hmore : Splits d rest g) :
      Splits d cs ⟨(text, region) :: g.parts, g.last⟩

namespace Splits

variable {d : Delimiters} {cs cs' : List Char} {g g' : Segments}

theorem unique (h : Splits d cs g) (h' : Splits d cs g') : g = g' := by
  induction h generalizing g' with
  | last h =>
    cases h' with
    | last => rfl
    | part hopening => simp [hopening] at h
  | part hopening hclosing _ ih =>
    cases h' with
    | last h => simp [hopening] at h
    | part hopening' hclosing' hmore' =>
      obtain ⟨rfl, rfl⟩ := Prod.mk.inj (Option.some.inj (hopening.symm.trans hopening'))
      obtain ⟨rfl, rfl⟩ := Prod.mk.inj (Option.some.inj (hclosing.symm.trans hclosing'))
      rw [ih hmore']

theorem tokens (h : Splits d cs g) (position : Position) :
    (Scanner.mk d .text cs position).tokens.map Token.lexeme = g.lexemes ++ [.endOfInput] := by
  induction h generalizing position with
  | last h => exact Scanner.tokens_last (s := ⟨d, .text, _, position⟩) rfl h
  | part hopening hclosing _ ih =>
    obtain ⟨position', htokens⟩ := Scanner.tokens_closed hopening hclosing position
    rw [htokens, ih]
    simp [Segments.lexemes, Segments.front]

theorem exists_or_unclosed (d : Delimiters) (cs : List Char) (position : Position) :
    (∃ g, Splits d cs g) ∨ ∃ c, .unclosed c ∈
      (Scanner.mk d .text cs position).tokens.map Token.lexeme := by
  induction hn : cs.length using Nat.strongRecOn generalizing cs position with
  | ind n ih =>
    cases hopening : Text.cutAt d.opening cs with
    | none => exact .inl ⟨_, .last hopening⟩
    | some parts =>
      obtain ⟨text, after⟩ := parts
      cases hclosing : Text.cutAt d.closing after with
      | none =>
        have hnext := Scanner.next_opening hopening position
        dsimp only [Scanner.openRegion] at hnext
        rw [hclosing] at hnext
        refine .inr ⟨String.ofList d.closing, ?_⟩
        rw [Scanner.tokens_map, hnext, if_neg nofun, Scanner.tokens_map, if_neg nofun]
        exact List.mem_cons_of_mem _ List.mem_cons_self
      | some parts =>
        obtain ⟨region, rest⟩ := parts
        have hlength := Text.length_of_cutAt hopening
        have hlength' := Text.length_of_cutAt hclosing
        have hpos := List.length_pos_iff.2 d.opening_ne_nil
        obtain ⟨position', htokens⟩ := Scanner.tokens_closed hopening hclosing position
        refine (ih rest.length (by omega) rest position' rfl).imp ?_ ?_
        · rintro ⟨g, hg⟩
          exact ⟨_, .part hopening hclosing hg⟩
        · rintro ⟨c, hc⟩
          exact ⟨c, htokens ▸ List.mem_cons_of_mem _ (List.mem_append_right _ hc)⟩

theorem append (h : Splits d cs g) (h' : Splits d cs' g')
    (hstraddle : ¬ Text.Straddles d.opening g.last cs') : Splits d (cs ++ cs') (g.append g') := by
  induction h with
  | @last cs h =>
    have hcut := Text.cutAt_append_left (Text.not_infix_of_cutAt h) hstraddle
    cases h' with
    | last h' =>
      rw [h'] at hcut
      exact .last hcut
    | part hopening hclosing hmore =>
      rw [hopening] at hcut
      exact .part hcut hclosing hmore
  | @part cs text after region rest g hopening hclosing _ ih =>
    have hpart := Splits.part (Text.cutAt_append_right hopening cs')
      (Text.cutAt_append_right hclosing cs') (ih hstraddle)
    unfold Segments.append at hpart ⊢
    dsimp only
    split at hpart
    · exact hpart
    · exact hpart

end Splits
end TextTemplate
