import Mathlib.Data.List.Chain
import TextTemplate.Token.Scanner

/-! Spelling lexemes out as a template, with a blank before each lexeme and before the end of each
script region. The blank stands in front of a lexeme because scanners skip blanks first, and it
keeps a lexeme from running into the one after it. -/

namespace TextTemplate

namespace Text

def Apart (a b : Char) (cs : List Char) : Prop :=
  cs.IsChain fun x y => x = a → y ≠ b

variable {a b : Char} {cs : List Char}

theorem cutAt_eq_none : cutAt [a, b] cs = none ↔ Apart a b cs := by
  induction cs with
  | nil => simp [cutAt, Apart]
  | cons c cs ih =>
    unfold cutAt
    cases cs with
    | nil => simp [cutAt, Apart]
    | cons d cs =>
      have hpair : [a, b].isPrefixOf (c :: d :: cs) = (a == c && b == d) := by
        simp [List.isPrefixOf]
      rw [hpair, Apart, List.isChain_cons_cons, ← Apart, ← ih]
      by_cases h : (a == c && b == d) = true
      · simp only [Bool.and_eq_true, beq_iff_eq] at h
        simp [h.1, h.2]
      · rw [if_neg h, Option.map_eq_none_iff]
        simp only [Bool.and_eq_true, beq_iff_eq, not_and] at h
        exact ⟨fun hc => ⟨fun hca hdb => h hca.symm hdb.symm, hc⟩, And.right⟩

theorem cutAt_append (hab : a ≠ b) (h : Apart a b cs) (rest : List Char) :
    cutAt [a, b] (cs ++ a :: b :: rest) = some (cs, rest) := by
  induction cs with
  | nil => simp [cutAt]
  | cons c cs ih =>
    have hcs : Apart a b cs := List.IsChain.tail h
    have hpair : ¬ [a, b].isPrefixOf (c :: cs ++ a :: b :: rest) = true := by
      cases cs with
      | nil => simp [hab.symm]
      | cons d cs =>
        have hcd := (List.isChain_cons_cons.1 h).1
        simpa using fun hca hdb => hcd hca.symm hdb.symm
    rw [List.cons_append, cutAt, ← List.cons_append, if_neg hpair, ih hcs]
    rfl

theorem Apart.append {cs' : List Char} (h : Apart a b cs) (h' : Apart a b cs')
    (hb : cs'.head? ≠ some b) : Apart a b (cs ++ cs') :=
  List.IsChain.append h h' fun _ _ _ hy _ hyb => hb (hyb ▸ hy)

theorem Apart.cons {c : Char} (h : Apart a b cs) (hc : c ≠ a) : Apart a b (c :: cs) :=
  List.IsChain.cons h fun _ _ hca => absurd hca hc

theorem apart_of_notMem (h : a ∉ cs) : Apart a b cs := by
  induction cs with
  | nil => exact .nil
  | cons c cs ih =>
    simp only [List.mem_cons, not_or] at h
    exact (ih h.2).cons fun hca => h.1 hca.symm

theorem blankRanges_apart :
    ∀ r ∈ blankRanges, ∀ r' ∈ alphabeticRanges, r.2 < r'.1 ∨ r'.2 < r.1 := by
  decide +kernel

theorem letter_cases {c : Char} (h : isAlphabetic c = true) :
    65 ≤ c.toNat ∧ c.toNat < 0x80 ∨ 0x80 ≤ c.toNat ∧ inRanges alphabeticRanges c.toNat = true := by
  simp only [isAlphabetic, Bool.or_eq_true, Bool.and_eq_true, decide_eq_true_eq] at h
  refine h.imp_left fun ha => ?_
  rcases Bool.or_eq_true_iff.1 ha with hupper | hlower
  · have hc : c.val ≥ 'A'.val ∧ c.val ≤ 'Z'.val := of_decide_eq_true hupper
    have h1 : 65 ≤ c.toNat := UInt32.le_iff_toNat_le.1 hc.1
    have h2 : c.toNat ≤ 90 := UInt32.le_iff_toNat_le.1 hc.2
    omega
  · have hc := Bool.and_eq_true_iff.1 hlower
    have h1 : 97 ≤ c.toNat := UInt32.le_iff_toNat_le.1 (of_decide_eq_true hc.1)
    have h2 : c.toNat ≤ 122 := UInt32.le_iff_toNat_le.1 (of_decide_eq_true hc.2)
    omega

theorem isDigit_of_isAlphabetic {c : Char} (h : isAlphabetic c = true) : c.isDigit = false := by
  by_contra hd
  have hdigit : c.toNat ≤ 57 := by
    simp only [Bool.not_eq_false, Char.isDigit, Bool.and_eq_true, decide_eq_true_eq,
      UInt32.le_iff_toNat_le] at hd
    exact hd.2
  rcases letter_cases h with h | h <;> omega

theorem isBlank_of_isAlphabetic {c : Char} (h : isAlphabetic c = true) : isBlank c = false := by
  by_contra hb
  simp only [isBlank, Bool.not_eq_false, Bool.or_eq_true, beq_iff_eq, Bool.and_eq_true,
    decide_eq_true_eq, or_assoc] at hb
  have hrange : ∀ rs, inRanges rs c.toNat = true → ∃ r ∈ rs, r.1 ≤ c.toNat ∧ c.toNat ≤ r.2 := by
    intro rs hr
    simpa [inRanges] using hr
  rcases hb with rfl | ⟨h1, h2⟩ | ⟨h1, hb⟩
  · revert h
    decide +kernel
  · rcases letter_cases h with h | h <;> omega
  · rcases letter_cases h with h | ⟨-, h⟩
    · omega
    · obtain ⟨r, hr, hle, hge⟩ := hrange _ hb
      obtain ⟨r', hr', hle', hge'⟩ := hrange _ h
      have hapart := blankRanges_apart r hr r' hr'
      omega

theorem isBlank_of_isDigit {c : Char} (h : c.isDigit = true) : isBlank c = false := by
  simp only [Char.isDigit, Bool.and_eq_true, decide_eq_true_eq, ge_iff_le,
    UInt32.le_iff_toNat_le] at h
  have h1 : 48 ≤ c.toNat := h.1
  have h2 : c.toNat ≤ 57 := h.2
  by_contra hb
  simp only [isBlank, Bool.not_eq_false, Bool.or_eq_true, beq_iff_eq, Bool.and_eq_true,
    decide_eq_true_eq, or_assoc] at hb
  rcases hb with rfl | hb | hb
  · revert h1
    decide
  · omega
  · omega

end Text

namespace Lexeme

def isWord (w : String) : Bool :=
  match w.toList with
  | [] => false
  | c :: cs => Text.isAlphabetic c && cs.all Text.isAlphanumeric

def isName (w : String) : Bool :=
  isWord w && (Keyword.ofString? w).isNone

def escape : List Char → List Char
  | [] => []
  | c :: cs => if c = '"' ∨ c = '\\' then '\\' :: c :: escape cs else c :: escape cs

def characters : Lexeme → List Char
  | .escapeMark => ['=']
  | .rawMark => ['-']
  | .keyword k => k.spelling.toList
  | .name w => w.toList
  | .string s => '"' :: (escape s.toList ++ ['"'])
  | .number digits => digits.toList
  | .symbol x => x.spelling.toList
  | _ => []

def isText : Lexeme → Bool
  | .text _ => true
  | _ => false

def isMark : Lexeme → Bool
  | .escapeMark | .rawMark => true
  | _ => false

def Spellable : Lexeme → Prop
  | .text t => Text.Apart '<' '%' t.toList
  | .escapeMark | .rawMark | .keyword _ | .symbol _ => True
  | .name w => isName w = true
  | .string s => Text.Apart '%' '>' s.toList
  | .number digits => digits.toList ≠ [] ∧ digits.toList.all Char.isDigit = true
  | _ => False

theorem quoted_escape (cs more : List Char) :
    quoted '"' (escape cs ++ '"' :: more) = ⟨true, cs, (escape cs).length + 1⟩ := by
  induction cs with
  | nil => rfl
  | cons c cs ih =>
    unfold escape
    split
    · rename_i h
      have hc : unescape '"' c = [c] := by rcases h with rfl | rfl <;> rfl
      rw [List.cons_append, List.cons_append, quoted, ih]
      simp [hc]
    · rename_i h
      simp only [not_or] at h
      rw [List.cons_append, quoted, if_neg h.1, ih]
      · simp
      · exact fun hc _ => h.2 hc
      · exact fun _ _ hc _ => h.2 hc

theorem numeral_append {digits more : List Char} (h : digits.all Char.isDigit = true) :
    numeral (digits ++ ' ' :: more) = digits := by
  rw [List.all_eq_true] at h
  have htake : (digits ++ ' ' :: more).takeWhile Char.isDigit = digits := by
    rw [List.takeWhile_append_of_pos h]
    simp
  have hdrop : (digits ++ ' ' :: more).dropWhile Char.isDigit = ' ' :: more := by
    rw [List.dropWhile_append_of_pos h]
    simp
  unfold numeral
  rw [htake, hdrop]
  rfl

theorem cons_of_isWord {w : String} (h : isWord w = true) :
    ∃ c cs, w.toList = c :: cs ∧ Text.isAlphabetic c = true ∧
      ∀ c' ∈ c :: cs, Text.isAlphanumeric c' = true := by
  unfold isWord at h
  split at h
  · cases h
  · rename_i c cs hw
    simp only [Bool.and_eq_true, List.all_eq_true] at h
    refine ⟨c, cs, hw, h.1, fun c' hc' => ?_⟩
    obtain rfl | hc' := List.mem_cons.1 hc'
    · exact Text.isAlphanumeric_of_isAlphabetic h.1
    · exact h.2 c' hc'

theorem scan_word {c : Char} {cs : List Char} (hc : Text.isAlphabetic c = true) :
    scan c cs = (ofWord (String.ofList ((c :: cs).takeWhile Text.isAlphanumeric)),
      ((c :: cs).takeWhile Text.isAlphanumeric).length) := by
  have hquote : ¬ (c = '\'' ∨ c = '"') := by
    rintro (rfl | rfl) <;> revert hc <;> decide +kernel
  unfold scan
  rw [if_neg hquote, if_neg (by simp [Text.isDigit_of_isAlphabetic hc]), if_pos hc]

theorem isWord_keyword (k : Keyword) : isWord k.spelling = true := by
  cases k <;> decide +kernel

theorem ofWord_keyword (k : Keyword) : ofWord k.spelling = .keyword k := by
  cases k <;> rfl

theorem scan_symbol (x : Symbol) (more : List Char) :
    ∃ c cs, x.spelling.toList = c :: cs ∧ Text.isBlank c = false ∧
      scan c (cs ++ ' ' :: more) = (.symbol x, (c :: cs).length) := by
  cases x <;> exact ⟨_, _, rfl, by decide +kernel, rfl⟩

theorem scan_ofWord {w : String} (h : isWord w = true) (more : List Char) :
    ∃ c cs, w.toList = c :: cs ∧ Text.isBlank c = false ∧
      scan c (cs ++ ' ' :: more) = (ofWord w, (c :: cs).length) := by
  obtain ⟨c, cs, hw, hc, hall⟩ := cons_of_isWord h
  have hblank : Text.isAlphanumeric ' ' = false := by decide +kernel
  have htake : (c :: cs ++ ' ' :: more).takeWhile Text.isAlphanumeric = c :: cs := by
    rw [List.takeWhile_append_of_pos hall]
    simp [hblank]
  refine ⟨c, cs, hw, Text.isBlank_of_isAlphabetic hc, ?_⟩
  rw [scan_word hc, ← List.cons_append, htake, ← hw, String.ofList_toList]

theorem scan_characters {l : Lexeme} (h : l.Spellable) (ht : l.isText = false)
    (hm : l.isMark = false) (more : List Char) :
    ∃ c cs, l.characters = c :: cs ∧ Text.isBlank c = false ∧
      scan c (cs ++ ' ' :: more) = (l, (c :: cs).length) := by
  cases l with
  | text => cases ht
  | escapeMark | rawMark => cases hm
  | keyword k =>
    have hscan := scan_ofWord (isWord_keyword k) more
    rwa [ofWord_keyword] at hscan
  | name w =>
    simp only [Spellable, isName, Bool.and_eq_true, Option.isNone_iff_eq_none] at h
    have hw : ofWord w = .name w := by
      unfold ofWord
      rw [h.2]
    have hscan := scan_ofWord h.1 more
    rwa [hw] at hscan
  | string s =>
    refine ⟨'"', _, rfl, by decide, ?_⟩
    unfold scan
    rw [if_pos (.inr rfl), List.append_assoc, List.singleton_append, quoted_escape]
    simp
  | number digits =>
    obtain ⟨hne, hall⟩ := h
    obtain ⟨d, ds, hd⟩ := List.exists_cons_of_ne_nil hne
    rw [hd] at hall
    have hdigit : d.isDigit = true := List.all_eq_true.1 hall d List.mem_cons_self
    have hquote : ¬ (d = '\'' ∨ d = '"') := by
      rintro (rfl | rfl) <;> revert hdigit <;> decide
    refine ⟨d, ds, hd, Text.isBlank_of_isDigit hdigit, ?_⟩
    unfold scan
    rw [if_neg hquote, if_pos hdigit, ← List.cons_append, numeral_append hall, ← hd]
    simp
  | symbol x => exact scan_symbol x more
  | invalid | unclosed | endOfInput => exact h.elim

theorem apart_escape {c : Char} {cs : List Char} (h : Text.Apart '%' '>' (c :: cs)) :
    Text.Apart '%' '>' (c :: (escape cs ++ ['"'])) := by
  induction cs generalizing c with
  | nil => exact List.isChain_pair.2 nofun
  | cons d cs ih =>
    obtain ⟨hcd, hd⟩ := List.isChain_cons_cons.1 h
    unfold escape
    split
    · exact List.isChain_cons_cons.2 ⟨nofun, List.isChain_cons_cons.2 ⟨nofun, ih hd⟩⟩
    · exact List.isChain_cons_cons.2 ⟨hcd, ih hd⟩

theorem apart_characters {l : Lexeme} (h : l.Spellable) : Text.Apart '%' '>' l.characters := by
  have hpercent : Text.isAlphanumeric '%' = false := by decide +kernel
  have hword {w : String} (hw : isWord w = true) : Text.Apart '%' '>' w.toList := by
    obtain ⟨c, cs, hcs, -, hall⟩ := cons_of_isWord hw
    refine Text.apart_of_notMem fun hmem => ?_
    have halpha := hall _ (hcs ▸ hmem)
    rw [hpercent] at halpha
    cases halpha
  cases l with
  | text | invalid | unclosed | endOfInput => exact .nil
  | escapeMark | rawMark => exact .singleton _
  | keyword k => exact hword (isWord_keyword k)
  | name w =>
    simp only [Spellable, isName, Bool.and_eq_true] at h
    exact hword h.1
  | string s => exact apart_escape (Text.Apart.cons h nofun)
  | number digits =>
    refine Text.apart_of_notMem fun hmem => ?_
    have hdigit := List.all_eq_true.1 h.2 _ hmem
    revert hdigit
    decide
  | symbol x =>
    unfold Text.Apart
    cases x <;> decide

end Lexeme

def Lexeme.spaced (l : Lexeme) : List Char :=
  if l.isMark then l.characters else ' ' :: l.characters

def script : List Lexeme → List Char × List Char
  | [] => ([' '], [])
  | .text t :: ls =>
    let (region, rest) := script ls
    ([' '], t.toList ++ '<' :: '%' :: (region ++ '%' :: '>' :: rest))
  | l :: ls =>
    let (region, rest) := script ls
    (l.spaced ++ region, rest)

def spell (t : String) (ls : List Lexeme) : String :=
  let (region, rest) := script ls
  String.ofList (t.toList ++ '<' :: '%' :: (region ++ '%' :: '>' :: rest))

/-- Lexemes that can be spelled out after a text, if `fresh`, or after another lexeme. An output
mark must follow a text, since it is one only at the front of a region. -/
def Spellable (fresh : Bool) : List Lexeme → Prop
  | [] => True
  | l :: ls => (l.isMark = true → fresh = true) ∧ l.Spellable ∧ Spellable l.isText ls

namespace Spellable

variable {fresh : Bool} {ts us : List Lexeme}

theorem mono (h : Spellable false ts) : Spellable fresh ts := by
  cases ts with
  | nil => trivial
  | cons l ts => exact ⟨fun hm => absurd (h.1 hm) nofun, h.2⟩

theorem append (hts : Spellable fresh ts) (hus : Spellable false us) :
    Spellable fresh (ts ++ us) := by
  induction ts generalizing fresh with
  | nil => exact hus.mono
  | cons l ts ih => exact ⟨hts.1, hts.2.1, ih hts.2.2⟩

theorem cons {l : Lexeme} (hl : l.Spellable) (hm : l.isMark = false) (hts : Spellable false ts) :
    Spellable fresh (l :: ts) :=
  ⟨fun h => by simp [hm] at h, hl, hts.mono⟩

end Spellable

theorem script_cons {l : Lexeme} {ls : List Lexeme} (ht : l.isText = false) :
    script (l :: ls) = (l.spaced ++ (script ls).1, (script ls).2) := by
  cases l with
  | text => cases ht
  | _ => rfl

theorem exists_text {l : Lexeme} (h : l.isText = true) : ∃ t, l = .text t := by
  cases l with
  | text t => exact ⟨t, rfl⟩
  | _ => cases h

theorem script_blank {ls : List Lexeme} (h : Spellable false ls) :
    ∃ more, (script ls).1 = ' ' :: more := by
  cases ls with
  | nil => exact ⟨_, rfl⟩
  | cons l ls =>
    cases ht : l.isText with
    | true =>
      obtain ⟨t, rfl⟩ := exists_text ht
      exact ⟨_, rfl⟩
    | false =>
      have hm : l.isMark = false := by
        cases hm : l.isMark with
        | false => rfl
        | true => exact absurd (h.1 hm) nofun
      rw [script_cons ht, Lexeme.spaced, hm]
      exact ⟨_, rfl⟩

theorem apart_script {fresh : Bool} {ls : List Lexeme} (h : Spellable fresh ls) :
    Text.Apart '%' '>' (script ls).1 := by
  induction ls generalizing fresh with
  | nil => exact .singleton _
  | cons l ls ih =>
    cases ht : l.isText with
    | true =>
      obtain ⟨t, rfl⟩ := exists_text ht
      exact .singleton _
    | false =>
      have hls : Spellable false ls := ht ▸ h.2.2
      obtain ⟨more, hmore⟩ := script_blank hls
      have hspaced : Text.Apart '%' '>' l.spaced := by
        unfold Lexeme.spaced
        split
        · exact l.apart_characters h.2.1
        · exact (l.apart_characters h.2.1).cons nofun
      rw [script_cons ht]
      exact hspaced.append (ih hls) (by simp [hmore])

namespace Scanner

structure Before (s : Scanner) (fresh : Bool) (ls : List Lexeme) : Prop where
  delimiters : s.delimiters = .default
  mode : s.mode = .script fresh (script ls).1
  rest : s.rest = (script ls).2

theorem openRegion_script {s : Scanner} {ls : List Lexeme} (hls : Spellable true ls)
    (hd : s.delimiters = .default) (opened : Position) :
    (s.openRegion opened ((script ls).1 ++ '%' :: '>' :: (script ls).2)).Before true ls := by
  have hcut : Text.cutAt s.delimiters.closing ((script ls).1 ++ '%' :: '>' :: (script ls).2)
      = some (script ls) := by
    rw [hd]
    exact Text.cutAt_append (by decide) (apart_script hls) _
  unfold openRegion
  rw [hcut]
  exact ⟨hd, rfl, rfl⟩

theorem nextText_spell {s : Scanner} {t : String} {ls : List Lexeme} (hls : Spellable true ls)
    (ht : Text.Apart '<' '%' t.toList) (hd : s.delimiters = .default)
    (hr : s.rest = t.toList ++ '<' :: '%' :: ((script ls).1 ++ '%' :: '>' :: (script ls).2)) :
    s.nextText.1.lexeme = .text t ∧ s.nextText.2.Before true ls := by
  have hcut : Text.cutAt s.delimiters.opening s.rest
      = some (t.toList, (script ls).1 ++ '%' :: '>' :: (script ls).2) := by
    rw [hd, hr]
    exact Text.cutAt_append (by decide) ht _
  have hne : ¬ s.rest.isEmpty = true := by simp [hr]
  unfold nextText
  rw [if_neg hne, hcut]
  exact ⟨congrArg Lexeme.text String.ofList_toList, openRegion_script hls hd _⟩

theorem next_blank {s : Scanner} {fresh : Bool} {region : List Char}
    (hm : s.mode = .script fresh (' ' :: region)) : s.next = s.nextScript (' ' :: region) := by
  unfold next
  rw [hm]
  cases fresh <;> rfl

theorem nextScript_end (s : Scanner) : ∃ position,
    s.nextScript [' '] = nextText { s with mode := .text, position } :=
  ⟨_, rfl⟩

theorem next_nil {s : Scanner} {fresh : Bool} (hs : s.Before fresh []) :
    s.next.1.lexeme = .endOfInput := by
  obtain ⟨position, hend⟩ := s.nextScript_end
  have hr : s.rest = [] := hs.rest
  rw [next_blank hs.mode, hend]
  simp [nextText, hr, Token.endOfInput]

theorem next_text {s : Scanner} {fresh : Bool} {t : String} {ls : List Lexeme}
    (h : Spellable fresh (.text t :: ls)) (hs : s.Before fresh (.text t :: ls)) :
    s.next.1.lexeme = .text t ∧ s.next.2.Before true ls := by
  obtain ⟨position, hend⟩ := s.nextScript_end
  rw [next_blank hs.mode, hend]
  exact nextText_spell h.2.2 h.2.1 hs.delimiters hs.rest

theorem next_mark {s : Scanner} {l : Lexeme} {ls : List Lexeme} (hm : l.isMark = true)
    (hs : s.Before true (l :: ls)) : s.next.1.lexeme = l ∧ s.next.2.Before false ls := by
  have hmode := hs.mode
  have hrest := hs.rest
  unfold next
  cases l with
  | escapeMark | rawMark =>
    rw [script_cons rfl] at hmode hrest
    rw [hmode]
    exact ⟨rfl, hs.delimiters, rfl, hrest⟩
  | _ => cases hm

theorem take_eq (s : Scanner) (region : List Char) (n : Nat) : ∃ position,
    s.take region n = { s with mode := .script false (region.drop n), position } :=
  ⟨_, rfl⟩

theorem next_spelled {s : Scanner} {fresh : Bool} {l : Lexeme} {ls : List Lexeme}
    (hl : l.Spellable) (ht : l.isText = false) (hm : l.isMark = false) (hls : Spellable false ls)
    (hmode : s.mode = .script fresh (script (l :: ls)).1) : s.next.1.lexeme = l ∧
      ∃ position, s.next.2 = { s with mode := .script false (script ls).1, position } := by
  obtain ⟨more, hmore⟩ := script_blank hls
  obtain ⟨c, cs, hchars, hblank, hscan⟩ := l.scan_characters hl ht hm more
  rw [script_cons ht] at hmode
  have hregion : l.spaced ++ (script ls).1 = ' ' :: c :: (cs ++ ' ' :: more) := by
    simp [Lexeme.spaced, hm, hchars, hmore]
  rw [hregion] at hmode
  have hdrop : (' ' :: c :: (cs ++ ' ' :: more)).dropWhile Text.isBlank
      = c :: (cs ++ ' ' :: more) := by
    have hspace : Text.isBlank ' ' = true := rfl
    rw [List.dropWhile_cons_of_pos hspace, List.dropWhile_cons_of_neg (by simp [hblank])]
  rw [next_blank hmode]
  unfold nextScript
  rw [hdrop]
  dsimp only
  rw [hscan, hmore]
  have hleft : (c :: (cs ++ ' ' :: more)).drop (c :: cs).length = ' ' :: more := by simp
  obtain ⟨position, htake⟩ := take_eq { s with position := _ } (c :: (cs ++ ' ' :: more))
    (c :: cs).length
  rw [hleft] at htake
  exact ⟨rfl, position, htake⟩

theorem next_spaced {s : Scanner} {fresh : Bool} {l : Lexeme} {ls : List Lexeme}
    (hl : l.Spellable) (ht : l.isText = false) (hm : l.isMark = false) (hls : Spellable false ls)
    (hs : s.Before fresh (l :: ls)) : s.next.1.lexeme = l ∧ s.next.2.Before false ls := by
  obtain ⟨hlexeme, position, hnext⟩ := next_spelled hl ht hm hls hs.mode
  have hrest := hs.rest
  rw [script_cons ht] at hrest
  rw [hnext]
  exact ⟨hlexeme, hs.delimiters, rfl, hrest⟩

theorem next_cons {s : Scanner} {fresh : Bool} {l : Lexeme} {ls : List Lexeme}
    (h : Spellable fresh (l :: ls)) (hs : s.Before fresh (l :: ls)) :
    s.next.1.lexeme = l ∧ s.next.2.Before l.isText ls := by
  cases ht : l.isText with
  | true =>
    obtain ⟨t, rfl⟩ := exists_text ht
    exact next_text h hs
  | false =>
    cases hm : l.isMark with
    | true =>
      obtain rfl := h.1 hm
      exact next_mark hm hs
    | false => exact next_spaced h.2.1 ht hm (ht ▸ h.2.2) hs

theorem tokens_map {s : Scanner} : s.tokens.map Token.lexeme =
    if s.next.1.lexeme = .endOfInput then [.endOfInput]
    else s.next.1.lexeme :: s.next.2.tokens.map Token.lexeme := by
  rw [tokens]
  split
  rename_i t later hnext
  rw [hnext]
  split <;> simp [*]

theorem tokens_before {s : Scanner} {fresh : Bool} {ls : List Lexeme} (h : Spellable fresh ls)
    (hs : s.Before fresh ls) : s.tokens.map Token.lexeme = ls ++ [.endOfInput] := by
  induction ls generalizing s fresh with
  | nil => rw [tokens_map, if_pos (next_nil hs), List.nil_append]
  | cons l ls ih =>
    obtain ⟨hl, hnext⟩ := next_cons h hs
    have hne : l ≠ .endOfInput := by
      rintro rfl
      exact h.2.1
    rw [tokens_map, hl, if_neg hne, ih h.2.2 hnext, List.cons_append]

theorem tokens_spell {t : String} {ls : List Lexeme} (ht : Text.Apart '<' '%' t.toList)
    (hls : Spellable true ls) :
    (ofString .default (spell t ls)).tokens.map Token.lexeme = .text t :: ls ++ [.endOfInput] := by
  obtain ⟨htext, hnext⟩ := nextText_spell (s := ofString .default (spell t ls)) hls ht rfl
    String.toList_ofList
  have hl : (ofString .default (spell t ls)).next.1.lexeme = .text t := htext
  rw [tokens_map, hl, if_neg nofun, List.cons_append]
  exact congrArg _ (tokens_before hls hnext)

end Scanner

end TextTemplate
