import Mathlib.Data.List.Find
import TextTemplate.Proofs.Token.Segments

/-! Tokens of a script, written down with a blank between any two of them, are read as these
tokens. The blank keeps a token from running into the one after it, so that each is read off its
own characters. -/

namespace TextTemplate

inductive Quote where
  | single
  | double
  deriving Repr, DecidableEq

def Quote.char : Quote → Char
  | .single => '\''
  | .double => '"'

structure Digits where
  chars : List Char
  ne_nil : chars ≠ []
  isDigit : chars.all Char.isDigit = true

inductive Written where
  | keyword (k : Keyword)
  | name (w : String) (h : Lexeme.isName w = true)
  | whole (digits : Digits)
  | decimal (digits fraction : Digits)
  | string (quote : Quote) (content : String)
  | operator (spelling : List Char) (x : Symbol) (h : (spelling, x) ∈ Symbol.table)

namespace Quote

def escape (quote : Quote) : List Char → List Char
  | [] => []
  | c :: cs =>
    if c = quote.char ∨ c = '\\' then '\\' :: c :: quote.escape cs else c :: quote.escape cs

theorem quoted_escape (quote : Quote) (cs more : List Char) :
    Lexeme.quoted quote.char (quote.escape cs ++ quote.char :: more) =
      ⟨true, cs, (quote.escape cs).length + 1⟩ := by
  induction cs with
  | nil => cases quote <;> rfl
  | cons c cs ih =>
    unfold escape
    split
    · rename_i h
      have hc : Lexeme.unescape quote.char c = [c] := by
        rcases h with rfl | rfl
        · cases quote <;> rfl
        · rfl
      rw [List.cons_append, List.cons_append, Lexeme.quoted, ih]
      simp [hc]
    · rename_i h
      rw [not_or] at h
      rw [List.cons_append, Lexeme.quoted, if_neg h.1, ih]
      · simp
      · exact fun hc _ => h.2 hc
      · exact fun _ _ hc _ => h.2 hc

end Quote

namespace Written

def lexeme : Written → Lexeme
  | keyword k => .keyword k
  | name w _ => .name w
  | whole digits => .number (String.ofList digits.chars)
  | decimal digits fraction => .number (String.ofList (digits.chars ++ '.' :: fraction.chars))
  | string _ content => .string content
  | operator _ x _ => .symbol x

def characters : Written → List Char
  | keyword k => k.spelling.toList
  | name w _ => w.toList
  | whole digits => digits.chars
  | decimal digits fraction => digits.chars ++ '.' :: fraction.chars
  | string quote content => quote.char :: (quote.escape content.toList ++ [quote.char])
  | operator spelling _ _ => spelling

/-- Where the pair that closes a region does not stand in a string, it does not stand in the
token. -/
def Closable (w : Written) : Prop :=
  match w with
  | string .. => ¬ ['%', '>'] <:+: w.characters
  | _ => True

instance (w : Written) : Decidable w.Closable :=
  match w with
  | string quote content =>
    inferInstanceAs (Decidable ¬ ['%', '>'] <:+: (string quote content).characters)
  | keyword _ | name .. | whole _ | decimal .. | operator .. => isTrue trivial

def print (ws : List Written) : String :=
  "<% " ++ " ".intercalate (ws.map fun w => String.ofList w.characters) ++ " %>"

theorem prefix_blank {x : List Char} (h : ' ' ∉ x) (cs more : List Char) :
    x <+: cs ++ ' ' :: more ↔ x <+: cs := by
  refine ⟨fun hx => ?_, fun hx => hx.trans (List.prefix_append _ _)⟩
  rcases List.prefix_or_prefix_of_prefix hx (List.prefix_append cs (' ' :: more)) with hx' | hx'
  · exact hx'
  · obtain ⟨y, rfl⟩ := hx'
    cases y with
    | nil => exact ⟨[], by simp⟩
    | cons c y =>
      have hc := (List.cons_prefix_cons.1 ((List.prefix_append_right_inj cs).1 hx)).1
      exact absurd (List.mem_append_right cs (hc ▸ List.mem_cons_self)) h

theorem longest?_blank (cs more : List Char) :
    Symbol.longest? (cs ++ ' ' :: more) = Symbol.longest? cs := by
  have hblank : ∀ e ∈ Symbol.table, ' ' ∉ e.1 := by decide
  refine List.find?_congr fun e he => ?_
  rw [Bool.eq_iff_iff, List.isPrefixOf_iff_prefix, List.isPrefixOf_iff_prefix]
  exact prefix_blank (hblank e he) cs more

theorem longest?_table : ∀ e ∈ Symbol.table, Symbol.longest? e.1 = some e := by
  decide

theorem head_table : ∀ e ∈ Symbol.table, ∃ c cs, e.1 = c :: cs ∧ Text.isBlank c = false ∧
    ¬ (c = '\'' ∨ c = '"') ∧ c.isDigit = false ∧ Text.isAlphabetic c = false := by
  have hheads : Symbol.table.all (fun e => e.1.head?.any fun c => !Text.isBlank c &&
      !(c == '\'' || c == '"') && !c.isDigit && !Text.isAlphabetic c) = true := by
    decide +kernel
  intro e he
  obtain ⟨c, hc, hbegins⟩ := (Option.any_eq_true _ _).1 (List.all_eq_true.1 hheads e he)
  obtain ⟨cs, hcs⟩ := List.head?_eq_some_iff.1 hc
  exact ⟨c, cs, hcs, by simpa [and_assoc] using hbegins⟩

theorem scan_operator {spelling : List Char} {x : Symbol} (h : (spelling, x) ∈ Symbol.table)
    (more : List Char) : ∃ c cs, spelling = c :: cs ∧ Text.isBlank c = false ∧
      Lexeme.scan c (cs ++ ' ' :: more) = (.symbol x, (c :: cs).length) := by
  obtain ⟨c, cs, hcs, hblank, hquote, hdigit, hletter⟩ := head_table _ h
  have hlongest : Symbol.longest? (c :: cs ++ ' ' :: more) = some (spelling, x) := by
    rw [longest?_blank, ← hcs, longest?_table _ h]
  refine ⟨c, cs, hcs, hblank, ?_⟩
  unfold Lexeme.scan
  rw [if_neg hquote, if_neg (by simp [hdigit]), if_neg (by simp [hletter]), ← List.cons_append,
    hlongest, ← hcs]

theorem scan_digit {d : Char} {ds : List Char} (h : d.isDigit = true) :
    Lexeme.scan d ds = (.number (String.ofList (Lexeme.numeral (d :: ds))),
      (Lexeme.numeral (d :: ds)).length) := by
  have hquote : ¬ (d = '\'' ∨ d = '"') := by
    rintro (rfl | rfl) <;> revert h <;> decide
  unfold Lexeme.scan
  rw [if_neg hquote, if_pos h]

theorem numeral_decimal (digits fraction : Digits) (more : List Char) :
    Lexeme.numeral (digits.chars ++ '.' :: (fraction.chars ++ ' ' :: more)) =
      digits.chars ++ '.' :: fraction.chars := by
  have hdigits := List.all_eq_true.1 digits.isDigit
  have hfraction := List.all_eq_true.1 fraction.isDigit
  obtain ⟨d, ds, hd⟩ := List.exists_cons_of_ne_nil fraction.ne_nil
  have hdigit : d.isDigit = true := hfraction d (hd ▸ List.mem_cons_self)
  have htake : (digits.chars ++ '.' :: (fraction.chars ++ ' ' :: more)).takeWhile Char.isDigit =
      digits.chars := by
    rw [List.takeWhile_append_of_pos hdigits]
    simp
  have hdrop : (digits.chars ++ '.' :: (fraction.chars ++ ' ' :: more)).dropWhile Char.isDigit =
      '.' :: (fraction.chars ++ ' ' :: more) := by
    rw [List.dropWhile_append_of_pos hdigits]
    simp
  have htake' : (fraction.chars ++ ' ' :: more).takeWhile Char.isDigit = fraction.chars := by
    rw [List.takeWhile_append_of_pos hfraction]
    simp
  rw [hd, List.cons_append] at htake'
  unfold Lexeme.numeral
  rw [htake, hdrop, hd]
  exact (if_pos hdigit).trans (congrArg (digits.chars ++ '.' :: ·) htake')

theorem scan_characters (w : Written) (more : List Char) :
    ∃ c cs, w.characters = c :: cs ∧ Text.isBlank c = false ∧
      Lexeme.scan c (cs ++ ' ' :: more) = (w.lexeme, (c :: cs).length) := by
  cases w with
  | keyword k => exact Lexeme.scan_characters (l := .keyword k) trivial rfl rfl more
  | name w h => exact Lexeme.scan_characters (l := .name w) h rfl rfl more
  | whole digits =>
    obtain ⟨d, ds, hd⟩ := List.exists_cons_of_ne_nil digits.ne_nil
    have hdigit : d.isDigit = true :=
      List.all_eq_true.1 digits.isDigit d (hd ▸ List.mem_cons_self)
    refine ⟨d, ds, hd, Text.isBlank_of_isDigit hdigit, ?_⟩
    rw [scan_digit hdigit, ← List.cons_append, ← hd, Lexeme.numeral_append digits.isDigit]
    rfl
  | decimal digits fraction =>
    obtain ⟨d, ds, hd⟩ := List.exists_cons_of_ne_nil digits.ne_nil
    have hdigit : d.isDigit = true :=
      List.all_eq_true.1 digits.isDigit d (hd ▸ List.mem_cons_self)
    have hcons : d :: (ds ++ '.' :: fraction.chars) = digits.chars ++ '.' :: fraction.chars := by
      rw [hd, List.cons_append]
    refine ⟨d, ds ++ '.' :: fraction.chars, hcons.symm, Text.isBlank_of_isDigit hdigit, ?_⟩
    rw [scan_digit hdigit, ← List.cons_append, hcons, List.append_assoc, List.cons_append,
      numeral_decimal]
    rfl
  | string quote content =>
    have hquote : quote.char = '\'' ∨ quote.char = '"' := by cases quote <;> decide
    have hblank : Text.isBlank quote.char = false := by cases quote <;> decide
    refine ⟨quote.char, _, rfl, hblank, ?_⟩
    unfold Lexeme.scan
    rw [if_pos hquote, List.append_assoc, List.singleton_append, quote.quoted_escape]
    simp [lexeme]
  | operator spelling x h => exact scan_operator h more

theorem inScript_blank_cons (region : List Char) :
    Lexeme.inScript (' ' :: region) = Lexeme.inScript region := by
  have hdrop : (' ' :: region).dropWhile Text.isBlank = region.dropWhile Text.isBlank := rfl
  cases hregion : region.dropWhile Text.isBlank with
  | nil => rw [Lexeme.inScript_nil hregion, Lexeme.inScript_nil (hdrop.trans hregion)]
  | cons c cs => rw [Lexeme.inScript_cons hregion, Lexeme.inScript_cons (hdrop.trans hregion)]

theorem inScript_characters (w : Written) (more : List Char) :
    Lexeme.inScript (w.characters ++ ' ' :: more) = w.lexeme :: Lexeme.inScript more := by
  obtain ⟨c, cs, hcs, hblank, hscan⟩ := w.scan_characters more
  have hdrop : (w.characters ++ ' ' :: more).dropWhile Text.isBlank =
      c :: (cs ++ ' ' :: more) := by
    rw [hcs, List.cons_append, List.dropWhile_cons_of_neg (by simp [hblank])]
  rw [Lexeme.inScript_cons hdrop, hscan]
  dsimp only
  rw [← List.cons_append, List.drop_left, inScript_blank_cons]

def script (ws : List Written) : List Char :=
  [' '].intercalate (ws.map characters)

theorem script_cons (w : Written) (ws : List Written) :
    script (w :: ws) ++ [' '] =
      w.characters ++ ' ' :: (if ws = [] then [] else script ws ++ [' ']) := by
  cases ws with
  | nil => simp [script]
  | cons w' ws => simp [script, List.intercalate_cons_cons]

theorem inScript_script (ws : List Written) :
    Lexeme.inScript (script ws ++ [' ']) = ws.map lexeme := by
  induction ws with
  | nil => exact Lexeme.inScript_nil rfl
  | cons w ws ih =>
    rw [script_cons, inScript_characters, List.map_cons]
    split
    · rename_i hws
      rw [hws, Lexeme.inScript_nil rfl, List.map_nil]
    · rw [ih]

theorem apart_of_not_infix {a b : Char} {cs : List Char} (h : ¬ [a, b] <:+: cs) :
    Text.Apart a b cs := by
  rw [← Text.cutAt_eq_none, ← Option.not_isSome_iff_eq_none, Option.isSome_iff_exists]
  rintro ⟨⟨before, after⟩, hcut⟩
  exact h ⟨before, after, (Text.eq_append_of_cutAt hcut).symm⟩

theorem percent_notMem_digits (digits : Digits) : '%' ∉ digits.chars := by
  intro hmem
  have hdigit := List.all_eq_true.1 digits.isDigit _ hmem
  revert hdigit
  decide

theorem apart_operator : ∀ e ∈ Symbol.table, Text.Apart '%' '>' e.1 := by
  unfold Text.Apart
  decide

theorem apart_characters {w : Written} (h : w.Closable) : Text.Apart '%' '>' w.characters := by
  cases w with
  | keyword k => exact Lexeme.apart_characters (l := .keyword k) trivial
  | name w hw => exact Lexeme.apart_characters (l := .name w) hw
  | whole digits => exact Text.apart_of_notMem (percent_notMem_digits digits)
  | decimal digits fraction =>
    refine Text.apart_of_notMem fun hmem => ?_
    rcases List.mem_append.1 hmem with hmem | hmem
    · exact percent_notMem_digits digits hmem
    · exact percent_notMem_digits fraction ((List.mem_cons.1 hmem).resolve_left (by decide))
  | string quote content => exact apart_of_not_infix h
  | operator spelling x hx => exact apart_operator _ hx

theorem apart_script {ws : List Written} (h : ∀ w ∈ ws, w.Closable) :
    Text.Apart '%' '>' (script ws ++ [' ']) := by
  induction ws with
  | nil => exact .singleton _
  | cons w ws ih =>
    obtain ⟨hw, hws⟩ := List.forall_mem_cons.1 h
    rw [script_cons]
    refine (apart_characters hw).append (.cons ?_ (by decide)) (by simp)
    split
    · exact .nil
    · exact ih hws

theorem splits_print {ws : List Written} (h : ∀ w ∈ ws, w.Closable) :
    Splits .default (print ws).toList ⟨[([], ' ' :: (script ws ++ [' ']))], []⟩ := by
  have hprint : (print ws).toList =
      '<' :: '%' :: (' ' :: (script ws ++ [' ']) ++ '%' :: '>' :: []) := by
    have hmap : (ws.map fun w => String.ofList w.characters).map String.toList =
        ws.map characters := by
      simp [Function.comp_def]
    simp [print, script, hmap]
  have hapart : Text.Apart '%' '>' (' ' :: (script ws ++ [' '])) :=
    (apart_script h).cons (by decide)
  rw [hprint]
  have hempty : Text.Apart '<' '%' [] := .nil
  exact .part (g := ⟨[], []⟩) (Text.cutAt_append (by decide) hempty _)
    (Text.cutAt_append (by decide) hapart []) (.last rfl)

/-- What is printed is read as an empty text and the tokens that were printed, whatever they are
and however many, and nothing after them. -/
theorem tokens_written (ws : List Written) (h : ∀ w ∈ ws, w.Closable) :
    (Scanner.ofString .default (print ws)).tokens.map Token.lexeme =
      .text "" :: (ws.map lexeme ++ [.endOfInput]) := by
  have htokens := (splits_print h).tokens .start
  have hregion : Lexeme.ofRegion (' ' :: (script ws ++ [' '])) = ws.map lexeme := by
    have hscript := inScript_script ws
    rw [← inScript_blank_cons] at hscript
    exact hscript
  rw [Scanner.ofString, htokens, Segments.lexemes]
  simp [Segments.front, Lexeme.texts, hregion]

def mixed : List Written :=
  [.name "iff" (by decide +kernel), .string .single "it's 5\\%",
    .operator ['=', '=', '='] .eq (by decide), .operator ['%'] .mod (by decide),
    .operator ['>'] .gt (by decide), .decimal ⟨['1', '2'], by decide, by decide⟩
      ⟨['5', '0'], by decide, by decide⟩, .keyword .if_]

theorem tokens_written_mixed : (∀ w ∈ mixed, w.Closable) ∧
    print mixed = "<% iff 'it\\'s 5\\\\%' === % > 12.50 if %>" ∧
    (Scanner.ofString .default (print mixed)).tokens.map Token.lexeme =
      [.text "", .name "iff", .string "it's 5\\%", .symbol .eq, .symbol .mod, .symbol .gt,
        .number "12.50", .keyword .if_, .endOfInput] :=
  have hclosable : ∀ w ∈ mixed, w.Closable := by decide +kernel
  ⟨hclosable, by decide +kernel, tokens_written mixed hclosable⟩

end Written
end TextTemplate
