import TextTemplate.Token
import TextTemplate.Text.CharClass

/-! Reading one token off the front of a script region: the lexeme and the number of characters
that it takes. -/

namespace TextTemplate.Lexeme

def unescape (q c : Char) : List Char :=
  match c with
  | 'n' => ['\n']
  | 'r' => ['\r']
  | 't' => ['\t']
  | '0' => ['\x00']
  | '\\' => ['\\']
  -- any other escape stands for nothing
  | c => if c = q then [c] else []

structure Quoted where
  closed : Bool
  content : List Char
  /-- The number of characters up to and with the closing quote. -/
  size : Nat

def quoted (q : Char) : List Char → Quoted
  | [] => ⟨false, [], 0⟩
  | ['\\'] => ⟨false, [], 1⟩
  | '\\' :: c :: cs =>
    let tail := quoted q cs
    { tail with content := unescape q c ++ tail.content, size := tail.size + 2 }
  | c :: cs =>
    if c = q then ⟨true, [], 1⟩
    else
      let tail := quoted q cs
      { tail with content := c :: tail.content, size := tail.size + 1 }

def numeral (cs : List Char) : List Char :=
  let whole := cs.takeWhile Char.isDigit
  match cs.dropWhile Char.isDigit with
  | '.' :: d :: rest =>
    if d.isDigit then whole ++ '.' :: (d :: rest).takeWhile Char.isDigit else whole
  | _ => whole

def ofWord (w : String) : Lexeme :=
  match Keyword.ofString? w with
  | some k => .keyword k
  | none => .name w

/-- The token at the front of the region `c :: cs`, where `c` is no blank. -/
def scan (c : Char) (cs : List Char) : Lexeme × Nat :=
  if c = '\'' ∨ c = '"' then
    let s := quoted c cs
    if s.closed then (.string (String.ofList s.content), s.size + 1)
    else (.invalid (String.ofList (c :: s.content)), s.size + 1)
  else if c.isDigit then
    let digits := numeral (c :: cs)
    (.number (String.ofList digits), digits.length)
  else if Text.isAlphabetic c then
    let word := (c :: cs).takeWhile Text.isAlphanumeric
    (ofWord (String.ofList word), word.length)
  else
    match Symbol.longest? (c :: cs) with
    | some (spelling, s) => (.symbol s, spelling.length)
    | none => (.invalid (String.singleton c), 1)

theorem scan_pos (c : Char) (cs : List Char) : 0 < (scan c cs).2 := by
  unfold scan
  split
  · dsimp only
    split <;> simp
  split
  · rename_i h
    simp only [numeral, List.takeWhile_cons, h, if_true, List.dropWhile_cons]
    split
    · split <;> simp
    · simp
  split
  · rename_i h
    simp [Text.isAlphanumeric_of_isAlphabetic h]
  split
  · rename_i spelling s h
    have hmem := List.mem_of_find?_eq_some h
    have hall : ∀ e ∈ Symbol.table, 0 < e.1.length := by decide
    exact hall _ hmem
  · simp

end TextTemplate.Lexeme
