import TextTemplate.Proofs.Token.Tiling

/-! A cursor that can take back one token, beside a mark in the fixed list of the tokens of its
source. Whatever is asked of the two, in any order and also where nothing can be taken back, they
give the same answers. -/

namespace TextTemplate

namespace Scanner

def past (s : Scanner) : Nat → Scanner
  | 0 => s
  | k + 1 => s.next.2.past k

theorem past_succ (s : Scanner) (k : Nat) : s.past (k + 1) = (s.past k).next.2 := by
  induction k generalizing s with
  | zero => rfl
  | succ k ih => exact ih s.next.2

theorem next_past_end {s : Scanner} (h : s.next.1.lexeme = .endOfInput) (k : Nat) :
    (s.past k).next.1 = Token.endOfInput (s.position.advance s.ahead) := by
  obtain ⟨hmode, hrest, htoken⟩ := next_end h
  have hend : s.next.1 = Token.endOfInput (s.position.advance s.ahead) := by
    have hahead : s.next.2.ahead = [] := by simp only [ahead, hmode, hrest]
    rw [htoken, ← advance_ahead_next, hahead]
    rfl
  have hstay : s.next.2.next = s.next := by
    rw [next_eq_nextText hmode, nextText, hrest, ← htoken]
    rfl
  have hpast (k : Nat) : s.next.2.past k = s.next.2 := by
    induction k with
    | zero => rfl
    | succ k ih => rw [past_succ, ih, hstay]
  cases k with
  | zero => exact hend
  | succ k => rw [past, hpast, hstay, hend]

theorem next_past (s : Scanner) (k : Nat) :
    (s.past k).next.1 =
      s.tokens[k]?.getD (Token.endOfInput (s.position.advance s.ahead)) := by
  fun_induction tokens s generalizing k with
  | case1 s t later hnext hend =>
    have hlast := next_past_end (s := s) (by rw [hnext]; exact hend)
    rw [hlast k]
    cases k with
    | zero =>
      have hfirst := hlast 0
      rw [past, hnext] at hfirst
      exact hfirst.symm
    | succ k => rfl
  | case2 s t later hnext hend ih =>
    have hlater : s.next.2 = later := congrArg Prod.snd hnext
    cases k with
    | zero => exact congrArg Prod.fst hnext
    | succ k =>
      rw [past, hlater, ih k, List.getElem?_cons_succ, ← hlater, advance_ahead_next]

end Scanner

namespace TokenCursor

inductive Operation where
  | next | peek | pushBack
  deriving Repr, DecidableEq

inductive Answer where
  | token (t : Token)
  | takenBack
  | refused (m : Misuse)
  deriving Repr, DecidableEq

def answers {S : Type} (perform : Operation → S → Answer × S) (s : S) : List Operation → List Answer
  | [] => []
  | o :: os => (perform o s).1 :: answers perform (perform o s).2 os

def perform (o : Operation) (c : TokenCursor) : Answer × TokenCursor :=
  match o with
  | .next => (.token c.next.1, c.next.2)
  | .peek => (.token c.peek.1, c.peek.2)
  | .pushBack =>
    match c.pushBack with
    | .ok c' => (.takenBack, c')
    | .error m => (.refused m, c)

structure Mark where
  index : Nat
  back : Bool
  given : Bool
  index_pos : given = true → back = false → 0 < index

namespace Mark

def start : Mark where
  index := 0
  back := false
  given := false
  index_pos := nofun

def behind (i : Nat) : Mark where
  index := i + 1
  back := false
  given := true
  index_pos _ _ := i.succ_pos

def before (i : Nat) : Mark where
  index := i
  back := true
  given := true
  index_pos := nofun

/-- The next token is the one at the mark. To look ahead leaves the mark where it is, and to take a
token back moves it back by one. -/
def perform (tokens : Nat → Token) (o : Operation) (m : Mark) : Answer × Mark :=
  match o with
  | .next => (.token (tokens m.index), behind m.index)
  | .peek => (.token (tokens m.index), before m.index)
  | .pushBack =>
    if m.back then (.refused .occupied, m)
    else if m.given then (.takenBack, before (m.index - 1))
    else (.refused .nothingConsumed, m)

end Mark

def Gives (tokens : Nat → Token) (i : Nat) (s : Scanner) : Prop :=
  ∀ k, (s.past k).next.1 = tokens (i + k)

variable {tokens : Nat → Token} {i : Nat} {s : Scanner}

theorem Gives.later (h : Gives tokens i s) : Gives tokens (i + 1) s.next.2 := by
  intro k
  rw [Nat.add_assoc, Nat.add_comm 1 k]
  exact h (k + 1)

theorem Gives.next (h : Gives tokens i s) (last : Option Token) :
    TokenCursor.next ⟨s, last, none⟩ = (tokens i, ⟨s.next.2, some (tokens i), none⟩) := by
  have htoken : s.next.1 = tokens i := h 0
  simp only [TokenCursor.next, htoken]

theorem Gives.peek (h : Gives tokens i s) (last : Option Token) :
    TokenCursor.peek ⟨s, last, none⟩ = (tokens i, ⟨s.next.2, none, some (tokens i)⟩) := by
  simp only [TokenCursor.peek, h.next]

/-- How a cursor stands where the mark does: nothing has been given yet, or the token before the
mark was given last, or the one at the mark was taken back. -/
inductive Follows (tokens : Nat → Token) : Mark → TokenCursor → Prop
  | fresh {s : Scanner} : Gives tokens 0 s → Follows tokens .start ⟨s, none, none⟩
  | behind {i : Nat} {s : Scanner} : Gives tokens (i + 1) s →
    Follows tokens (.behind i) ⟨s, some (tokens i), none⟩
  | before {i : Nat} {s : Scanner} : Gives tokens (i + 1) s →
    Follows tokens (.before i) ⟨s, none, some (tokens i)⟩

theorem Follows.perform {m : Mark} {c : TokenCursor} (h : Follows tokens m c) (o : Operation) :
    (c.perform o).1 = (m.perform tokens o).1 ∧
      Follows tokens (m.perform tokens o).2 (c.perform o).2 := by
  cases h with
  | fresh hs =>
    cases o with
    | next =>
      rw [TokenCursor.perform, hs.next]
      exact ⟨rfl, .behind hs.later⟩
    | peek =>
      rw [TokenCursor.perform, hs.peek]
      exact ⟨rfl, .before hs.later⟩
    | pushBack => exact ⟨rfl, .fresh hs⟩
  | behind hs =>
    cases o with
    | next =>
      rw [TokenCursor.perform, hs.next]
      exact ⟨rfl, .behind hs.later⟩
    | peek =>
      rw [TokenCursor.perform, hs.peek]
      exact ⟨rfl, .before hs.later⟩
    | pushBack => exact ⟨rfl, .before hs⟩
  | before hs =>
    -- the token at the mark is at hand, and the scanner is not asked
    cases o with
    | next => exact ⟨rfl, .behind hs⟩
    | peek => exact ⟨rfl, .before hs⟩
    | pushBack => exact ⟨rfl, .before hs⟩

theorem Follows.answers {m : Mark} {c : TokenCursor} (h : Follows tokens m c)
    (os : List Operation) :
    answers TokenCursor.perform c os = answers (Mark.perform tokens) m os := by
  induction os generalizing m c with
  | nil => rfl
  | cons o os ih =>
    obtain ⟨hanswer, hlater⟩ := h.perform o
    rw [TokenCursor.answers, TokenCursor.answers, hanswer, ih hlater]

theorem answers_of_past (h : ∀ k, (s.past k).next.1 = tokens k) (os : List Operation) :
    answers TokenCursor.perform ⟨s, none, none⟩ os = answers (Mark.perform tokens) .start os := by
  have hgives : Gives tokens 0 s := fun k => by
    rw [Nat.zero_add]
    exact h k
  exact Follows.answers (.fresh hgives) os

theorem call_eq_next_past {c : TokenCursor} (hc : c.pushed = none) (k : Nat) :
    c.call k = (c.scanner.past k).next.1 := by
  induction k generalizing c with
  | zero => simp only [call, TokenCursor.next, hc, Scanner.past]
  | succ k ih =>
    have hnext : c.next.2 = ⟨c.scanner.next.2, some c.scanner.next.1, none⟩ := by
      simp only [TokenCursor.next, hc]
    rw [call, hnext]
    exact ih rfl

def stream (d : Delimiters) (source : String) (k : Nat) : Token :=
  (Scanner.ofString d source).tokens[k]?.getD
    (Token.endOfInput (Position.start.advance source.toList))

/-- Calls that take nothing back give the tokens of the source, and any other sequence of operations
is answered as by a mark in these. -/
theorem answers_eq_answers_mark (d : Delimiters) (source : String) :
    (∀ k, (ofString d source).call k = stream d source k) ∧
      ∀ os, answers perform (ofString d source) os =
        answers (Mark.perform (stream d source)) .start os := by
  have hpast (k : Nat) : ((Scanner.ofString d source).past k).next.1 = stream d source k :=
    Scanner.next_past _ k
  refine ⟨fun k => ?_, answers_of_past hpast⟩
  rw [call_eq_next_past rfl]
  exact hpast k

end TokenCursor
end TextTemplate
