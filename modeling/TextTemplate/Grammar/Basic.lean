import TextTemplate.Grammar.Problem
import TextTemplate.Tree

/-! Reading a list of tokens. A reader records what is wrong and skips to a place where it can go
on, so that one pass finds all problems; nothing read is the sign that a problem is on record. -/

namespace TextTemplate.Grammar

structure State where
  current : Token
  upcoming : List Token
  left : Nat
  left_eq : left = upcoming.length
  problems : List Problem
  depth : Nat
  braces : Nat
  /-- Whether the nesting limit was hit, after which nothing is recorded any more. -/
  exceeded : Bool
  problems_ne_nil : exceeded = true → problems ≠ []

namespace State

def ofTokens : List Token → State
  | [] => ⟨.endOfInput .start, [], 0, rfl, [], 0, 0, false, nofun⟩
  | t :: ts => ⟨t, ts, ts.length, rfl, [], 0, 0, false, nofun⟩

/-- The state at the next token; the last token stays in view. -/
def advance (s : State) : State :=
  match h : s.upcoming with
  | [] => s
  | t :: ts =>
    { s with current := t, upcoming := ts, left := s.left - 1, left_eq := by simp [s.left_eq, h] }

def record (s : State) (position : Position) (fault : Fault) : State :=
  if s.exceeded then s
  else { s with problems := s.problems ++ [⟨position, fault⟩], problems_ne_nil := by simp }

theorem problems_record_ne_nil (s : State) (position : Position) (fault : Fault) :
    (s.record position fault).problems ≠ [] := by
  unfold record
  split
  · rename_i h
    exact s.problems_ne_nil h
  · simp

def firstIn (stop : Lexeme → Bool) (t : Token) : List Token → Token × List Token
  | [] => (t, [])
  | t' :: ts => if stop t.lexeme then (t, t' :: ts) else firstIn stop t' ts

def skipTo (stop : Lexeme → Bool) (s : State) : State :=
  let (current, upcoming) := firstIn stop s.current s.upcoming
  { s with current, upcoming, left := upcoming.length, left_eq := rfl }

def resumes : Lexeme → Bool
  | .text _ => true
  | .keyword .end_ => true
  | .endOfInput => true
  | _ => false

def recover (s : State) : State :=
  match s.current.lexeme with
  | .endOfInput => s
  -- a text or `end` that is itself the problem is skipped too
  | l => if resumes l then s.advance.skipTo resumes else s.skipTo resumes

def giveUp (s : State) : State :=
  let s' := s.record s.current.position .tooDeep
  skipTo (· == Lexeme.endOfInput)
    { s' with exceeded := true, problems_ne_nil := fun _ => s.problems_record_ne_nil _ _ }

def tokens (s : State) : List Token :=
  s.current :: s.upcoming

/-- Whether a reader can lead from one state to another: it only moves forward in the tokens, takes
no problem back, records none after the nesting limit was hit, and closes what it opens. -/
structure Leads (s s' : State) : Prop where
  tokens : s'.tokens <:+ s.tokens
  problems : s.problems <+: s'.problems
  exceeded : s.exceeded = true → s'.exceeded = true ∧ s'.problems = s.problems
  depth : s'.depth = s.depth
  braces : s'.braces = s.braces

namespace Leads

theorem refl (s : State) : Leads s s :=
  ⟨List.suffix_rfl, List.prefix_rfl, fun h => ⟨h, rfl⟩, rfl, rfl⟩

theorem trans {s s₁ s₂ : State} (h₁ : Leads s s₁) (h₂ : Leads s₁ s₂) : Leads s s₂ where
  tokens := h₂.tokens.trans h₁.tokens
  problems := h₁.problems.trans h₂.problems
  exceeded h := by
    obtain ⟨he, hp⟩ := h₁.exceeded h
    exact ⟨(h₂.exceeded he).1, (h₂.exceeded he).2.trans hp⟩
  depth := h₂.depth.trans h₁.depth
  braces := h₂.braces.trans h₁.braces

theorem advance (s : State) : Leads s s.advance := by
  unfold State.advance
  split
  · exact refl s
  · rename_i t ts h
    exact ⟨⟨[s.current], by simp [State.tokens, h]⟩, List.prefix_rfl, fun h => ⟨h, rfl⟩, rfl, rfl⟩

theorem record (s : State) (position : Position) (fault : Fault) :
    Leads s (s.record position fault) := by
  unfold State.record
  split
  · exact refl s
  · rename_i h
    exact ⟨List.suffix_rfl, List.prefix_append .., fun h' => absurd h' h, rfl, rfl⟩

theorem skipTo (stop : Lexeme → Bool) (s : State) : Leads s (s.skipTo stop) := by
  have h (t : Token) (ts : List Token) :
      (firstIn stop t ts).1 :: (firstIn stop t ts).2 <:+ t :: ts := by
    induction ts generalizing t with
    | nil => exact List.suffix_rfl
    | cons t' ts ih =>
      unfold firstIn
      split
      · exact List.suffix_rfl
      · exact (ih t').trans (List.suffix_cons t _)
  exact ⟨h s.current s.upcoming, List.prefix_rfl, fun h => ⟨h, rfl⟩, rfl, rfl⟩

theorem recover (s : State) : Leads s s.recover := by
  unfold State.recover
  split
  · exact refl s
  · split
    · exact (advance s).trans (skipTo ..)
    · exact skipTo ..

theorem giveUp (s : State) : Leads s s.giveUp := by
  unfold State.giveUp
  refine (record s s.current.position .tooDeep).trans (Leads.trans ?_ (skipTo ..))
  refine ⟨List.suffix_rfl, List.prefix_rfl, fun h => ⟨rfl, rfl⟩, rfl, rfl⟩

end Leads
end State

structure Reader (α : Type) where
  run : State → Option α × State
  leads (s : State) : s.Leads (run s).2

namespace Reader

variable {α : Type}

def peek (f : State → α) : Reader α := ⟨fun s => (some (f s), s), .refl⟩

def move (f : State → State) (h : ∀ s : State, s.Leads (f s)) : Reader Unit :=
  ⟨fun s => (some (), f s), h⟩

def stop (f : State → State) (h : ∀ s : State, s.Leads (f s)) : Reader α :=
  ⟨fun s => (none, f s), h⟩

instance : Monad Reader where
  pure a := peek fun _ => a
  bind r k :=
    { run s :=
        match r.run s with
        | (some a, s') => (k a).run s'
        | (none, s') => (none, s')
      leads s := by
        have h := r.leads s
        split <;> rename_i hr <;> rw [hr] at h
        · exact h.trans ((k _).leads _)
        · exact h }

end Reader

def current : Reader Token := .peek State.current

def advance : Reader Unit := .move State.advance .advance

def atSymbol (x : Symbol) : Reader Bool := .peek fun s => s.current.lexeme == .symbol x

def atKeyword (k : Keyword) : Reader Bool := .peek fun s => s.current.lexeme == .keyword k

def note (fault : Fault) : Reader Unit :=
  .move (fun s => s.record s.current.position fault) fun s => .record s ..

def skipOver (fault : Fault) : Reader Unit :=
  .move (fun s => (s.record s.current.position fault).recover)
    fun s => (State.Leads.record s ..).trans (.recover _)

def failAt {α : Type} (position : Position) (fault : Fault) : Reader α :=
  .stop (fun s => (s.record position fault).recover)
    fun s => (State.Leads.record s ..).trans (.recover _)

def fail {α : Type} (fault : Fault) : Reader α := do failAt (← current).position fault

def unexpected {α : Type} (what : Expected) : Reader α := do fail (.misplaced what (← current))

def optional {α : Type} (r : Reader α) : Reader (Option α) :=
  ⟨fun s => (some (r.run s).1, (r.run s).2), r.leads⟩

def giveUp {α : Type} : Reader α := .stop State.giveUp .giveUp

def nested {α : Type} (r : Reader α) : Reader α where
  run s :=
    if maxNesting ≤ s.depth then (none, s.giveUp)
    else
      let (a, s) := r.run { s with depth := s.depth + 1 }
      (a, { s with depth := s.depth - 1 })
  leads s := by
    split
    · exact .giveUp s
    · have h := r.leads { s with depth := s.depth + 1 }
      exact ⟨h.tokens, h.problems, h.exceeded, by simp [h.depth], h.braces⟩

def inBraces {α : Type} (r : Reader α) : Reader α where
  run s :=
    let (a, s) := r.run { s with braces := s.braces + 1 }
    (a, { s with braces := s.braces - 1 })
  leads s := by
    have h := r.leads { s with braces := s.braces + 1 }
    exact ⟨h.tokens, h.problems, h.exceeded, h.depth, by simp [h.braces]⟩

def passes {α β : Type} (pass : α → Reader (α ⊕ β)) (a : α) (s : State) : Option β × State :=
  match (pass a).run s with
  | (some (.inl a), s') =>
    -- a pass that leaves no fewer tokens ends the loop
    if s'.left < s.left then passes pass a s' else (none, s')
  | (some (.inr b), s') => (some b, s')
  | (none, s') => (none, s')
termination_by s.left

theorem leads_passes {α β : Type} (pass : α → Reader (α ⊕ β)) (a : α) (s : State) :
    s.Leads (passes pass a s).2 := by
  fun_induction passes pass a s with
  | case1 a s a' s' hs hlt ih => exact (by simpa [hs] using (pass a).leads s : s.Leads s').trans ih
  | case2 a s a' s' hs => simpa [hs] using (pass a).leads s
  | case3 a s b s' hs => simpa [hs] using (pass a).leads s
  | case4 a s s' hs => simpa [hs] using (pass a).leads s

def repeatUntil {α β : Type} (pass : α → Reader (α ⊕ β)) (a : α) : Reader β :=
  ⟨passes pass a, leads_passes pass a⟩

def operatorPass {α : Type} (operand : Reader α) (operator? : Lexeme → Option (α → α → α))
    (lhs : α) : Reader (α ⊕ α) := do
  match operator? (← current).lexeme with
  | some combine => advance; pure (.inl (combine lhs (← operand)))
  | none => pure (.inr lhs)

def leftAssociative {α : Type} (operand : Reader α) (operator? : Lexeme → Option (α → α → α)) :
    Reader α := do
  repeatUntil (operatorPass operand operator?) (← operand)

def itemPass {α : Type} (item : Reader α) (closing : Symbol) (what : Expected) (read : List α) :
    Reader (List α ⊕ List α) := do
  let a ← item
  if ← atSymbol .comma then
    advance
    pure (.inl (a :: read))
  else if ← atSymbol closing then
    advance
    pure (.inr (a :: read).reverse)
  else unexpected what

def separated {α : Type} (item : Reader α) (closing : Symbol) (what : Expected) :
    Reader (List α) := do
  if ← atSymbol closing then
    advance
    pure []
  else repeatUntil (itemPass item closing what) []

def skipColon : Reader Unit := do
  if ← atSymbol .colon then advance

def expectEnd : Reader Unit := do
  if ← atKeyword .end_ then advance else unexpected .endOfConstruct

def memberName : Reader String := do
  match (← current).lexeme.word? with
  | some name => advance; pure name
  | none => unexpected .memberName

def templateName : Reader String := do
  match (← current).lexeme with
  | .string name => advance; pure name
  | _ => unexpected .templateName

def blockName : Reader String := do
  match (← current).lexeme with
  | .string name => advance; pure name
  | _ => pure defaultBlock

end TextTemplate.Grammar
