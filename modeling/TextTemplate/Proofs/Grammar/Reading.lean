import TextTemplate.Grammar.Basic

/-! What readers find where nothing is wrong. A reader that records no problem finds something, and
the lexemes that it passes over stand in a given relation to what it finds. -/

namespace TextTemplate.Grammar

namespace State

def lexemes (s : State) : List Lexeme :=
  s.tokens.map Token.lexeme

def Ends (s : State) : Prop :=
  s.lexemes.getLast? = some .endOfInput

theorem lexemes_eq (s : State) : s.lexemes = s.current.lexeme :: s.upcoming.map Token.lexeme := rfl

theorem length_lexemes (s : State) : s.lexemes.length = s.left + 1 := by
  simp [lexemes_eq, s.left_eq]

theorem Ends.leads {s s' : State} (h : s.Ends) (hs : s.Leads s') : s'.Ends := by
  obtain ⟨ts, hts⟩ := hs.tokens
  have hl : s.lexemes = ts.map Token.lexeme ++ s'.lexemes := by
    rw [lexemes, lexemes, ← hts, List.map_append]
  rw [Ends, hl, List.getLast?_append] at h
  rw [Ends, ← h, s'.lexemes_eq, List.getLast?_cons, Option.some_or]

theorem lexemes_advance {s : State} (h : s.Ends) {l : Lexeme} (hl : s.current.lexeme = l)
    (hne : l ≠ .endOfInput) : s.lexemes = l :: s.advance.lexemes := by
  unfold advance
  split
  · rename_i hu
    have hlast : s.current.lexeme = .endOfInput := by simpa [Ends, lexemes_eq, hu] using h
    exact absurd (hl.symm.trans hlast) hne
  · rename_i t ts hu
    simp [lexemes_eq, hu, hl]

theorem lexeme_advance {s : State} {l : Lexeme}
    (h : s.upcoming.head?.any (fun t => t.lexeme == l) = true) : s.advance.current.lexeme = l := by
  unfold advance
  split
  · rename_i hu
    simp [hu] at h
  · rename_i t ts hu
    simpa [hu] using h

theorem problems_eq_nil {s s' : State} (hs : s.Leads s') (h : s'.problems = []) :
    s.problems = [] :=
  List.prefix_nil.1 (h ▸ hs.problems)

end State

variable {α β : Type} {s : State}

theorem run_bind_some {r : Reader α} {k : α → Reader β} {a : α} {s' : State}
    (h : r.run s = (some a, s')) : (r >>= k).run s = (k a).run s' := by
  simp only [bind, h]

theorem run_bind_none {r : Reader α} {k : α → Reader β} {s' : State}
    (h : r.run s = (none, s')) : (r >>= k).run s = (none, s') := by
  simp only [bind, h]

theorem run_current {k : Token → Reader β} : (current >>= k).run s = (k s.current).run s := rfl

theorem run_nested_limit {r : Reader α} (hd : maxNesting ≤ s.depth) :
    (nested r).run s = (none, s.giveUp) :=
  if_pos hd

theorem run_nested_below {r : Reader α} (hd : ¬ maxNesting ≤ s.depth) : (nested r).run s =
    ((r.run { s with depth := s.depth + 1 }).1,
      { (r.run { s with depth := s.depth + 1 }).2 with
        depth := (r.run { s with depth := s.depth + 1 }).2.depth - 1 }) :=
  if_neg hd

theorem run_inBraces {r : Reader α} : (inBraces r).run s =
    ((r.run { s with braces := s.braces + 1 }).1,
      { (r.run { s with braces := s.braces + 1 }).2 with
        braces := (r.run { s with braces := s.braces + 1 }).2.braces - 1 }) := rfl

/-- If nothing is wrong, the reader finds something that stands in relation `P` to the lexemes that
it passes over. -/
def Reads (r : Reader α) (s : State) (P : List Lexeme → α → Prop) : Prop :=
  s.Ends → (r.run s).2.problems = [] →
    ∃ a ts, (r.run s).1 = some a ∧ s.lexemes = ts ++ (r.run s).2.lexemes ∧ P ts a

namespace Reads

variable {r : Reader α} {k : α → Reader β} {P : List Lexeme → α → Prop}
  {Q : List Lexeme → β → Prop}

theorem mono {P' : List Lexeme → α → Prop} (h : Reads r s P) (hP : ∀ ts a, P ts a → P' ts a) :
    Reads r s P' := by
  intro hs hp
  obtain ⟨a, ts, ha, hl, hr⟩ := h hs hp
  exact ⟨a, ts, ha, hl, hP ts a hr⟩

theorem pure {a : α} (h : P [] a) : Reads (Pure.pure a) s P :=
  fun _ _ => ⟨a, [], rfl, rfl, h⟩

theorem found {a : α} {s' : State} (h : Reads r s P) (hs : s.Ends)
    (hr : r.run s = (some a, s')) (hp : s'.problems = []) :
    ∃ ts, s.lexemes = ts ++ s'.lexemes ∧ P ts a := by
  unfold Reads at h
  rw [hr] at h
  obtain ⟨_, ts, ha, hl, hP⟩ := h hs hp
  obtain rfl := Option.some.inj ha
  exact ⟨ts, hl, hP⟩

theorem problems_ne_nil {s' : State} (h : Reads r s P) (hs : s.Ends)
    (hr : r.run s = (none, s')) : s'.problems ≠ [] := by
  unfold Reads at h
  rw [hr] at h
  intro hp
  obtain ⟨_, _, ha, -⟩ := h hs hp
  simp at ha

theorem bind (h : Reads r s P)
    (hk : ∀ a ts s', P ts a → Reads (k a) s' fun us b => Q (ts ++ us) b) :
    Reads (r >>= k) s Q := by
  intro hs hp
  rcases hr : r.run s with ⟨_ | a, s'⟩
  · rw [run_bind_none hr] at hp
    exact absurd hp (h.problems_ne_nil hs hr)
  · rw [run_bind_some hr] at hp ⊢
    have hleads := r.leads s
    rw [hr] at hleads
    obtain ⟨ts, hl, hP⟩ := h.found hs hr (State.problems_eq_nil ((k a).leads s') hp)
    obtain ⟨b, us, hb, hl', hQ⟩ := hk a ts s' hP (hs.leads hleads) hp
    exact ⟨b, ts ++ us, hb, by rw [hl, hl', List.append_assoc], hQ⟩

theorem peek {f : State → α} (h : Reads (k (f s)) s Q) : Reads (Reader.peek f >>= k) s Q := h

theorem current {k : Token → Reader β} (h : Reads (k s.current) s Q) :
    Reads (current >>= k) s Q := h

theorem atSymbol {x : Symbol} {yes no : Reader β}
    (hyes : s.current.lexeme = .symbol x → Reads yes s Q)
    (hno : s.current.lexeme ≠ .symbol x → Reads no s Q) :
    Reads (atSymbol x >>= fun here => if here then yes else no) s Q := by
  refine .peek ?_
  by_cases h : s.current.lexeme = .symbol x
  · rw [beq_iff_eq.2 h]
    exact hyes h
  · rw [beq_false_of_ne h]
    exact hno h

theorem atKeyword {x : Keyword} {yes no : Reader β}
    (hyes : s.current.lexeme = .keyword x → Reads yes s Q)
    (hno : s.current.lexeme ≠ .keyword x → Reads no s Q) :
    Reads (atKeyword x >>= fun here => if here then yes else no) s Q := by
  refine .peek ?_
  by_cases h : s.current.lexeme = .keyword x
  · rw [beq_iff_eq.2 h]
    exact hyes h
  · rw [beq_false_of_ne h]
    exact hno h

theorem advance {k : Unit → Reader β} {l : Lexeme} (hl : s.current.lexeme = l)
    (hne : l ≠ .endOfInput) (h : Reads (k ()) s.advance fun us b => Q (l :: us) b) :
    Reads (advance >>= k) s Q := by
  intro hs hp
  obtain ⟨b, us, hb, hl', hQ⟩ := h (hs.leads (.advance s)) hp
  exact ⟨b, l :: us, hb, by rw [State.lexemes_advance hs hl hne, hl']; rfl, hQ⟩

theorem of_problems_ne_nil (h : (r.run s).2.problems ≠ []) : Reads r s P :=
  fun _ hp => absurd hp h

theorem failAt {position : Position} {fault : Fault} : Reads (failAt position fault) s P := by
  refine of_problems_ne_nil fun h => ?_
  exact s.problems_record_ne_nil position fault (State.problems_eq_nil (.recover _) h)

theorem fail {fault : Fault} : Reads (fail fault) s P := .current .failAt

theorem unexpected {what : Expected} : Reads (unexpected what) s P := .current .fail

theorem giveUp : Reads giveUp s P := by
  refine of_problems_ne_nil fun h => ?_
  have hrecord := State.problems_eq_nil (.skipTo _ _) h
  exact s.problems_record_ne_nil _ _ hrecord

theorem note {fault : Fault} {k : Unit → Reader β} : Reads (note fault >>= k) s Q := by
  refine of_problems_ne_nil fun h => ?_
  exact s.problems_record_ne_nil s.current.position fault (State.problems_eq_nil ((k ()).leads _) h)

theorem skipOver {fault : Fault} {k : Unit → Reader β} : Reads (skipOver fault >>= k) s Q := by
  refine of_problems_ne_nil fun h => ?_
  have hskip := State.problems_eq_nil ((k ()).leads _) h
  have hrecord := State.problems_eq_nil (.recover _) hskip
  exact s.problems_record_ne_nil _ fault hrecord

theorem optional (h : Reads r s P) :
    Reads (optional r) s fun ts a? => ∃ a, a? = some a ∧ P ts a := by
  intro hs hp
  obtain ⟨a, ts, ha, hl, hP⟩ := h hs hp
  exact ⟨some a, ts, congrArg some ha, hl, a, rfl, hP⟩

theorem nested (h : ∀ s, Reads r s P) : Reads (nested r) s P := by
  by_cases hd : maxNesting ≤ s.depth
  · rw [Reads, run_nested_limit hd]
    exact giveUp
  · rw [Reads, run_nested_below hd]
    exact h { s with depth := s.depth + 1 }

theorem inBraces (h : ∀ s, Reads r s P) : Reads (inBraces r) s P :=
  h { s with braces := s.braces + 1 }

theorem repeatUntil {pass : α → Reader (α ⊕ β)} {a : α} (P : α → List Lexeme → β → Prop)
    (h : ∀ a s, Reads (pass a) s fun ts next =>
      match next with
      | .inl a' => ts ≠ [] ∧ ∀ us b, P a' us b → P a (ts ++ us) b
      | .inr b => P a ts b)
    (hQ : ∀ ts b, P a ts b → Q ts b) : Reads (repeatUntil pass a) s Q := by
  refine Reads.mono ?_ hQ
  clear hQ
  suffices hloop : s.Ends → (passes pass a s).2.problems = [] → ∃ b ts,
      (passes pass a s).1 = some b ∧ s.lexemes = ts ++ (passes pass a s).2.lexemes ∧ P a ts b from
    hloop
  fun_induction passes pass a s with
  | case1 a s a' s' hr hlt ih =>
    intro hs hp
    have hp' := State.problems_eq_nil (leads_passes pass a' s') hp
    have hleads := (pass a).leads s
    rw [hr] at hleads
    obtain ⟨ts, hl, -, hP⟩ := (h a s).found hs hr hp'
    obtain ⟨b, us, hb, hl', hP'⟩ := ih (hs.leads hleads) hp
    exact ⟨b, ts ++ us, hb, by rw [hl, hl', List.append_assoc], hP us b hP'⟩
  | case2 a s a' s' hr hlt =>
    -- a pass that goes on leaves fewer tokens
    intro hs hp
    obtain ⟨ts, hl, hne, -⟩ := (h a s).found hs hr hp
    have hlen := congrArg List.length hl
    rw [List.length_append, State.length_lexemes, State.length_lexemes] at hlen
    have hpos := List.length_pos_iff.2 hne
    omega
  | case3 a s b s' hr =>
    intro hs hp
    obtain ⟨ts, hl, hP⟩ := (h a s).found hs hr hp
    exact ⟨b, ts, rfl, hl, hP⟩
  | case4 a s s' hr =>
    intro hs hp
    exact absurd hp ((h a s).problems_ne_nil hs hr)

end Reads
end TextTemplate.Grammar
