import TextTemplate.Proofs.Grammar.Reading

/-! How far readers come. Where nothing is wrong so far, a reader comes to a place further on, from
where it goes on as some other reader would, or it gives up because of the limit on nesting. -/

namespace TextTemplate.Grammar

namespace State

structure At (s : State) (n : Nat) (ls : List Lexeme) : Prop where
  lexemes : s.lexemes = ls
  problems : s.problems = []
  depth : s.depth + n ≤ maxNesting

def GaveUp (s : State) : Prop :=
  s.exceeded = true ∧ ∃ position, s.problems = [⟨position, .tooDeep⟩]

theorem GaveUp.leads {s s' : State} (h : s.GaveUp) (hs : s.Leads s') : s'.GaveUp := by
  obtain ⟨he, position, hp⟩ := h
  obtain ⟨he', hp'⟩ := hs.exceeded he
  exact ⟨he', position, hp'.trans hp⟩

namespace At

variable {s : State} {n : Nat} {l : Lexeme} {ls : List Lexeme}

theorem current (h : s.At n (l :: ls)) : s.current.lexeme = l :=
  (List.cons.inj h.lexemes).1

theorem upcoming (h : s.At n (l :: ls)) : s.upcoming.map Token.lexeme = ls :=
  (List.cons.inj h.lexemes).2

theorem exceeded (h : s.At n ls) : s.exceeded = false := by
  cases he : s.exceeded with
  | false => rfl
  | true => exact absurd h.problems (s.problems_ne_nil he)

theorem advance (h : s.At n (l :: ls)) (hne : ls ≠ []) : s.advance.At n ls := by
  have hu := h.upcoming
  unfold State.advance
  split
  · rename_i h0
    exact absurd (by simpa [h0] using hu.symm) hne
  · rename_i t ts h1
    exact ⟨by simp [State.lexemes_eq, ← hu, h1], h.problems, h.depth⟩

theorem giveUp (h : s.At n ls) : s.giveUp.GaveUp := by
  refine GaveUp.leads ⟨rfl, s.current.position, ?_⟩ (.skipTo _ _)
  simp [State.record, h.exceeded, h.problems]

end At
end State

variable {α β : Type}

/-- From `s` on, the reader `r` does what `k` does from a place before `ls` on, or it gives up,
which it does only if `deep`. -/
def Reaches (n : Nat) (deep : Prop) (r : Reader α) (s : State) (k : Reader α) (ls : List Lexeme) :
    Prop :=
  (∃ s', s.Leads s' ∧ s'.At n ls ∧ r.run s = k.run s') ∨ deep ∧ (r.run s).2.GaveUp

namespace Reaches

variable {n : Nat} {deep : Prop} {s : State} {r k k' : Reader α} {l : Lexeme}
  {ls mid : List Lexeme}

theorem refl (h : s.At n ls) : Reaches n deep k s k ls :=
  .inl ⟨s, .refl s, h, rfl⟩

theorem mono {deep' : Prop} (h : Reaches n deep r s k ls) (hd : deep → deep') :
    Reaches n deep' r s k ls :=
  h.imp_right fun ⟨hdeep, hg⟩ => ⟨hd hdeep, hg⟩

theorem within {m m' : Nat} (h : Reaches n (n ≤ m) r s k ls)
    (hm : m ≤ m' := by simp only [List.length_append, List.length_cons]; omega) :
    Reaches n (n ≤ m') r s k ls :=
  h.mono fun hn => Nat.le_trans hn hm

theorem trans (h : Reaches n deep r s k mid)
    (hk : ∀ s', s'.At n mid → s'.braces = s.braces → Reaches n deep k s' k' ls) :
    Reaches n deep r s k' ls := by
  obtain ⟨s₁, hs₁, hat, hrun⟩ | hdeep := h
  · obtain ⟨s₂, hs₂, hat', hrun'⟩ | ⟨hdeep, hg⟩ := hk s₁ hat hs₁.braces
    · exact .inl ⟨s₂, hs₁.trans hs₂, hat', hrun.trans hrun'⟩
    · exact .inr ⟨hdeep, hrun ▸ hg⟩
  · exact .inr hdeep

theorem bind {k : α → Reader β} {k' : Reader β} {a : α} (h : Reaches n deep r s (pure a) mid)
    (hk : ∀ s', s'.At n mid → s'.braces = s.braces → Reaches n deep (k a) s' k' ls) :
    Reaches n deep (r >>= k) s k' ls := by
  obtain ⟨s₁, hs₁, hat, hrun⟩ | ⟨hdeep, hg⟩ := h
  · refine trans (.inl ⟨s₁, hs₁, hat, ?_⟩) hk
    exact run_bind_some hrun
  · refine .inr ⟨hdeep, ?_⟩
    rcases hr : r.run s with ⟨_ | a', s'⟩ <;> rw [hr] at hg
    · rwa [run_bind_none hr]
    · rw [run_bind_some hr]
      exact hg.leads ((k a').leads s')

theorem peek {f : State → β} {k : β → Reader α} (h : Reaches n deep (k (f s)) s k' ls) :
    Reaches n deep (Reader.peek f >>= k) s k' ls := h

theorem current {k : Token → Reader α} (h : Reaches n deep (k s.current) s k' ls) :
    Reaches n deep (current >>= k) s k' ls := h

theorem atSymbol {x : Symbol} {yes no : Reader α} (h : s.At n (.symbol x :: mid))
    (hyes : Reaches n deep yes s k' ls) :
    Reaches n deep (atSymbol x >>= fun here => if here then yes else no) s k' ls := by
  refine .peek ?_
  rw [beq_iff_eq.2 h.current]
  exact hyes

theorem not_atSymbol {x : Symbol} {yes no : Reader α} (h : s.At n (l :: mid)) (hl : l ≠ .symbol x)
    (hno : Reaches n deep no s k' ls) :
    Reaches n deep (Grammar.atSymbol x >>= fun here => if here then yes else no) s k' ls := by
  refine .peek ?_
  rw [beq_false_of_ne (h.current ▸ hl)]
  exact hno

theorem atKeyword {x : Keyword} {yes no : Reader α} (h : s.At n (.keyword x :: mid))
    (hyes : Reaches n deep yes s k' ls) :
    Reaches n deep (atKeyword x >>= fun here => if here then yes else no) s k' ls := by
  refine .peek ?_
  rw [beq_iff_eq.2 h.current]
  exact hyes

theorem not_atKeyword {x : Keyword} {yes no : Reader α} (h : s.At n (l :: mid))
    (hl : l ≠ .keyword x) (hno : Reaches n deep no s k' ls) :
    Reaches n deep (Grammar.atKeyword x >>= fun here => if here then yes else no) s k' ls := by
  refine .peek ?_
  rw [beq_false_of_ne (h.current ▸ hl)]
  exact hno

theorem step (h : s.At n (l :: ls)) (hne : ls ≠ [] := by simp) :
    Reaches n deep Grammar.advance s (pure ()) ls :=
  .inl ⟨s.advance, .advance s, h.advance hne, rfl⟩

theorem advance {k : Unit → Reader α} (h : s.At n (l :: mid))
    (hk : ∀ s', s'.At n mid → s'.braces = s.braces → Reaches n deep (k ()) s' k' ls)
    (hne : mid ≠ [] := by simp) :
    Reaches n deep (advance >>= k) s k' ls :=
  (step h hne).bind hk

theorem optional {a : α} (h : Reaches n deep r s (pure a) ls) :
    Reaches n deep (optional r) s (pure (some a)) ls := by
  obtain ⟨s', hs', hat, hrun⟩ | hdeep := h
  · refine .inl ⟨s', hs', hat, ?_⟩
    change (some (r.run s).1, (r.run s).2) = _
    rw [hrun]
    rfl
  · exact .inr hdeep

theorem nested {a : α} (h : s.At (n + 1) mid)
    (hr : ∀ s', s'.At n mid → s'.braces = s.braces → Reaches n deep r s' (pure a) ls) :
    Reaches (n + 1) deep (nested r) s (pure a) ls := by
  have hd := h.depth
  have hrun := run_nested_below (r := r) (s := s) (by omega)
  have hdown : State.At { s with depth := s.depth + 1 } n mid :=
    ⟨h.lexemes, h.problems, by simp only; omega⟩
  -- the depth that the reader leaves is the one it came to, so taking one away gives the old one
  obtain ⟨s', hs', hat, hr⟩ | ⟨hdeep, hg⟩ := hr _ hdown rfl
  · refine .inl ⟨{ s' with depth := s'.depth - 1 }, ?_, ?_, ?_⟩
    · exact ⟨hs'.tokens, hs'.problems, hs'.exceeded, by simp [hs'.depth], hs'.braces⟩
    · have hdepth := hat.depth
      have hsame := hs'.depth
      exact ⟨hat.lexemes, hat.problems, by simp only at hsame ⊢; omega⟩
    · rw [hrun, hr]
      rfl
  · exact .inr ⟨hdeep, by rw [hrun]; exact hg⟩

theorem inBraces {a : α} (h : s.At n mid)
    (hr : ∀ s', s'.At n mid → 0 < s'.braces → Reaches n deep r s' (pure a) ls) :
    Reaches n deep (inBraces r) s (pure a) ls := by
  have hin : State.At { s with braces := s.braces + 1 } n mid := ⟨h.lexemes, h.problems, h.depth⟩
  obtain ⟨s', hs', hat, hr⟩ | hdeep := hr _ hin (Nat.succ_pos _)
  · refine .inl ⟨{ s' with braces := s'.braces - 1 }, ?_, ?_, ?_⟩
    · exact ⟨hs'.tokens, hs'.problems, hs'.exceeded, hs'.depth, by simp [hs'.braces]⟩
    · exact ⟨hat.lexemes, hat.problems, hat.depth⟩
    · rw [run_inBraces, hr]
      rfl
  · exact .inr hdeep

theorem giveUp (h : s.At n mid) (hdeep : deep) : Reaches n deep Grammar.giveUp s k ls :=
  .inr ⟨hdeep, h.giveUp⟩

theorem optional_giveUp {k : Option α → Reader β} {k' : Reader β} (h : s.At 0 mid)
    (hdeep : deep) :
    Reaches n deep (Grammar.optional (Grammar.nested Grammar.giveUp) >>= k) s k' ls := by
  refine .inr ⟨hdeep, ?_⟩
  have hg : ((Grammar.nested (Grammar.giveUp : Reader α)).run s).2.GaveUp := by
    -- at the limit `nested` gives up, below it the reader does
    by_cases hd : maxNesting ≤ s.depth
    · rw [run_nested_limit hd]
      exact h.giveUp
    · have hdown : State.At { s with depth := s.depth + 1 } 0 mid :=
        ⟨h.lexemes, h.problems, by simp only; omega⟩
      rw [run_nested_below hd]
      exact hdown.giveUp
  have hrun : ∀ r : Reader α, (Grammar.optional r).run s = (some (r.run s).1, (r.run s).2) :=
    fun _ => rfl
  rw [run_bind_some (hrun _)]
  exact hg.leads ((k _).leads _)

theorem gaveUp_passes {pass : α → Reader (α ⊕ β)} {a : α} (hg : ((pass a).run s).2.GaveUp) :
    ((repeatUntil pass a).run s).2.GaveUp := by
  change (passes pass a s).2.GaveUp
  rw [passes]
  split <;> rename_i hr <;> rw [hr] at hg
  · split
    · exact hg.leads (leads_passes ..)
    · exact hg
  · exact hg
  · exact hg

theorem next {pass : α → Reader (α ⊕ β)} {a a' : α} (h : s.At n ls)
    (hpass : Reaches n deep (pass a) s (pure (.inl a')) mid)
    (hlen : mid.length < ls.length := by simp only [List.length_append, List.length_cons]; omega) :
    Reaches n deep (repeatUntil pass a) s (repeatUntil pass a') mid := by
  obtain ⟨s', hs', hat, hrun⟩ | ⟨hdeep, hg⟩ := hpass
  · refine .inl ⟨s', hs', hat, ?_⟩
    have hlt : s'.left < s.left := by
      have hl := s.length_lexemes
      have hl' := s'.length_lexemes
      rw [h.lexemes] at hl
      rw [hat.lexemes] at hl'
      omega
    change passes pass a s = passes pass a' s'
    rw [passes, hrun]
    exact if_pos hlt
  · exact .inr ⟨hdeep, gaveUp_passes hg⟩

theorem last {pass : α → Reader (α ⊕ β)} {a : α} {b : β}
    (hpass : Reaches n deep (pass a) s (pure (.inr b)) ls) :
    Reaches n deep (repeatUntil pass a) s (pure b) ls := by
  obtain ⟨s', hs', hat, hrun⟩ | ⟨hdeep, hg⟩ := hpass
  · refine .inl ⟨s', hs', hat, ?_⟩
    change passes pass a s = _
    rw [passes, hrun]
    rfl
  · exact .inr ⟨hdeep, gaveUp_passes hg⟩

theorem lastItem {item : Reader α} {closing : Symbol} {what : Expected} {a : α} {read : List α}
    (hitem : Reaches n deep item s (pure a) (.symbol closing :: ls)) (hne : ls ≠ [])
    (hclosing : closing ≠ .comma) :
    Reaches n deep (repeatUntil (itemPass item closing what) read) s (pure (read.reverse ++ [a]))
      ls := by
  rw [← List.reverse_cons]
  refine .last (.bind hitem fun s h _ => .not_atSymbol h (fun hc => ?_) ?_)
  · exact hclosing (Lexeme.symbol.inj hc)
  · exact .atSymbol h (.advance h (fun _ h _ => .refl h) hne)

theorem nextItem {item : Reader α} {closing : Symbol} {what : Expected} {a : α} {read : List α}
    (h : s.At n ls) (hitem : Reaches n deep item s (pure a) (.symbol .comma :: mid))
    (hne : mid ≠ [] := by simp)
    (hlen : mid.length < ls.length := by simp only [List.length_append, List.length_cons]; omega) :
    Reaches n deep (repeatUntil (itemPass item closing what) read) s
      (repeatUntil (itemPass item closing what) (a :: read)) mid :=
  .next h (.bind hitem fun _ h _ => .atSymbol h (.advance h (fun _ h _ => .refl h) hne)) hlen

theorem expectEnd (h : s.At n (.keyword .end_ :: ls)) (hne : ls ≠ [] := by simp) :
    Reaches n deep expectEnd s (pure ()) ls :=
  .atKeyword h (step h hne)

theorem memberName {name : String} (h : s.At n (l :: ls)) (hl : l.word? = some name)
    (hne : ls ≠ [] := by simp) : Reaches n deep memberName s (pure name) ls := by
  refine .current ?_
  rw [h.current, hl]
  exact .advance h (fun _ h _ => .refl h) hne

theorem templateName {name : String} (h : s.At n (.string name :: ls))
    (hne : ls ≠ [] := by simp) :
    Reaches n deep templateName s (pure name) ls := by
  refine .current ?_
  rw [h.current]
  exact .advance h (fun _ h _ => .refl h) hne

end Reaches
end TextTemplate.Grammar
