import TextTemplate.Proofs.Render.Simulation

/-! When the variables of an execution are in use. Runs are recorded in a monad that notes when an
execution, or a block or lambda body over its variables, begins and ends. At every moment of a run
the context knows which of them have begun and not ended. -/

namespace TextTemplate

inductive Happening where
  /-- Something begins that uses the variables of an execution: the execution itself, or a block or
  a lambda body. -/
  | begins (frame : Nat)
  /-- What began last and uses these variables has ended. -/
  | ends (frame : Nat)
  | other
  deriving Repr, DecidableEq

structure Event (σ : Type) where
  happening : Happening
  after : Context σ

abbrev History (σ : Type) := List (Event σ)

namespace History

variable {σ : Type} {c : Context σ} {past h : History σ} {frame : Nat}

def now (c : Context σ) : History σ → Context σ
  | [] => c
  | e :: _ => e.after

def begun (frame : Nat) (h : History σ) : Nat :=
  h.countP fun e => e.happening = .begins frame

def ended (frame : Nat) (h : History σ) : Nat :=
  h.countP fun e => e.happening = .ends frame

def UnderWay (frame : Nat) (h : History σ) : Prop := h.ended frame < h.begun frame

instance (frame : Nat) (h : History σ) : Decidable (h.UnderWay frame) :=
  inferInstanceAs (Decidable (_ < _))

theorem now_cons (c : Context σ) (e : Event σ) (past : History σ) :
    now c (e :: past) = e.after := rfl

theorem now_append (c : Context σ) (h past : History σ) :
    (h ++ past).now c = h.now (past.now c) := by
  cases h <;> rfl

end History

/-- What an event may do to the context `c`: what runs in it changes only when something begins or
ends. -/
structure Event.Follows {σ : Type} (c : Context σ) (e : Event σ) : Prop where
  render : e.after.render = c.render
  running : match e.happening with
    | .begins frame => e.after.running = frame :: c.running
    | .ends frame => c.running = frame :: e.after.running
    | .other => e.after.running = c.running

namespace History

variable {σ : Type} {c : Context σ} {past h : History σ}

def Follows (c : Context σ) : History σ → Prop
  | [] => True
  | e :: past => e.Follows (now c past) ∧ Follows c past

theorem follows_append : (h ++ past).Follows c ↔ h.Follows (past.now c) ∧ past.Follows c := by
  induction h with
  | nil => simp [Follows]
  | cons e h ih => rw [List.cons_append, Follows, ih, now_append, Follows, and_assoc]

theorem Follows.suffix (h' : h.Follows c) (hs : past <:+ h) : past.Follows c := by
  obtain ⟨later, rfl⟩ := hs
  exact (follows_append.1 h').2

theorem Follows.render (hf : h.Follows c) : (h.now c).render = c.render := by
  induction h with
  | nil => rfl
  | cons e h ih => exact hf.1.render.trans (ih hf.2)

theorem Follows.count_running (hf : h.Follows c) (frame : Nat) :
    (h.now c).running.count frame + h.ended frame = c.running.count frame + h.begun frame := by
  induction h with
  | nil => rfl
  | cons e past ih =>
    have hpast := ih hf.2
    have hrunning := hf.1.running
    simp only [ended, begun, List.countP_cons] at hpast ⊢
    cases he : e.happening with
    | begins f =>
      rw [he] at hrunning
      simp only [now_cons, hrunning, List.count_cons, beq_iff_eq, decide_eq_true_eq,
        Happening.begins.injEq, reduceCtorEq, if_false]
      omega
    | ends f =>
      rw [he] at hrunning
      simp only [hrunning, List.count_cons, beq_iff_eq] at hpast
      simp only [now_cons, decide_eq_true_eq, Happening.ends.injEq, reduceCtorEq, if_false]
      omega
    | other =>
      rw [he] at hrunning
      simp only [now_cons, hrunning, decide_eq_true_eq, reduceCtorEq, if_false]
      omega

theorem Follows.mem_running (hf : h.Follows c) (hc : c.running = []) (frame : Nat) :
    frame ∈ (h.now c).running ↔ h.UnderWay frame := by
  have hcount := hf.count_running frame
  rw [hc, List.count_nil, Nat.zero_add] at hcount
  rw [← List.count_pos_iff, UnderWay]
  omega

def Holds (c : Context σ) (frame : Nat) (h : History σ) : Prop :=
  h.UnderWay frame ∨ ∃ b ∈ (h.now c).blocks, b.2.usesFrame frame

instance (c : Context σ) (frame : Nat) (h : History σ) : Decidable (h.Holds c frame) :=
  inferInstanceAs (Decidable (_ ∨ _))

theorem Follows.keeps_iff (hf : h.Follows c) (hc : c.running = []) (frame : Nat) :
    (h.now c).keeps ⟨c.render, frame⟩ ↔ h.Holds c frame := by
  simp only [Context.keeps, hf.render, beq_self_eq_true, Bool.true_and, Bool.or_eq_true,
    List.contains_iff_mem, List.any_eq_true, hf.mem_running hc, Holds]

end History

abbrev Recorded (σ : Type) := ExceptT Halt (StateM (Context σ × History σ))

instance {σ : Type} : MonadRender σ (Recorded σ) where
  get f := fun s => (.ok (f s.1), s)
  update f := fun s => (.ok (), f s.1, ⟨.other, f s.1⟩ :: s.2)
  halt h := fun s => (.error h, s)
  attempt r := fun s =>
    let (a, s) := r s
    (.ok a, s)
  holding frame r := fun (c, past) =>
    let (a, c', past) := r (c.hold frame, ⟨.begins frame, c.hold frame⟩ :: past)
    (a, c.release c', ⟨.ends frame, c.release c'⟩ :: past)

theorem Recorded.holding_apply {σ α : Type} (frame : Nat) (t : Recorded σ α) (c : Context σ)
    (past : History σ) :
    Run.holding frame t (c, past) =
      let s := t (c.hold frame, ⟨.begins frame, c.hold frame⟩ :: past)
      (s.1, c.release s.2.1, ⟨.ends frame, c.release s.2.1⟩ :: s.2.2) := rfl

namespace Run

variable {σ α β : Type}

/-- The recorded run `t` does what `r` does; each event follows the one before it, up to the context
in which the run ends, and all that began in the run has ended. -/
def Records ⦃α : Type⦄ (t : Recorded σ α) (r : Run σ α) : Prop :=
  ∀ (c : Context σ) (past : History σ), ∃ h : History σ,
    t (c, past) = ((r c).1, (r c).2, h ++ past) ∧ h.Follows c ∧ h.now c = (r c).2 ∧
      (r c).2.running = c.running

namespace Records

theorem get (f : Context σ → α) : Records (get f) (get f) :=
  fun _ _ => ⟨[], rfl, trivial, rfl, rfl⟩

theorem halt (h : Halt) : Records (halt h : Recorded σ α) (halt h) :=
  fun _ _ => ⟨[], rfl, trivial, rfl, rfl⟩

theorem update {f : Context σ → Context σ}
    (h : ∀ c, (f c).render = c.render ∧ (f c).running = c.running) :
    Records (update f) (update f) :=
  fun c _ => ⟨[⟨.other, f c⟩], rfl, ⟨⟨(h c).1, (h c).2⟩, trivial⟩, rfl, (h c).2⟩

theorem bind {t : Recorded σ α} {r : Run σ α} {f : α → Recorded σ β} {g : α → Run σ β}
    (h : Records t r) (hf : ∀ a, Records (f a) (g a)) : Records (t >>= f) (r >>= g) := by
  intro c past
  obtain ⟨h₁, ht, hfollows, hnow, hrunning⟩ := h c past
  rw [bind_apply, bind_apply, ht]
  rcases hr : r c with ⟨e | a, c'⟩ <;> rw [hr] at hnow hrunning
  · exact ⟨h₁, rfl, hfollows, hnow, hrunning⟩
  · obtain ⟨h₂, ht', hfollows', hnow', hrunning'⟩ := hf a c' (h₁ ++ past)
    refine ⟨h₂ ++ h₁, ?_, ?_, ?_, hrunning'.trans hrunning⟩
    · rw [List.append_assoc]
      exact ht'
    · exact History.follows_append.2 ⟨hnow ▸ hfollows', hfollows⟩
    · rw [History.now_append, hnow, hnow']

theorem attempt {t : Recorded σ α} {r : Run σ α} (h : Records t r) :
    Records (attempt t) (attempt r) := by
  intro c past
  obtain ⟨new, ht, hrest⟩ := h c past
  refine ⟨new, ?_, hrest⟩
  change ((.ok (t (c, past)).1 : Except Halt _), (t (c, past)).2) = _
  rw [ht]
  rfl

theorem holding {t : Recorded σ α} {r : Run σ α} (frame : Nat) (h : Records t r) :
    Records (holding frame t) (holding frame r) := by
  intro c past
  let first : Event σ := ⟨.begins frame, c.hold frame⟩
  let last : Event σ := ⟨.ends frame, c.release (r (c.hold frame)).2⟩
  obtain ⟨h₁, ht, hfollows, hnow, hrunning⟩ := h (c.hold frame) (first :: past)
  have hfirst : History.Follows c [first] := ⟨⟨rfl, rfl⟩, trivial⟩
  have hnow' : History.now c (h₁ ++ [first]) = (r (c.hold frame)).2 := by
    rw [History.now_append]
    exact hnow
  rw [holding_apply]
  refine ⟨last :: (h₁ ++ [first]), ?_, ⟨?_, ?_⟩, rfl, rfl⟩
  · rw [Recorded.holding_apply, ht, List.cons_append, List.append_assoc]
    rfl
  · rw [hnow']
    exact ⟨rfl, hrunning⟩
  · exact History.follows_append.2 ⟨hfollows, hfirst⟩

end Records

theorem mirrors_records : Mirrors (Records (σ := σ)) where
  pure a := Records.get fun _ => a
  bind := Records.bind
  get := Records.get
  update := Records.update
  halt := Records.halt
  attempt := Records.attempt
  load frame slot := Records.get fun c => c.load frame slot
  store frame slot v := Records.update (f := fun c => c.store frame slot v) fun _ => ⟨rfl, rfl⟩
  holding := Records.holding

end Run
end TextTemplate
