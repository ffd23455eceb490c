import TextTemplate.Proofs.Render.DeferredLayout
import TextTemplate.Proofs.Render.Isolation
import TextTemplate.Proofs.Render.Keys
import TextTemplate.Proofs.Render.Scope

/-! A switch is a chain of tests: the subject is assigned to a variable that nothing else uses, and
each test compares that variable with the value of one arm. The two compare with their operands the
other way round, so the proof rests on the symmetry of equality. -/

namespace TextTemplate

namespace Stmt

variable {ν ι : Type}

def elseBody : List (Option (Expr ν ι) × List (Stmt ν ι)) → List (Stmt ν ι)
  | [] => []
  | (none, body) :: _ => body
  | (some _, _) :: arms => elseBody arms

/-- Tests of a variable against the values of arms, each in place of all that stands after the one
before it. -/
def ifChain (t : ν) (otherwise : List (Stmt ν ι)) :
    List (Option (Expr ν ι) × List (Stmt ν ι)) → List (Stmt ν ι)
  | [] => otherwise
  | (none, _) :: arms => ifChain t otherwise arms
  | (some value, body) :: arms =>
    [.branch (.binary .eq (.var t) value) body (ifChain t otherwise arms)]

def switchAsIfs (t : ν) (subject : Expr ν ι) (arms : List (Option (Expr ν ι) × List (Stmt ν ι))) :
    List (Stmt ν ι) :=
  .expr (.assign t none subject) :: ifChain t (elseBody arms) arms

theorem overList_elseBody {p : ν → Prop} :
    ∀ arms : List (Option (Expr ν ι) × List (Stmt ν ι)), OverArms p arms →
      OverList p (elseBody arms)
  | [], _ => trivial
  | (none, _) :: _, h => h.1
  | (some _, _) :: arms, h => overList_elseBody arms h.2.2

end Stmt

namespace Scope

variable {σ : Type} {render frame slot : Nat} {v : Value}

def assigning (frame slot : Nat) (v : Value) (frames : Array (Array Value)) :
    Array (Array Value) :=
  frames.modify frame fun vars => vars.setIfInBounds slot v

theorem withFrames_assigning (c : Context σ) :
    c.withFrames (assigning frame slot v) = c.store frame slot v := rfl

theorem outside_assigning : (except render frame slot).Outside σ (assigning frame slot v) where
  size c := by simp [Context.withFrames, assigning]
  load hne := Context.load_store_of_ne hne
  store hne := Context.store_comm hne
  newFrame hsize := Context.newFrame_store hsize

theorem slot_except : (except render frame slot).slot frame = (· ≠ slot) := by
  funext x
  simp [except]

end Scope

namespace Run

variable {σ α : Type} {world : World σ} {deep : Deep (Run σ)} {frame : Nat} {v : Value}

section Equations

variable (world deep frame)

def matchingOr (subject : Value) (otherwise : List SlotStmt)
    (arms : List (Option SlotExpr × List SlotStmt)) : Run σ Unit := do
  if ← execMatching world deep frame subject arms then pure ()
  else effect world deep frame otherwise

theorem execElse_eq (arms : List (Option SlotExpr × List SlotStmt)) :
    execElse world deep frame arms = effect world deep frame (Stmt.elseBody arms) := by
  induction arms with
  | nil => rfl
  | cons arm arms ih =>
    obtain ⟨_ | e, body⟩ := arm
    · simp only [execElse, Stmt.elseBody, effect]
    · simpa only [execElse, Stmt.elseBody] using ih

theorem matchingOr_nil (otherwise : List SlotStmt) :
    matchingOr world deep frame v otherwise [] = effect world deep frame otherwise := by
  simp [matchingOr, execMatching]

theorem matchingOr_some (otherwise : List SlotStmt) (e : SlotExpr) (body : List SlotStmt)
    (arms : List (Option SlotExpr × List SlotStmt)) :
    matchingOr world deep frame v otherwise ((some e, body) :: arms) =
      (eval world deep frame e >>= fun u =>
        if u.equal v then effect world deep frame body
        else matchingOr world deep frame v otherwise arms) := by
  simp only [matchingOr, execMatching, bind_assoc]
  refine bind_congr fun u => ?_
  split
  · simp [effect]
  · rfl

theorem effect_switch (subject : SlotExpr) (arms : List (Option SlotExpr × List SlotStmt)) :
    effect world deep frame [.switch subject arms] =
      (eval world deep frame subject >>= fun v =>
        matchingOr world deep frame v (Stmt.elseBody arms) arms) := by
  rw [effect_cons]
  simp only [exec, matchingOr, execElse_eq, bind_assoc]
  refine bind_congr fun v => bind_congr fun found => ?_
  cases found <;> simp [effect, execAll, forEffect]

theorem effect_branch_eq (t : Nat) (e : SlotExpr) (yes no : List SlotStmt) :
    effect world deep frame [.branch (.binary .eq (.var t) e) yes no] =
      (load frame t >>= fun v => eval world deep frame e >>= fun u =>
        if v.equal u then effect world deep frame yes else effect world deep frame no) := by
  rw [effect_cons]
  simp only [exec, eval, bind_assoc]
  refine bind_congr fun v => bind_congr fun u => ?_
  simp only [Value.binary, ofExcept, pure_bind, Value.test, effect, execAll]
  cases v.equal u <;> simp [forEffect]

theorem effect_switchAsIfs (t : Nat) (subject : SlotExpr)
    (arms : List (Option SlotExpr × List SlotStmt)) :
    effect world deep frame (Stmt.switchAsIfs t subject arms) =
      (eval world deep frame subject >>= fun v => store frame t v >>= fun _ =>
        effect world deep frame (Stmt.ifChain t (Stmt.elseBody arms) arms)) := by
  rw [Stmt.switchAsIfs, effect_cons]
  simp only [exec, eval, bind_assoc, pure_bind]

end Equations

section Unused

variable {K : Custody σ} {valid : σ → Prop} {render t n : Nat}

def Apart (K : Custody σ) (valid : σ → Prop) (render frame t : Nat) (c : Context σ) : Prop :=
  (c.InScope K (.except render frame t) ∧ c.Keyed valid) ∧ t < c.size frame

theorem commutes_of_inScope {post post' : α → Prop} {r : Run σ α}
    (hr : Commutes (Context.InScope K (.except render frame t)) (Scope.assigning frame t v) post
      r r)
    (hkeys : KeepsKeys valid post' r) (hgrown : Growing r r) :
    Commutes (Apart K valid render frame t) (Scope.assigning frame t v) post' r r := by
  have hsize : Keeps (fun c : Context σ => t < c.size frame) (fun _ => True) r := fun c hc =>
    ⟨rfl, Nat.lt_of_lt_of_le hc (Context.size_le_of_shape_le (hgrown c) frame), fun _ _ => trivial⟩
  exact ((Commutes.and hr hkeys).and hsize).weaken fun _ h => h.1.2

variable (hworld : world.Trusted K) (hkeyed : world.Keyed valid)
include hworld hkeyed

theorem commutes_eval {e : SlotExpr} (he : e.Over (· ≠ t)) :
    Commutes (Apart K valid render frame t) (Scope.assigning frame t v) Value.Keyed
      (eval world (levels world n) frame e) (eval world (levels world n) frame e) := by
  have hout : (Scope.except render frame t).Outside σ (Scope.assigning frame t v) :=
    Scope.outside_assigning
  have L := logicalRelation_guarded (Context.InScope.guards hworld hout)
  have S := simulation_growing world
  have hfits : e.Fits ((Scope.except render frame t).slot frame) fun _ => True := by
    rw [Scope.slot_except]
    exact (Prints.expr e).2 ⟨he, fun _ _ => trivial⟩
  exact commutes_of_inScope
    (L.eval (L.levels_of_outOfLevels (Commutes.halt _) n) e hfits () le_rfl)
    (KeepsKeys.eval (KeepsKeys.levels hkeyed n) frame e)
    (S.logicalRelation.eval (S.levels n) e (Discipline.free_code [.expr e]).1 () le_rfl)

theorem commutes_effect {ss : List SlotStmt} (hss : Stmt.OverList (· ≠ t) ss) :
    Commutes (Apart K valid render frame t) (Scope.assigning frame t v) (fun _ => True)
      (effect world (levels world n) frame ss) (effect world (levels world n) frame ss) := by
  have hout : (Scope.except render frame t).Outside σ (Scope.assigning frame t v) :=
    Scope.outside_assigning
  have L := logicalRelation_guarded (Context.InScope.guards hworld hout)
  have S := simulation_growing world
  have hcode : (Scope.except render frame t).discipline.Code () frame ss := by
    rw [Scope.code_iff, Scope.slot_except]
    exact hss
  have hrun := commutes_of_inScope
    (L.execAll (L.levels_of_outOfLevels (Commutes.halt _) n) .null ss hcode () le_rfl
      Value.only_null)
    (KeepsKeys.execAll (KeepsKeys.levels hkeyed n) frame Value.keyed_null ss)
    (S.execAll (S.levels n) frame .null ss)
  exact hrun.forEffect

theorem commutes_ifChain (hv : v.Keyed) {otherwise : List SlotStmt}
    (hotherwise : Stmt.OverList (· ≠ t) otherwise) :
    ∀ arms : List (Option SlotExpr × List SlotStmt), Stmt.OverArms (· ≠ t) arms →
      Commutes (Apart K valid render frame t) (Scope.assigning frame t v) (fun _ => True)
        (matchingOr world (levels world n) frame v otherwise arms)
        (effect world (levels world n) frame (Stmt.ifChain t otherwise arms))
  | [], _ => by
    rw [matchingOr_nil]
    exact commutes_effect hworld hkeyed hotherwise
  | (none, _) :: arms, harms => by
    have hrest := commutes_ifChain hv hotherwise arms harms.2
    simpa only [matchingOr, execMatching, Stmt.ifChain] using hrest
  | (some e, body) :: arms, harms => by
    rw [matchingOr_some, Stmt.ifChain, effect_branch_eq]
    refine Commutes.load_bind (fun c hc => Context.load_store_self hc.2) ?_
    refine (commutes_eval hworld hkeyed harms.1).bind fun u hu => ?_
    -- the switch compares the value of the arm with the subject, the test the subject with it
    rw [Value.equal_comm hu hv]
    split
    · exact commutes_effect hworld hkeyed harms.2.1
    · exact commutes_ifChain hv hotherwise arms harms.2.2

/-- A switch does what the assignment of its subject to a variable that nothing else uses does,
followed by tests of that variable against the values of the arms: it ends alike, and leaves the
same context but for that variable. -/
theorem switch_eq_if_chain (n : Nat) {c : Context σ}
    (hscope : c.InScope K (.except c.render frame t)) (hkeys : c.Keyed valid)
    (ht : t < c.size frame) {subject : SlotExpr}
    {arms : List (Option SlotExpr × List SlotStmt)}
    (hcode : Stmt.Over (· ≠ t) (.switch subject arms)) :
    let run (ss : List SlotStmt) := effect world (levels world n) frame ss c
    (run (Stmt.switchAsIfs t subject arms)).1 = (run [.switch subject arms]).1 ∧
      ∃ v, (run (Stmt.switchAsIfs t subject arms)).2 =
        (run [.switch subject arms]).2.store frame t v := by
  intro run
  have hc : Apart K valid c.render frame t c := ⟨⟨hscope, hkeys⟩, ht⟩
  obtain ⟨-, hc', hresult⟩ := commutes_eval (n := n) (v := .null) hworld hkeyed hcode.1 c hc
  simp only [run]
  rw [effect_switchAsIfs, effect_switch, bind_apply, bind_apply]
  generalize (eval world (levels world n) frame subject : Run σ Value) c = s at hc' hresult ⊢
  obtain ⟨e | v, c'⟩ := s
  · exact ⟨rfl, c'.load frame t, Context.store_load_self.symm⟩
  · have hchain := commutes_ifChain (n := n) hworld hkeyed (hresult v rfl)
      (Stmt.overList_elseBody arms hcode.2) arms hcode.2 c' hc'
    have hstore (r : Run σ Unit) :
        (store frame t v >>= fun _ => r : Run σ Unit) c' = r (c'.store frame t v) := rfl
    dsimp only
    rw [hstore, ← Scope.withFrames_assigning, hchain.1]
    exact ⟨rfl, v, rfl⟩

end Unused

theorem switch_on_counter_eq_if_chain :
    let counter : Closure := ⟨⟨0, 0⟩, 0, [], [.expr (.update .inc true 0)]⟩
    let c : Context Unit :=
      { Context.start {} 0 .null () with
        frames := #[#[.int 0, .closure counter, .null]], running := [0] }
    let world := Context.compiling ""
    let subject : SlotExpr := .literal (.int 2)
    let arms : List (Option SlotExpr × List SlotStmt) :=
      [(some (.call (.var 1) []), [.text "once"]), (none, [.text "never"]),
        (some (.call (.var 1) []), [.text "twice"]), (some (.call (.literal .null) []), [])]
    let run (ss : List SlotStmt) := effect world (levels world 9) 0 ss c
    world.Trusted Context.noCustody ∧ world.Keyed (fun _ => True) ∧
      c.InScope Context.noCustody (.except c.render 0 2) ∧ c.Keyed (fun _ => True) ∧
      2 < c.size 0 ∧ Stmt.Over (· ≠ 2) (.switch subject arms) ∧
      (run (Stmt.switchAsIfs 2 subject arms)).1 = (run [.switch subject arms]).1 ∧
      (∃ v, (run (Stmt.switchAsIfs 2 subject arms)).2 =
        (run [.switch subject arms]).2.store 0 2 v) ∧
      (run [.switch subject arms]).2.output = "twice" ∧
      (run [.switch subject arms]).2.load 0 0 = .int 2 := by
  intro counter c world subject arms run
  have hworld : world.Trusted Context.noCustody := Context.compiling_trusted ""
  have hkeyed : world.Keyed fun _ => True :=
    ⟨fun _ => trivial, fun _ _ => ⟨trivial, fun _ hv => Except.ok.inj hv ▸ Value.keyed_null⟩⟩
  have hscope : c.InScope Context.noCustody (.except c.render 0 2) := by
    refine ⟨rfl, Nat.le_refl 1, nofun, Value.only_null, fun frame x _ => ?_, trivial, nofun⟩
    refine c.forall_load (fun vars hvars v hv => ?_) Value.only_null frame x
    obtain rfl : vars = #[.int 0, .closure counter, .null] := by simpa [c] using hvars
    obtain rfl | rfl | rfl : v = .int 0 ∨ v = .closure counter ∨ v = .null := by simpa using hv
    · exact Value.only_of_closures_eq_nil rfl
    · exact Value.only_closure.2 fun _ => ⟨nofun, fun h => (nomatch h.2), trivial⟩
    · exact Value.only_null
  have hkeys : c.Keyed fun _ => True := by
    refine ⟨trivial, fun vars hvars v hv => ?_, trivial⟩
    obtain rfl : vars = #[.int 0, .closure counter, .null] := by simpa [c] using hvars
    obtain rfl | rfl | rfl : v = .int 0 ∨ v = .closure counter ∨ v = .null := by simpa using hv
    all_goals exact trivial
  have hcode : Stmt.Over (· ≠ 2) (.switch subject arms) := by
    simp [subject, arms, Stmt.Over, Stmt.OverArms, Stmt.OverList, Expr.Over, Expr.OverList]
  obtain ⟨heq, hcontext⟩ :=
    switch_eq_if_chain hworld hkeyed 9 hscope hkeys (by decide) hcode
  exact ⟨hworld, hkeyed, hscope, hkeys, by decide, hcode, heq, hcontext, by decide +kernel, rfl⟩

end Run
end TextTemplate
