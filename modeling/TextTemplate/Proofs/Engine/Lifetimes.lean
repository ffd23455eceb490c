import TextTemplate.Proofs.Engine.Hosting
import TextTemplate.Proofs.Render.Lifetimes

/-! How long lambdas can be called. A lambda does not keep the variables of the execution that made
it: they are there as long as something is under way that uses them, or a block is registered that
does. -/

namespace TextTemplate

open Run

variable {σ : Type}

namespace Use

def restarts : Use → Bool
  | .start .. => true
  | _ => false

section

variable {m : Type → Type} [MonadRender σ m] (world : World σ)

def session : List Use → m Unit
  | [] => pure ()
  | u :: us => do
    let _ ← attempt (leveled world fun deep => u.run world deep)
    session us

end

variable {world : World σ}

theorem records_run {u : Use} (hu : u.restarts = false) (n : Nat) :
    Records (u.run world (levels world n)) (u.run world (levels world n)) := by
  have S := mirrors_records.simulation world
  have D := S.levels n
  have thenNull {t : Recorded σ Unit} {r : Run σ Unit} (h : Records t r) :
      Records (t >>= fun _ => pure Value.null) (r >>= fun _ => pure Value.null) :=
    S.bind h fun _ => S.pure Value.null
  cases u with
  | start options self => cases hu
  | append text => exact thenNull (S.append text)
  | setSelf self => exact thenNull (.update fun _ => ⟨rfl, rfl⟩)
  | defineText name text => exact thenNull (S.define name (.text text))
  | defineAs name further => exact thenNull (.update fun _ => ⟨rfl, rfl⟩)
  | callBlock name => exact thenNull (S.callBlock D name)
  | includeTemplate name argument => exact thenNull (S.includeTemplate D name argument)
  | extend layout => exact thenNull (S.extend D layout)
  | renderProgram p => exact thenNull (S.renderProgram D ⟨rfl, rfl⟩)
  | execute p self => exact thenNull (S.withSelf self (S.renderProgram D ⟨rfl, rfl⟩))
  | call callee args => exact S.call D callee args

variable (world) in
theorem records_session {uses : List Use} (h : ∀ u ∈ uses, u.restarts = false) :
    Records (session world uses) (session world uses) := by
  induction uses with
  | nil => exact .get fun _ => ()
  | cons u us ih =>
    obtain ⟨hu, hus⟩ := List.forall_mem_cons.1 h
    refine .bind (.attempt (.bind (.get _) fun n => ?_)) fun _ => ih hus
    exact records_run hu n

def history (world : World σ) (uses : List Use) (c : Context σ) : History σ :=
  (session (m := Recorded σ) world uses (c, [])).2.2

theorem follows_history {uses : List Use} (h : ∀ u ∈ uses, u.restarts = false) (c : Context σ) :
    (history world uses c).Follows c ∧
      (history world uses c).now c = (session (m := Run σ) world uses c).2 := by
  obtain ⟨events, hsession, hfollows, hnow, -⟩ := records_session world h c []
  rw [List.append_nil] at hsession
  rw [history, hsession]
  exact ⟨hfollows, hnow⟩

end Use

/-- The lambda is made at this moment, over variables that are in use. -/
def History.Makes (world : World σ) (c : Context σ) (frame : Nat) (f : Closure) (h : History σ) :
    Prop :=
  h.UnderWay frame ∧ ∃ deep id params body c',
    (eval world deep frame (.lambda id params body) : Run σ Value) (h.now c) =
      (.ok (.closure f), c')

theorem History.Makes.frame_eq {world : World σ} {c : Context σ} {frame : Nat} {f : Closure}
    {h : History σ} (hf : h.Makes world c frame f) (hfollows : h.Follows c) :
    f.frame = ⟨c.render, frame⟩ := by
  obtain ⟨-, deep, id, params, body, c', heval⟩ := hf
  cases heval
  rw [hfollows.render]

theorem callClosure_kept {deep : Deep (Run σ)} {f : Closure} {args : List Value} {c : Context σ}
    (hkept : c.keeps f.frame = true) (hargs : args.length = f.params.length) :
    callClosure deep f args c = inside "lambda"
      (binding f.frame.index f.params args (deep.body f.frame.index f.body)) c := by
  simp only [callClosure, bind_apply, get_apply, hkept, hargs, Bool.not_true, Bool.false_eq_true,
    ne_eq, not_true_eq_false, if_false]

theorem callClosure_gone {deep : Deep (Run σ)} {f : Closure} {args : List Value} {c : Context σ}
    (hgone : c.keeps f.frame = false) :
    callClosure deep f args c = (.error (.error (.invalidInvocation .finished)), c) := by
  simp only [callClosure, bind_apply, get_apply, hgone]
  rfl

def pageWithBlock : Program :=
  ⟨"page", [.expr (.assign 0 none (.lambda 0 [] [.expr (.literal (.int 1))])), .block "b" []],
    ["f"]⟩

def bareWorld : World Unit where
  load name s := (.error (.templateNotFound name), s)
  call _ _ s := (.ok .null, s)

end TextTemplate
