import TextTemplate.Engine
import TextTemplate.Proofs.Render.Keys
import TextTemplate.Proofs.Render.Restoration
import TextTemplate.Value.Json

/-! The keys of maps in a session are distinct. Those in data read from JSON are, host functions
hand on what they were given, and renders keep it so. -/

namespace TextTemplate

theorem Entries.forall_ofList {α : Type} {p : α → Prop} {es : List (String × α)}
    (h : ∀ e ∈ es, p e.2) : ∀ e ∈ ofList es, p e.2 := by
  suffices ∀ acc : List (String × α), (∀ e ∈ acc, p e.2) →
      ∀ e ∈ es.foldl (fun acc e => insert e.1 e.2 acc) acc, p e.2 from this [] nofun
  induction es with
  | nil => exact fun _ hacc => hacc
  | cons e es ih =>
    rw [List.forall_mem_cons] at h
    exact fun acc hacc => ih h.2 _ (forall_insert h.1 hacc)

namespace Value

mutual

theorem keyed_ofJson : ∀ j : Json, (ofJson j).Keyed
  | .null | .bool _ | .float _ | .string _ => trivial
  | .int i => by
    simp only [ofJson, ofInt]
    split <;> exact trivial
  | .array items => keyed_array.2 (keyed_ofJsonItems items)
  | .object members => by
    refine keyed_map.2 ⟨Entries.nodup_keys_ofList _, ?_⟩
    exact Entries.forall_ofList (keyed_ofJsonMembers members)

theorem keyed_ofJsonItems : ∀ js : List Json, ∀ v ∈ ofJsonItems js, v.Keyed
  | [] => fun _ h => nomatch h
  | j :: js => List.forall_mem_cons.2 ⟨keyed_ofJson j, keyed_ofJsonItems js⟩

theorem keyed_ofJsonMembers : ∀ ms : List (String × Json), ∀ e ∈ ofJsonMembers ms, e.2.Keyed
  | [] => fun _ h => nomatch h
  | (_, j) :: ms => List.forall_mem_cons.2 ⟨keyed_ofJson j, keyed_ofJsonMembers ms⟩

end

end Value

namespace HostFunction

/-- Whether the keys of maps are distinct in what host functions answer and keep, if they are in
what is handed to them. -/
def KeepsKeys (host : HostFunction → List Value → Value → Except Error Value × Value) : Prop :=
  ∀ f args cell, cell.Keyed → (∀ v ∈ args, v.Keyed) →
    (∀ v, (host f args cell).1 = .ok v → v.Keyed) ∧ (host f args cell).2.Keyed

theorem keepsKeys_call : KeepsKeys call := by
  intro f args cell hcell hargs
  have hfirst : (args.head?.getD .null).Keyed := by
    cases args with
    | nil => exact trivial
    | cons v vs => exact hargs v List.mem_cons_self
  unfold call
  dsimp only
  split
  · exact ⟨fun v hv => Except.ok.inj hv ▸ Value.keyed_array.2 hargs, hcell⟩
  · exact ⟨fun v hv => Except.ok.inj hv ▸ trivial, hcell⟩
  · exact ⟨fun v hv => Except.ok.inj hv ▸ hfirst, hcell⟩
  · exact ⟨fun v hv => Except.ok.inj hv ▸ trivial, hcell⟩
  · exact ⟨fun v hv => Except.ok.inj hv ▸ trivial, hfirst⟩
  · exact ⟨fun v hv => Except.ok.inj hv ▸ hcell, hcell⟩
  · exact ⟨fun v hv => (nomatch hv), hcell⟩

end HostFunction

namespace Session

def Keyed (s : Session) : Prop :=
  HostFunction.KeepsKeys s.host ∧ s.cell.Keyed

theorem world_keyed : world.Keyed Keyed where
  load h := h
  call {f args s} h hargs :=
    have hcall := h.1 f args s.cell h.2 hargs
    ⟨⟨h.1, hcall.2⟩, hcall.1⟩

theorem keyed_run {s : Session} (hs : s.Keyed) (p : Program) {data : Value} (hdata : data.Keyed) :
    (s.run p data).2.Keyed := by
  have hstart : (s.start s.engine.options .null).Keyed Keyed :=
    ⟨trivial, fun vars h => absurd h (Array.not_mem_empty vars), hs⟩
  have hrun (n : Nat) : Run.KeepsKeys Keyed (fun _ => True)
      (Run.withSelf data (Run.renderProgram world (Run.levels world n) p)) :=
    Run.KeepsKeys.withSelf hdata
      (Run.KeepsKeys.renderProgram (Run.KeepsKeys.levels world_keyed n) p)
  show Keyed (((s.start s.engine.options .null).execute world p data).2.world)
  rw [Context.execute, Context.outcome_snd]
  exact (hrun _ _ hstart).2.1.world

theorem keyed_runs (engine : Engine) (renders : List (Program × Json)) :
    (renders.foldl (fun s r => (s.run r.1 (Value.ofJson r.2)).2) ({ engine } : Session)).Keyed := by
  have hfirst : ({ engine } : Session).Keyed := ⟨HostFunction.keepsKeys_call, Value.keyed_null⟩
  generalize ({ engine } : Session) = s at hfirst
  induction renders generalizing s with
  | nil => exact hfirst
  | cons r renders ih => exact ih _ (keyed_run hfirst r.1 (Value.keyed_ofJson r.2))

end Session
end TextTemplate
