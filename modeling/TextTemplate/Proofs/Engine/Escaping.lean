import TextTemplate.Proofs.Engine.Hosting
import TextTemplate.Proofs.Render.Escaping

/-! Engines whose templates print no values as they stand. All markup in what they render is in the
texts of the templates. -/

namespace TextTemplate
namespace Session

def offering (offered : Program → Prop) : Custody Session where
  valid s := custody.valid s ∧ ∀ p, s.engine.Offers p → offered p
  holds := custody.holds

variable {offered : Program → Prop}

theorem world_trusted_offering : world.Trusted (offering offered) where
  compiled hs hp := world_trusted.compiled hs.1 hp
  load_valid {name s} hs :=
    ⟨world_trusted.load_valid hs.1, fun p hp => hs.2 p ((s.engine.get_offers name).2 p hp)⟩
  load_holds hs hf := world_trusted.load_holds hs.1 hf
  call_valid hs := hs
  call_holds hs hg := world_trusted.call_holds hs.1 hg
  call_result hs hv := world_trusted.call_result hs.1 hv

theorem permitted_of_offered {p : Program} (hp : offered p)
    (hraw : .value false ∉ Stmt.printsList p.body) :
    Stmt.Permitted (fun t => ∃ p, offered p ∧ .text t ∈ Stmt.printsList p.body) p.body := by
  intro a ha
  cases a with
  | text content => exact .text ⟨p, hp, ha⟩
  | value escape =>
    cases escape with
    | true => rfl
    | false => exact absurd ha hraw

theorem composed_of_run {s : Session} (hs : (offering offered).valid s)
    (hraw : ∀ p, offered p → .value false ∉ Stmt.printsList p.body)
    (hcell : s.cell.Only fun f => f.frame.render ≠ s.renders) {p : Program} (hp : offered p)
    {data : Value} (hdata : data.Only fun f => f.frame.render ≠ s.renders) {output : String}
    (h : (s.run p data).1 = .ok output) :
    Composed (fun t => ∃ p, offered p ∧ .text t ∈ Stmt.printsList p.body) output := by
  let texts (t : String) : Prop := ∃ p, offered p ∧ .text t ∈ Stmt.printsList p.body
  let c := s.start s.engine.options .null
  have hpermitted (p : Program) (hp : offered p) : Stmt.Permitted texts p.body :=
    permitted_of_offered hp (hraw p hp)
  have hstart : c.Escaped (offering offered) texts s.renders :=
    { current := rfl
      output := .empty
      blocks := fun _ hb => nomatch hb
      self := Value.only_null
      frames := fun vars hvars => absurd hvars (Array.not_mem_empty vars)
      world := hs
      held := fun f hf hrender => absurd hrender (hcell f hf) }
  have hend := hstart.execute world_trusted_offering
    (fun {name s p} hs hload => hpermitted p (hs.2 p ((s.engine.get_offers name).1 p hload)))
    (hpermitted p hp) (hdata.mono fun _ hne hrender => absurd hrender hne)
  obtain ⟨⟨⟩, hrun⟩ : ∃ u : Unit, output = (c.execute world p data).2.output := by
    simp only [run] at h
    cases hr : (c.execute world p data).1 with
    | error e => simp [c, hr, Except.map] at h
    | ok u => exact ⟨u, by simpa [c, hr, Except.map, eq_comm] using h⟩
  exact hrun ▸ hend.output

end Session
end TextTemplate
