import TextTemplate.Proofs.Grammar.Compilation
import TextTemplate.Proofs.Grammar.Joining
import TextTemplate.Proofs.Tree.Depth
import TextTemplate.Proofs.Tree.Renumbering

/-! Templates one after the other. A source may be cut anywhere outside its regions: its program is
put together from those of the pieces, with the variables of all of them in one list of slots. -/

namespace TextTemplate

open Grammar

variable {d : Delimiters} {s₁ s₂ : String} {g₁ g₂ : Segments}

namespace Program

/-- Statements of `p` as they stand in `p'`, with each variable in its slot there and the lambdas
numbered from `k` on. -/
def Carries (p p' : Program) (k : Nat) (ss ss' : List SlotStmt) : Prop :=
  Stmt.relabel some id ss' = Stmt.relabel (fun i => p.slots[i]?.bind p'.slot?) (k + ·) ss

/-- The program `p` is `p₁` and then `p₂`, but that the text at the end of the one and the text at
the start of the other are one text. These are the texts of the sources: where a source ends with a
region that holds no statement, a text before the region stays apart. New variables of `p₂` have
their slots after all of `p₁`. -/
structure Joins (p₁ p₂ p : Program) (tail lead : List Char) : Prop where
  body : ∃ b₁ b₂ c k,
    p₁.body = b₁ ++ Layer.texts (String.ofList tail) ∧
    p₂.body = Layer.texts (String.ofList lead) ++ b₂ ∧
    p.body = b₁ ++ Layer.texts (String.ofList (tail ++ lead)) ++ c ∧
    Stmt.LambdasBelow k b₁ ∧ p₂.Carries p k b₂ c
  slots : p.slots = p₁.slots ++ p₂.slots.filter (· ∉ p₁.slots)

theorem within_texts {n : Nat} {t : List Char} :
    (∀ s ∈ (Layer.texts (String.ofList t) : List SlotStmt), (Node.stmt s).Within n) ↔
      t = [] ∨ 0 < n := by
  unfold Layer.texts
  cases t with
  | nil => simp
  | cons c cs => simp [Node.within_text]

theorem Joins.within {p₁ p₂ p : Program} {tail lead : List Char} (h : Joins p₁ p₂ p tail lead)
    (n : Nat) : (∀ s ∈ p.body, (Node.stmt s).Within n) ↔
      ∀ s ∈ p₁.body ++ p₂.body, (Node.stmt s).Within n := by
  obtain ⟨b₁, b₂, c, k, h₁, h₂, hp, -, hc⟩ := h.body
  have hwithin : (∀ s ∈ c, (Node.stmt s).Within n) ↔ ∀ s ∈ b₂, (Node.stmt s).Within n := by
    rw [← Node.forall_within_relabel some id, hc, Node.forall_within_relabel]
  rw [hp, h₁, h₂]
  simp only [List.forall_mem_append, within_texts, hwithin, List.append_eq_nil_iff]
  tauto

end Program

theorem Slots.traverseList_texts (t : String) (s : Slots) :
    Stmt.traverseList slot nextLambda (Layer.texts t) s = (Layer.texts t, s) := by
  unfold Layer.texts
  split <;> rfl

theorem Program.joins_ofTree (name name₁ name₂ : String) (us vs : List SourceStmt)
    (tail lead : List Char) :
    Joins (ofTree name₁ (us ++ Layer.texts (String.ofList tail)))
      (ofTree name₂ (Layer.texts (String.ofList lead) ++ vs))
      (ofTree name (us ++ Layer.texts (String.ofList (tail ++ lead)) ++ vs)) tail lead := by
  have hstart (s : Slots) : Slots.After s.names s.lambdas s .empty :=
    ⟨by simp [Slots.empty], rfl⟩
  obtain ⟨hafter, hbody⟩ := Slots.renumbers
    (hstart (Stmt.traverseList Slots.slot Slots.nextLambda us .empty).2) vs
  constructor
  · simp only [Carries, ofTree, Slots.traverseList_append, Slots.traverseList_texts]
    refine ⟨_, _, _, _, rfl, rfl, rfl, Slots.lambdasBelow us .empty, hbody.trans ?_⟩
    unfold Slots.moved Program.slot?
    rw [hafter.names]
  · simp only [ofTree, Slots.traverseList_append, Slots.traverseList_texts]
    exact hafter.names

theorem splits_of_compile {name source : String} {p : Program}
    (h : compile d name source = .ok p) : ∃ g, Splits d source.toList g := by
  obtain ⟨tree, hread, -⟩ := readTemplate_of_compile h
  obtain ⟨htokens, hends⟩ := (Scanner.ofString d source).lexemes_tokens
  have hfaultless := (derives_of_read htokens hends hread).faultless
  refine (Splits.exists_or_unclosed d source.toList .start).resolve_right ?_
  rintro ⟨c, hc⟩
  rw [Scanner.ofString] at htokens
  rw [htokens] at hc
  exact (hfaultless _ ((List.mem_append.1 hc).resolve_right (by simp))).2 c rfl

theorem readTemplate_append {tree₁ tree₂ : List SourceStmt}
    (h₁ : readTemplate d s₁ = .ok tree₁) (h₂ : readTemplate d s₂ = .ok tree₂)
    (hg₁ : Splits d s₁.toList g₁) (hg₂ : Splits d s₂.toList g₂)
    (hstraddle : ¬ Text.Straddles d.opening g₁.last s₂.toList) : ∃ us vs,
    tree₁ = us ++ Layer.texts (String.ofList g₁.last) ∧
    tree₂ = Layer.texts (String.ofList g₂.lead) ++ vs ∧
    readTemplate d (s₁ ++ s₂) =
      .ok (us ++ Layer.texts (String.ofList (g₁.last ++ g₂.lead)) ++ vs) := by
  have htokens₁ : (Scanner.ofString d s₁).tokens.map Token.lexeme =
      g₁.front ++ (Lexeme.texts g₁.last ++ [.endOfInput]) := by
    rw [← List.append_assoc]
    exact hg₁.tokens .start
  have htokens₂ : (Scanner.ofString d s₂).tokens.map Token.lexeme = g₂.lexemes ++ [.endOfInput] :=
    hg₂.tokens .start
  have hfront : .endOfInput ∉ g₁.front := fun h =>
    g₁.endOfInput_notMem_lexemes (List.mem_append_left _ h)
  have hclosed (c : String) : .unclosed c ∉ (Scanner.ofString d s₁).tokens.map Token.lexeme := by
    rw [htokens₁, ← List.append_assoc]
    intro h
    rcases List.mem_append.1 h with h | h
    · exact g₁.closed_lexemes c h
    · exact absurd (List.mem_singleton.1 h) nofun
  by_cases hempty : g₂ = ⟨[], []⟩
  · -- without any tokens to come, all that is read are the tokens of the first source
    subst hempty
    obtain rfl : s₂ = "" := by
      rw [← String.toList_inj]
      generalize s₂.toList = cs at hg₂
      cases hg₂
      rfl
    obtain rfl : [] = tree₂ := Except.ok.inj ((read_endOfInput htokens₂).symm.trans h₂)
    obtain ⟨us, rfl⟩ := read_texts htokens₁ hfront hclosed h₁
    refine ⟨us, [], rfl, rfl, ?_⟩
    rw [String.append_empty, h₁]
    simp [Segments.lead]
  · obtain ⟨rest, hlexemes₂, happend⟩ := Segments.lexemes_append hempty
    have hjoined := (hg₁.append hg₂ hstraddle).tokens .start
    rw [happend, ← String.toList_append, List.append_assoc, List.cons_append] at hjoined
    refine read_join htokens₁ (by rw [htokens₂, hlexemes₂, List.cons_append]) hjoined hfront
      hclosed (fun c hc => ?_) h₁ h₂
    exact g₂.closed_lexemes c (hlexemes₂ ▸ List.mem_cons_of_mem _ hc)

theorem readTemplate_append_region {tree₁ tree₂ : List SourceStmt}
    (h₁ : readTemplate d s₁ = .ok tree₁) (h₂ : readTemplate d s₂ = .ok tree₂)
    (hg₁ : Splits d s₁.toList g₁) (hg₂ : Splits d s₂.toList g₂) (hlast : g₁.last = []) :
    readTemplate d (s₁ ++ s₂) = .ok (tree₁ ++ tree₂) := by
  have hstraddle : ¬ Text.Straddles d.opening g₁.last s₂.toList := by
    rw [hlast]
    exact Text.not_straddles_nil
  obtain ⟨us, vs, rfl, rfl, hread⟩ := readTemplate_append h₁ h₂ hg₁ hg₂ hstraddle
  rw [hread, hlast]
  simp [Layer.texts]

/-- A template that is cut into two outside its regions, such that no opening delimiter is cut,
compiles if both pieces do, and to the programs of the two joined where the last text of the one
and the first text of the other meet. It is nested as deeply as they are. -/
theorem compile_append (d : Delimiters) (name name₁ name₂ s₁ s₂ : String) (p₁ p₂ : Program)
    (h₁ : compile d name₁ s₁ = .ok p₁) (h₂ : compile d name₂ s₂ = .ok p₂)
    (hstraddle : ∀ g, Splits d s₁.toList g → ¬ Text.Straddles d.opening g.last s₂.toList) :
    ∃ g₁ g₂ p, Splits d s₁.toList g₁ ∧ Splits d s₂.toList g₂ ∧
      compile d name (s₁ ++ s₂) = .ok p ∧ Program.Joins p₁ p₂ p g₁.last g₂.lead ∧
      ∀ n, (∀ s ∈ p.body, (Node.stmt s).Within n) ↔
        ∀ s ∈ p₁.body ++ p₂.body, (Node.stmt s).Within n := by
  obtain ⟨g₁, hg₁⟩ := splits_of_compile h₁
  obtain ⟨g₂, hg₂⟩ := splits_of_compile h₂
  obtain ⟨tree₁, hread₁, rfl⟩ := readTemplate_of_compile h₁
  obtain ⟨tree₂, hread₂, rfl⟩ := readTemplate_of_compile h₂
  obtain ⟨us, vs, rfl, rfl, hread⟩ := readTemplate_append hread₁ hread₂ hg₁ hg₂ (hstraddle g₁ hg₁)
  have hjoins := Program.joins_ofTree name name₁ name₂ us vs g₁.last g₂.lead
  refine ⟨g₁, g₂, _, hg₁, hg₂, ?_, hjoins, hjoins.within⟩
  unfold compile
  rw [hread]

def scriptAndText : String := "<% x = 1 f = (a) -> a + x end %>sum <"

def textAndOutput : String := " <%= f(y) %>"

theorem compile_append_halves : ∃ p₁ p₂,
    compile .default "first" scriptAndText = .ok p₁ ∧
    compile .default "second" textAndOutput = .ok p₂ ∧
    (∀ g, Splits .default scriptAndText.toList g →
      ¬ Text.Straddles Delimiters.default.opening g.last textAndOutput.toList) ∧
    ∃ g₁ g₂ p, Splits .default scriptAndText.toList g₁ ∧ Splits .default textAndOutput.toList g₂ ∧
      compile .default "page" (scriptAndText ++ textAndOutput) = .ok p ∧
      Program.Joins p₁ p₂ p g₁.last g₂.lead ∧
      ∀ n, (∀ s ∈ p.body, (Node.stmt s).Within n) ↔
        ∀ s ∈ p₁.body ++ p₂.body, (Node.stmt s).Within n := by
  have hok₁ : (compile .default "first" scriptAndText).isOk = true := by decide +kernel
  have hok₂ : (compile .default "second" textAndOutput).isOk = true := by decide +kernel
  have hopening : Text.cutAt ['<', '%'] scriptAndText.toList =
      some ([], " x = 1 f = (a) -> a + x end %>sum <".toList) := by decide +kernel
  have hsplits : Splits .default scriptAndText.toList
      ⟨[([], " x = 1 f = (a) -> a + x end ".toList)], "sum <".toList⟩ :=
    .part (g := ⟨[], "sum <".toList⟩) hopening (by decide +kernel) (.last (by decide +kernel))
  have hstraddle : ∀ g, Splits .default scriptAndText.toList g →
      ¬ Text.Straddles Delimiters.default.opening g.last textAndOutput.toList := by
    intro g hg
    rw [hg.unique hsplits]
    decide +kernel
  cases h₁ : compile .default "first" scriptAndText with
  | error => rw [h₁] at hok₁; cases hok₁
  | ok p₁ =>
    cases h₂ : compile .default "second" textAndOutput with
    | error => rw [h₂] at hok₂; cases hok₂
    | ok p₂ => exact ⟨p₁, p₂, rfl, rfl, hstraddle, compile_append _ _ _ _ _ _ _ _ h₁ h₂ hstraddle⟩

end TextTemplate
