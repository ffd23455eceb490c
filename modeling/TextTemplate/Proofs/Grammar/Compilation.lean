import TextTemplate.Compile
import TextTemplate.Proofs.Grammar.Parameters
import TextTemplate.Proofs.Grammar.Soundness
import TextTemplate.Proofs.Tree.Numbering

/-! A template that compiles is derived, all of it and to the very tree that its program has. -/

namespace TextTemplate

namespace Grammar

theorem Derives.faultless {g : Rules} {ts : List Lexeme} {p : Phrase} (h : Derives g ts p) :
    ∀ l ∈ ts, (∀ c, l ≠ .invalid c) ∧ ∀ c, l ≠ .unclosed c := by
  refine h.closed (C := fun ts => ∀ l ∈ ts, (∀ c, l ≠ .invalid c) ∧ ∀ c, l ≠ .unclosed c)
    (by simp) ?_ ?_ ?_
  · intro l hl l' hmem
    obtain rfl := List.mem_singleton.1 hmem
    constructor <;> rintro c rfl <;> exact hl
  · intro ts us hts hus l hl
    exact (List.mem_append.1 hl).elim (hts l) (hus l)
  · intro ps xs hps _ l hl
    simp only [List.cons_append, List.mem_cons, List.mem_append, List.not_mem_nil, or_false] at hl
    obtain rfl | hl | rfl | rfl := hl
    · simp
    · exact hps l hl
    · simp
    · simp

end Grammar

open Grammar

/-- The lexemes of a template that compiles spell the tree that its program has, with a slot for
each variable. They do so by the documented rules just if all parameters of lambdas are bare. -/
theorem derives_of_compile {delimiters : Delimiters} {name source : String} {p : Program}
    (h : compile delimiters name source = .ok p) :
    ∃ ls tree,
      (Scanner.ofString delimiters source).tokens.map Token.lexeme = ls ++ [.endOfInput] ∧
      (∀ l ∈ ls, (∀ c, l ≠ .invalid c) ∧ ∀ c, l ≠ .unclosed c) ∧
      Derives .applied ls (.stmts tree) ∧
      (Derives .documented ls (.stmts tree) ↔ BareParameters ls) ∧
      Stmt.relabel some (fun _ => ()) p.body = Stmt.relabel p.slot? (fun _ => ()) tree := by
  obtain ⟨htokens, hends⟩ := (Scanner.ofString delimiters source).lexemes_tokens
  unfold compile at h
  split at h
  · rename_i tree hread
    obtain rfl := Except.ok.inj h
    have hd := derives_of_read htokens hends hread
    exact ⟨_, tree, htokens, hd.faultless, hd, documented_iff hd, Program.body_ofTree name tree⟩
  · cases h

def storefront : String :=
  "<% f = (a, b) -> { %><b><%= a ?? b %></b><% } switch n + 1: %>\n<% when 1 %>one<% else: %>"
    ++ "<% for x in [1, 2.5, \x7b k: -x \x7d] %>-<% f(x, @name) end end %>\n"

theorem derives_of_compile_storefront : ∃ p, compile .default "page" storefront = .ok p ∧
    ∃ ls tree, (Scanner.ofString .default storefront).tokens.map Token.lexeme
        = ls ++ [.endOfInput] ∧
      (∀ l ∈ ls, (∀ c, l ≠ .invalid c) ∧ ∀ c, l ≠ .unclosed c) ∧
      Derives .applied ls (.stmts tree) ∧
      (Derives .documented ls (.stmts tree) ↔ BareParameters ls) ∧
      Stmt.relabel some (fun _ => ()) p.body = Stmt.relabel p.slot? (fun _ => ()) tree := by
  have hok : (compile .default "page" storefront).isOk = true := by decide +kernel
  cases h : compile .default "page" storefront with
  | error => rw [h] at hok; cases hok
  | ok p => exact ⟨p, rfl, derives_of_compile h⟩

/-- A parameter in parentheses of its own compiles, though the documented rules derive no tree. -/
theorem doubled_parentheses_compile :
    (compile .default "page" "<% f = ((a)) -> a end %>").isOk = true ∧
      ∀ tree, ¬ Derives .documented
        (Scanner.ofString .default "<% f = ((a)) -> a end %>").lexemes (.stmts tree) := by
  refine ⟨by decide +kernel, fun tree h => ?_⟩
  -- bare parameters would have to end before the arrow with one parenthesis, not with two
  have hls : (Scanner.ofString .default "<% f = ((a)) -> a end %>").lexemes =
      [.text "", .name "f", .symbol .assign, .symbol .lparen, .symbol .lparen, .name "a",
        .symbol .rparen, .symbol .rparen, .symbol .arrow, .name "a", .keyword .end_] := by
    decide +kernel
  rw [hls] at h
  obtain ⟨before, xs, hfront⟩ := bareParameters_of_derives h
    [.text "", .name "f", .symbol .assign, .symbol .lparen, .symbol .lparen, .name "a",
      .symbol .rparen, .symbol .rparen] [.name "a", .keyword .end_] rfl
  have hparam : Derives .documented [.symbol .lparen, .name "a", .symbol .rparen]
      (.exprs (["a"].map .var)) := by
    have ha : Derives .documented [.name "a"] (.expr .assignment (.var "a")) :=
      Derives.var.loosen (by decide)
    exact .oneExpr (ha.parens.loosen (by decide))
  have hfront : [.text "", .name "f", .symbol .assign]
      ++ .symbol .lparen :: [.symbol .lparen, .name "a", .symbol .rparen]
      = before ++ .symbol .lparen :: bareNames xs := List.append_cancel_right hfront
  have hbare := eq_bareNames hparam hfront
  simp [bareNames] at hbare

end TextTemplate
