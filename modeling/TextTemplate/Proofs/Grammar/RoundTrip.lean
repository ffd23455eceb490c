import TextTemplate.Compile
import TextTemplate.Proofs.Grammar.Completeness
import TextTemplate.Proofs.Grammar.Printing
import TextTemplate.Proofs.Tree.Numbering

/-! Compiling undoes printing: the lexemes of a printed tree are those that it was spelled with, and
the rules that leave no choice derive the tree from them. -/

namespace TextTemplate

open Grammar

variable {style : Style} {tree : List SourceStmt}

theorem tokens_print (h : Stmt.printableAll tree = true) :
    (Scanner.ofString .default (style.print tree)).tokens.map Token.lexeme
      = style.edge tree.head? ++ style.stmts tree ++ [.endOfInput] := by
  have hspellable := Style.spellable_edge_stmts (@Style.spellable_stmts style tree h)
  obtain ⟨t, ls, htext⟩ := @Style.text_edge style tree
  -- the template begins with the first text, whether it is one of the tree or a break
  unfold Style.print
  rw [htext] at hspellable ⊢
  exact Scanner.tokens_spell hspellable.2.1 hspellable.2.2

theorem derives_print (h : Stmt.printableAll tree = true) :
    Derives .unambiguous (style.edge tree.head? ++ style.stmts tree) (.stmts tree) := by
  have hstmts := @Style.derives_stmts style tree h [] .noStmts trivial
  rw [List.append_nil] at hstmts
  exact Style.derives_edge hstmts

/-- A printed tree compiles to a program with the very tree, its variables numbered in the order in
which they first occur, unless it is nested too deeply, which takes many tokens and is the only
thing that can be wrong. -/
theorem compile_print (style : Style) (name : String) {tree : List SourceStmt}
    (h : Stmt.printableAll tree = true) :
    (∃ p, compile .default name (style.print tree) = .ok p ∧
      p.slots = (Stmt.variables tree).eraseDups ∧
      Stmt.relabel some (fun _ => ()) p.body = Stmt.relabel p.slot? (fun _ => ()) tree) ∨
    maxNesting ≤ (Scanner.ofString .default (style.print tree)).tokens.length + 1 ∧
      ∃ position, compile .default name (style.print tree) =
        .error (.compileFailed name [Problem.report name (style.print tree)
          ⟨position, .tooDeep⟩]) := by
  have htokens := @tokens_print style tree h
  have hlength := congrArg List.length htokens
  obtain hread | ⟨hdeep, position, hread⟩ := read_of_derives htokens (derives_print h)
  · refine .inl ⟨Program.ofTree name tree, ?_, Program.slots_ofTree name tree,
      Program.body_ofTree name tree⟩
    unfold compile readTemplate
    rw [hread]
  · refine .inr ⟨?_, position, ?_⟩
    · simp only [List.length_map, List.length_append, List.length_cons, List.length_nil]
        at hlength hdeep
      omega
    · unfold compile readTemplate
      rw [hread]
      rfl

def showcase : List SourceStmt :=
  [.text "Hello, ",
    .output true (.conditional (.logical .coalesce (.var "a") (.logical .and (.var "b") (.var "c")))
      (.assign "x" none (.literal (.int 3))) (.conditional (.var "b") (.var "c") (.var "d"))),
    .expr (.assign "f" (some .add) (.lambda () ["x", "y"]
      [.output false (.binary (.arithmetic .mul)
        (.binary (.arithmetic .sub) (.var "x") (.binary (.arithmetic .sub) (.var "y") (.var "z")))
        (.unary .neg (.update .inc true "x"))), .text "<b>"])),
    .switch (.call (.var "f") [.sequence [.var "x", .selfMember "end"],
        .map [("a\"b", .array []), ("c", .member (.update .dec false "z") "length" true)]])
      [(some (.literal (.string "q")), []), (none, [.text "none"])],
    .loop "i" (.var "items") [.branch (.var "i") [.include "p" (some (.var "i")), .content "m"] []]]

theorem compile_print_showcase :
    ∃ p, compile .default "page" (Style.print ⟨false, true, .assignment⟩ showcase) = .ok p ∧
      p.slots = ["a", "b", "c", "x", "d", "f", "y", "z", "i", "items"] ∧
      Stmt.relabel some (fun _ => ()) p.body = Stmt.relabel p.slot? (fun _ => ()) showcase := by
  have hprintable : Stmt.printableAll showcase = true := by decide +kernel
  have hslots : (Stmt.variables showcase).eraseDups
      = ["a", "b", "c", "x", "d", "f", "y", "z", "i", "items"] := by decide +kernel
  have hlength := congrArg List.length (@tokens_print ⟨false, true, .assignment⟩ _ hprintable)
  rw [List.length_map] at hlength
  have hprint := compile_print ⟨false, true, .assignment⟩ "page" hprintable
  rw [hslots, hlength] at hprint
  exact hprint.resolve_right fun hdeep => absurd hdeep.1 (by decide +kernel)

end TextTemplate
