import TextTemplate.Proofs.Grammar.Derivation
import Mathlib.Data.List.Basic

/-! Where the rules as applied and as documented part. Readers take any list of variables for the
parameters of a lambda, and a variable may stand in parentheses of its own; the documentation asks
for bare names. -/

namespace List.IsInfix

variable {α : Type} {ts us ls : List α} {l : α}

theorem left (h : ts ++ us <:+: ls) : ts <:+: ls := (prefix_append ts us).isInfix.trans h

theorem right (h : ts ++ us <:+: ls) : us <:+: ls := (suffix_append ts us).isInfix.trans h

theorem tail (h : l :: ts <:+: ls) : ts <:+: ls := (suffix_cons l ts).isInfix.trans h

end List.IsInfix

namespace TextTemplate.Grammar

/-- Each arrow stands right after a list of bare names in parentheses. -/
def BareParameters (ls : List Lexeme) : Prop :=
  ∀ front back, ls = front ++ .symbol .arrow :: back →
    ∃ before xs, front = before ++ .symbol .lparen :: bareNames xs ++ [.symbol .rparen]

theorem symbol_mem_bareNames {xs : List String} {x : Symbol}
    (h : .symbol x ∈ bareNames xs) : x = .comma := by
  fun_induction bareNames xs with
  | case1 => simp at h
  | case2 => simp at h
  | case3 x xs hxs ih =>
    rcases List.mem_cons.1 h with h | h
    · cases h
    rcases List.mem_cons.1 h with h | h
    · cases h
      rfl
    · exact ih h

namespace BareParameters

theorem of_ordinary {l : Lexeme} (h : Ordinary l) : BareParameters [l] := by
  intro front back heq
  have hmem : .symbol .arrow ∈ [l] := by simp [heq]
  obtain rfl := List.mem_singleton.1 hmem
  exact h.elim

theorem append {ts us : List Lexeme} (hts : BareParameters ts) (hus : BareParameters us) :
    BareParameters (ts ++ us) := by
  intro front back heq
  obtain ⟨rest, rfl, hrest⟩ | ⟨rest, rfl, hrest⟩ := List.append_eq_append_iff.1 heq
  · obtain ⟨before, xs, rfl⟩ := hus rest back hrest
    exact ⟨ts ++ before, xs, by simp⟩
  · cases rest with
    | nil =>
      obtain ⟨before, xs, hfront⟩ := hus [] back hrest.symm
      simp at hfront
    | cons l rest =>
      obtain ⟨rfl, -⟩ := List.cons.inj hrest
      exact hts front rest rfl

theorem arrow (xs : List String) :
    BareParameters (.symbol .lparen :: bareNames xs ++ [.symbol .rparen, .symbol .arrow]) := by
  have hnames : .symbol .arrow ∉ bareNames xs := fun h => nomatch symbol_mem_bareNames h
  intro front back heq
  have heq : (.symbol .lparen :: bareNames xs ++ [.symbol .rparen]) ++ [.symbol .arrow]
      = front ++ .symbol .arrow :: back := by simpa using heq
  obtain ⟨rfl, -, -⟩ := (List.append_cons_inj_of_notMem (by simp [hnames]) List.not_mem_nil).1 heq
  exact ⟨[], xs, by simp⟩

end BareParameters

theorem bareParameters_of_derives {ts : List Lexeme} {p : Phrase}
    (h : Derives .documented ts p) : BareParameters ts :=
  h.closed (C := BareParameters) (fun _ _ heq => by simp at heq) (fun _ => .of_ordinary)
    (fun _ _ => .append) fun ps xs _ hps => by
      obtain rfl := hps rfl
      exact .arrow xs

theorem spelling_of_var {g : Rules} {ts : List Lexeme} {p : Phrase} (h : Derives g ts p) :
    ∀ level x, p = .expr level (.var x) →
      ts = [.name x] ∨ ∃ us, ts = us ++ [.symbol .rparen] := by
  induction h with
  | var =>
    rintro _ x ⟨⟩
    exact .inl rfl
  | parens =>
    rintro _ _ -
    exact .inr ⟨_, rfl⟩
  | tighter _ ih =>
    rintro level x ⟨⟩
    exact ih _ x rfl
  | operator op =>
    rintro level x heq
    cases op <;> simp [Operator.apply] at heq
  | _ => rintro _ _ ⟨⟩

theorem spelling_of_vars {g : Rules} {ps : List Lexeme} {xs : List String}
    (h : Derives g ps (.exprs (xs.map .var))) :
    ps = bareNames xs ∨ ∃ us vs, ps = us ++ .symbol .rparen :: vs ∧ .symbol .lparen ∉ vs := by
  induction xs generalizing ps with
  | nil =>
    cases h
    exact .inl rfl
  | cons x xs ih =>
    cases xs with
    | nil =>
      cases h with
      | oneExpr h =>
        obtain rfl | ⟨us, rfl⟩ := spelling_of_var h _ x rfl
        · exact .inl rfl
        · exact .inr ⟨us, [], rfl, List.not_mem_nil⟩
    | cons y ys =>
      cases h with
      | moreExprs hts hus =>
        rename_i ts us
        obtain rfl | ⟨us', vs, rfl, hvs⟩ := ih hus
        · obtain rfl | ⟨us, rfl⟩ := spelling_of_var hts _ x rfl
          · exact .inl rfl
          · refine .inr ⟨us, .symbol .comma :: bareNames (y :: ys), by simp, ?_⟩
            simpa using fun h => nomatch symbol_mem_bareNames h
        · exact .inr ⟨ts ++ .symbol .comma :: us', vs, by simp, hvs⟩

theorem eq_bareNames {g : Rules} {ps before front : List Lexeme} {xs ys : List String}
    (h : Derives g ps (.exprs (xs.map .var)))
    (heq : front ++ .symbol .lparen :: ps = before ++ .symbol .lparen :: bareNames ys) :
    ps = bareNames xs := by
  obtain hps | ⟨us, vs, rfl, hvs⟩ := spelling_of_vars h
  · exact hps
  · have hys : .symbol .rparen ∉ bareNames ys := fun h => nomatch symbol_mem_bareNames h
    have heq : (front ++ .symbol .lparen :: us) ++ .symbol .rparen :: vs
        = before ++ .symbol .lparen :: bareNames ys := by simpa using heq
    -- what stands last of the two, the parenthesis on the left or on the right, is on both sides
    obtain ⟨rest, -, hrest⟩ | ⟨rest, -, hrest⟩ := List.append_eq_append_iff.1 heq
    · cases rest with
      | nil => simp at hrest
      | cons l rest =>
        obtain ⟨rfl, hvs'⟩ := List.cons.inj hrest
        simp [hvs'] at hvs
    · cases rest with
      | nil => simp at hrest
      | cons l rest =>
        obtain ⟨rfl, hys'⟩ := List.cons.inj hrest
        simp [hys'] at hys

theorem documented_of_applied {ls ts : List Lexeme} {p : Phrase} (hls : BareParameters ls)
    (h : Derives .applied ts p) (hts : ts <:+: ls) : Derives .documented ts p := by
  -- the parameters before an arrow of `ls` are bare
  have params {ps back xs} (hps : Derives .applied ps (.exprs (xs.map .var)))
      (hin : .symbol .lparen :: ps ++ .symbol .rparen :: .symbol .arrow :: back <:+: ls) :
      ps = bareNames xs := by
    obtain ⟨front, rest, hin⟩ := hin
    obtain ⟨before, ys, heq⟩ :=
      hls (front ++ .symbol .lparen :: ps ++ [.symbol .rparen]) (back ++ rest) (by simp [← hin])
    exact eq_bareNames hps (List.append_cancel_right heq)
  induction h with
  | constant h => exact .constant h
  | var => exact .var
  | selfMember h => exact .selfMember h
  | parens _ ih => exact .parens (ih hts.left.tail)
  | sequence _ ih => exact .sequence (ih hts.left.tail)
  | array _ ih => exact .array (ih hts.left.tail)
  | map _ ih => exact .map (ih hts.left.tail)
  | lambda hps _ _ _ ihps ihts =>
    have hbare := params hps (by simpa using hts)
    exact .lambda (ihps hts.left.left.tail) (fun _ => hbare) (ihts hts.left.right.tail.tail) nofun
  | bracedLambda hps _ _ ihps ihts =>
    have hbare := params hps (by simpa using hts)
    exact .bracedLambda (ihps hts.left.left.tail) (fun _ => hbare)
      (ihts hts.left.right.tail.tail.tail)
  | call _ _ ihts ihus => exact .call (ihts hts.left.left) (ihus hts.left.right.tail)
  | member _ hl ih => exact .member (ih hts.left) hl
  | updated _ ih => exact .updated (ih hts.left)
  | update _ ih => exact .update (ih hts.tail)
  | unary _ ih => exact .unary (ih hts.tail)
  | operator op _ _ ihts ihus => exact .operator op (ihts hts.left) (ihus hts.right.tail)
  | conditional _ _ _ ihts ihus ihvs =>
    exact .conditional (ihts hts.left.left) (ihus hts.left.right.tail) (ihvs hts.right.tail)
  | assign _ _ ihts ihus => exact .assign (ihts hts.left) (ihus hts.right.tail)
  | tighter _ ih => exact .tighter (ih hts)
  | noExprs => exact .noExprs
  | oneExpr _ ih => exact .oneExpr (ih hts)
  | moreExprs _ _ ihts ihus => exact .moreExprs (ihts hts.left) (ihus hts.right.tail)
  | noEntries => exact .noEntries
  | oneEntry hl _ ih => exact .oneEntry hl (ih hts.tail.tail)
  | moreEntries hl _ _ ihts ihus =>
    exact .moreEntries hl (ihts hts.left.tail.tail) (ihus hts.right.tail)
  | extend => exact .extend
  | includeAlone => exact .includeAlone
  | includeWith _ ih => exact .includeWith (ih hts.tail.tail.tail)
  | block hns hc _ _ ih => exact .block hns hc (ih hts.left.right) nofun
  | content hns => exact .content hns
  | output _ ih => exact .output (ih hts.tail)
  | branch _ hc _ _ ihts ihus =>
    exact .branch (ihts hts.left.left.left.tail) hc (ihus hts.left.right) nofun
  | branches _ hc _ _ hc' _ _ ihts ihus ihvs =>
    exact .branches (ihts hts.left.left.left.left.left.tail) hc (ihus hts.left.left.left.right)
      nofun hc' (ihvs hts.left.right) nofun
  | loop _ hc _ _ ihts ihus =>
    exact .loop (ihts hts.left.left.left.tail.tail.tail) hc (ihus hts.left.right) nofun
  | switch _ hc hls _ ihts ihus =>
    exact .switch (ihts hts.left.left.left.left.tail) hc hls (ihus hts.left.right)
  | expr _ ih => exact .expr (ih hts)
  | noStmts => exact .noStmts
  | emptyText _ ih => exact .emptyText (ih hts.tail)
  | text ht _ ih => exact .text ht (ih hts.tail)
  | moreStmts _ _ _ ihts ihus => exact .moreStmts (ihts hts.left) (ihus hts.right) nofun
  | noArms => exact .noArms
  | whenArm _ hc _ _ _ ihts ihus ihvs =>
    exact .whenArm (ihts hts.left.left.left.tail) hc (ihus hts.left.right) nofun (ihvs hts.right)
  | elseArm hc _ _ _ once ihus ihvs =>
    exact .elseArm hc (ihus hts.left.right) nofun (ihvs hts.right) once

theorem documented_iff {ts : List Lexeme} {p : Phrase} (h : Derives .applied ts p) :
    Derives .documented ts p ↔ BareParameters ts :=
  ⟨bareParameters_of_derives, fun hts => documented_of_applied hts h List.infix_rfl⟩

end TextTemplate.Grammar
