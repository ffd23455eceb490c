import Mathlib.Data.List.Basic
import TextTemplate.Text

/-! Escaping for HTML can be undone: reading from the left and replacing each entity by the
character that it stands for gives the text back. Where a text holds entities before it is escaped,
their ampersands are escaped too, so that none of them is taken for one that escaping has put
there. -/

namespace TextTemplate.Text

def entities : List (Char × List Char) :=
  [('&', "&amp;".toList), ('<', "&lt;".toList), ('>', "&gt;".toList), ('"', "&quot;".toList),
    ('\'', "&#39;".toList)]

def entityAt? (cs : List Char) : Option (Char × List Char) :=
  entities.find? fun e => e.2.isPrefixOf cs

def unescape : List Char → List Char
  | [] => []
  | c :: cs =>
    match entityAt? (c :: cs) with
    | some e => e.1 :: unescape (cs.drop (e.2.length - 1))
    | none => c :: unescape cs
termination_by cs => cs.length
decreasing_by all_goals simp; try omega

def unescapeHtml (s : String) : String :=
  String.ofList (unescape s.toList)

def isMarkup (c : Char) : Bool :=
  c == '<' || c == '>' || c == '"' || c == '\''

theorem all_htmlEntity (c : Char) : (htmlEntity c).all (fun d => !isMarkup d) = true := by
  unfold htmlEntity
  split
  case h_6 => simp_all [isMarkup]
  all_goals rfl

theorem isMarkup_escapeHtml {s : String} {c : Char} (h : c ∈ (escapeHtml s).toList) :
    isMarkup c = false := by
  rw [escapeHtml, String.toList_ofList, List.mem_flatMap] at h
  obtain ⟨d, -, hc⟩ := h
  simpa using List.all_eq_true.1 (all_htmlEntity d) c hc

theorem eq_cons_of_mem_entities {e : Char × List Char} (h : e ∈ entities) :
    ∃ name, e.2 = '&' :: name ∧ '&' ∉ name := by
  have hall : ∀ e ∈ entities, e.2.head? = some '&' ∧ '&' ∉ e.2.tail := by decide
  obtain ⟨hhead, htail⟩ := hall e h
  exact ⟨e.2.tail, List.eq_cons_of_mem_head? hhead, htail⟩

theorem entityAt?_append {e : Char × List Char} (h : e ∈ entities) (rest : List Char) :
    entityAt? (e.2 ++ rest) = some e := by
  simp only [entities, List.mem_cons, List.not_mem_nil, or_false] at h
  rcases h with rfl | rfl | rfl | rfl | rfl <;> rfl

theorem entityAt?_cons_of_ne {c : Char} (h : c ≠ '&') (cs : List Char) :
    entityAt? (c :: cs) = none := by
  refine List.find?_eq_none.2 fun e he => ?_
  obtain ⟨name, hname, -⟩ := eq_cons_of_mem_entities he
  simp [hname, h.symm]

theorem htmlEntity_mem_or_eq (c : Char) :
    (c, htmlEntity c) ∈ entities ∨ htmlEntity c = [c] ∧ c ∉ entities.map Prod.fst := by
  unfold htmlEntity
  split
  case h_6 => exact .inr ⟨rfl, by simp_all [entities]⟩
  all_goals exact .inl (by decide)

theorem mem_entities_iff {e : Char × List Char} :
    e ∈ entities ↔ e.2 = htmlEntity e.1 ∧ e.2 ≠ [e.1] := by
  constructor
  · have hall : ∀ e ∈ entities, e.2 = htmlEntity e.1 ∧ e.2 ≠ [e.1] := by decide
    exact hall e
  · rintro ⟨heq, hne⟩
    rcases htmlEntity_mem_or_eq e.1 with hmem | ⟨hself, -⟩
    · rwa [← heq] at hmem
    · exact absurd (heq.trans hself) hne

theorem unescape_append {e : Char × List Char} (h : e ∈ entities) (rest : List Char) :
    unescape (e.2 ++ rest) = e.1 :: unescape rest := by
  have hat := entityAt?_append h rest
  obtain ⟨name, hname, -⟩ := eq_cons_of_mem_entities h
  rw [hname, List.cons_append] at hat ⊢
  rw [unescape, hat]
  simp [hname]

theorem unescape_cons_of_ne {c : Char} (h : c ≠ '&') (cs : List Char) :
    unescape (c :: cs) = c :: unescape cs := by
  rw [unescape, entityAt?_cons_of_ne h]

theorem unescape_htmlEntity (c : Char) (rest : List Char) :
    unescape (htmlEntity c ++ rest) = c :: unescape rest := by
  rcases htmlEntity_mem_or_eq c with hmem | ⟨heq, hnot⟩
  · exact unescape_append hmem rest
  · rw [heq, List.singleton_append, unescape_cons_of_ne]
    rintro rfl
    exact hnot (by decide)

theorem unescape_flatMap (cs : List Char) : unescape (cs.flatMap htmlEntity) = cs := by
  induction cs with
  | nil => rw [List.flatMap_nil, unescape]
  | cons c cs ih => rw [List.flatMap_cons, unescape_htmlEntity, ih]

theorem ampersand_suffix_append {name cs after : List Char} (hname : '&' ∉ name)
    (h : '&' :: after <:+ name ++ cs) : '&' :: after <:+ cs := by
  induction name with
  | nil => exact h
  | cons c name ih =>
    rw [List.mem_cons, not_or] at hname
    rcases List.suffix_cons_iff.1 h with heq | h
    · exact absurd (List.cons.inj heq).1 hname.1
    · exact ih hname.2 h

theorem entity_of_suffix_flatMap {cs after : List Char}
    (h : '&' :: after <:+ cs.flatMap htmlEntity) : ∃ e ∈ entities, e.2 <+: '&' :: after := by
  induction cs with
  | nil => simp at h
  | cons c cs ih =>
    rw [List.flatMap_cons] at h
    rcases htmlEntity_mem_or_eq c with hmem | ⟨heq, hnot⟩
    · obtain ⟨name, hname, hamp⟩ := eq_cons_of_mem_entities hmem
      dsimp only at hname
      rw [hname, List.cons_append] at h
      rcases List.suffix_cons_iff.1 h with heq | h
      · exact ⟨_, hmem, by rw [heq, hname]; exact List.prefix_append ('&' :: name) _⟩
      · exact ih (ampersand_suffix_append hamp h)
    · rw [heq] at h
      refine ih (ampersand_suffix_append (fun hc => hnot ?_) h)
      rw [← List.mem_singleton.1 hc]
      decide

theorem unescapeHtml_escapeHtml (s : String) : unescapeHtml (escapeHtml s) = s := by
  rw [unescapeHtml, escapeHtml, String.toList_ofList, unescape_flatMap, String.ofList_toList]

/-- An escaped text has no markup, its ampersands all begin one of the five entities, and replacing
these gives the text back; so no two texts are escaped to the same. -/
theorem escaping_safe_and_undone :
    (∀ s : String, ∀ c ∈ (escapeHtml s).toList, c ≠ '<' ∧ c ≠ '>' ∧ c ≠ '"' ∧ c ≠ '\'') ∧
    (∀ e, e ∈ entities ↔ e.2 = htmlEntity e.1 ∧ e.2 ≠ [e.1]) ∧ entities.length = 5 ∧
    (∀ (s : String) (after : List Char), '&' :: after <:+ (escapeHtml s).toList →
      ∃ e ∈ entities, e.2 <+: '&' :: after) ∧
    (∀ s, unescapeHtml (escapeHtml s) = s) ∧ Function.Injective escapeHtml := by
  refine ⟨fun s c hc => ?_, fun _ => mem_entities_iff, rfl, fun s after h => ?_,
    unescapeHtml_escapeHtml, Function.LeftInverse.injective unescapeHtml_escapeHtml⟩
  · simpa [isMarkup, and_assoc] using isMarkup_escapeHtml hc
  · rw [escapeHtml, String.toList_ofList] at h
    exact entity_of_suffix_flatMap h

theorem entity_escaped_once_more :
    let s := "&lt;'"
    let after := "#39;".toList
    escapeHtml s = "&amp;lt;&#39;" ∧
      ';' ∈ (escapeHtml s).toList ∧ (';' ≠ '<' ∧ ';' ≠ '>' ∧ ';' ≠ '"' ∧ ';' ≠ '\'') ∧
      '&' :: after <:+ (escapeHtml s).toList ∧ (∃ e ∈ entities, e.2 <+: '&' :: after) ∧
      unescapeHtml (escapeHtml s) = s := by
  intro s after
  obtain ⟨hmarkup, -, -, hamp, hundone, -⟩ := escaping_safe_and_undone
  have hescaped : escapeHtml s = "&amp;lt;&#39;" := by decide +kernel
  have hmem : ';' ∈ (escapeHtml s).toList := by
    rw [hescaped]
    decide
  have hsuffix : '&' :: after <:+ (escapeHtml s).toList := by
    rw [hescaped]
    exact ⟨"&amp;lt;".toList, by decide⟩
  exact ⟨hescaped, hmem, hmarkup s ';' hmem, hsuffix, hamp s after hsuffix, hundone s⟩

end TextTemplate.Text
