import Mathlib.Data.List.DropRight
import TextTemplate.Project.Changes

/-! The components of a path are told by the parts between its slashes. What is left of a path below
a directory has the components that the directory leaves, in whichever way the two are spelled. -/

namespace TextTemplate.FilePath

section Parts

variable {part cs : List Char} {parts : List (List Char)}

theorem splitSlashes_eq_splitOn (cs : List Char) : splitSlashes cs = cs.splitOn '/' := by
  induction cs with
  | nil => rfl
  | cons c cs ih =>
    rw [splitSlashes, List.splitOn_cons_eq_if_modifyHead, ih]
    by_cases hc : c = '/'
    · simp [hc]
    · obtain ⟨part, parts, hparts⟩ := List.exists_cons_of_ne_nil (List.splitOn_ne_nil '/' cs)
      simp [hc, hparts]

theorem joinSlashes_eq_intercalate (parts : List (List Char)) :
    joinSlashes parts = ['/'].intercalate parts := by
  induction parts with
  | nil => rfl
  | cons part parts ih =>
    cases parts with
    | nil => simp [joinSlashes]
    | cons next parts => simp [joinSlashes, ih]

theorem splitSlashes_ne_nil (cs : List Char) : splitSlashes cs ≠ [] := by
  rw [splitSlashes_eq_splitOn]
  exact List.splitOn_ne_nil '/' cs

theorem splitSlashes_joinSlashes (hne : parts ≠ []) (h : ∀ part ∈ parts, '/' ∉ part) :
    splitSlashes (joinSlashes parts) = parts := by
  rw [splitSlashes_eq_splitOn, joinSlashes_eq_intercalate]
  exact List.splitOn_intercalate '/' h hne

theorem slash_notMem_of_mem_splitSlashes (h : part ∈ splitSlashes cs) : '/' ∉ part := by
  induction cs generalizing part with
  | nil =>
    obtain rfl := List.mem_singleton.1 h
    exact List.not_mem_nil
  | cons c cs ih =>
    obtain ⟨first, parts, hparts⟩ := List.exists_cons_of_ne_nil (splitSlashes_ne_nil cs)
    rw [splitSlashes, hparts] at h
    rw [hparts] at ih
    by_cases hc : c = '/'
    · rw [if_pos hc] at h
      rcases List.mem_cons.1 h with rfl | h
      · exact List.not_mem_nil
      · exact ih h
    · rw [if_neg hc] at h
      rcases List.mem_cons.1 h with rfl | h
      · exact List.not_mem_cons_of_ne_of_not_mem (Ne.symm hc) (ih List.mem_cons_self)
      · exact ih (List.mem_cons_of_mem _ h)

theorem component?_eq_none_iff : component? part = none ↔ isTrivial part = true := by
  unfold component?
  split
  · simp_all
  · split <;> simp_all

theorem filterMap_of_trivial (h : ∀ part ∈ parts, isTrivial part = true) :
    parts.filterMap component? = [] :=
  List.filterMap_eq_nil_iff.2 fun part hpart => component?_eq_none_iff.2 (h part hpart)

theorem filterMap_dropWhile (parts : List (List Char)) :
    (parts.dropWhile isTrivial).filterMap component? = parts.filterMap component? := by
  conv_rhs => rw [← List.takeWhile_append_dropWhile (p := isTrivial) (l := parts)]
  rw [List.filterMap_append, filterMap_of_trivial fun part => List.mem_takeWhile_imp]
  rfl

theorem filterMap_trimRight (parts : List (List Char)) :
    (trimRight parts).filterMap component? = parts.filterMap component? := by
  have h := filterMap_dropWhile parts.reverse
  rw [List.filterMap_reverse] at h
  rw [trimRight, List.filterMap_reverse, h, List.reverse_reverse]

theorem trimRight_isPrefix (parts : List (List Char)) : trimRight parts <+: parts :=
  List.rdropWhile_prefix isTrivial parts

theorem dropComponents_suffix (n : Nat) (parts : List (List Char)) :
    dropComponents n parts <:+ parts := by
  induction parts generalizing n with
  | nil => cases n <;> exact List.suffix_rfl
  | cons part parts ih =>
    cases n with
    | zero => exact List.suffix_rfl
    | succ n =>
      rw [dropComponents]
      split <;> exact (ih _).trans (List.suffix_cons part parts)

theorem filterMap_dropComponents (n : Nat) (parts : List (List Char)) :
    (dropComponents n parts).filterMap component? = (parts.filterMap component?).drop n := by
  induction parts generalizing n with
  | nil => cases n <;> rfl
  | cons part parts ih =>
    cases n with
    | zero => rfl
    | succ n =>
      rw [dropComponents]
      by_cases h : isTrivial part = true
      · rw [if_pos h, ih, List.filterMap_cons_none (component?_eq_none_iff.2 h)]
      · obtain ⟨c, hc⟩ := Option.ne_none_iff_exists'.1 (mt component?_eq_none_iff.1 h)
        rw [if_neg h, ih, List.filterMap_cons_some hc, List.drop_succ_cons]

theorem trimRight_cons_nil (parts : List (List Char)) :
    trimRight ([] :: parts) = if trimRight parts = [] then [] else [] :: trimRight parts := by
  unfold trimRight
  rw [List.reverse_cons, List.dropWhile_append]
  by_cases h : parts.reverse.dropWhile isTrivial = []
  · simp [h, isTrivial]
  · simp [h]

def leading : List (List Char) → Option Component
  | [] :: _ :: _ => some .root
  | ['.'] :: _ => some .current
  | _ => none

/-- The components that the parts between the slashes of a path spell. -/
def spelled (parts : List (List Char)) : List Component :=
  (leading parts).toList ++ parts.filterMap component?

theorem leading_of_not_trivial (h : isTrivial part = false) : leading (part :: parts) = none := by
  unfold leading
  split <;> simp_all [isTrivial]

theorem trimRight_dropWhile (h : leading parts = none) :
    trimRight (parts.dropWhile isTrivial) = trimRight parts := by
  cases parts with
  | nil => rfl
  | cons first rest =>
    by_cases hfirst : isTrivial first = true
    · rw [isTrivial, Bool.or_eq_true, beq_iff_eq, beq_iff_eq] at hfirst
      rcases hfirst with rfl | rfl
      · cases rest with
        | nil => rfl
        | cons next rest => cases h
      · cases h
    · rw [List.dropWhile_cons_of_neg hfirst]

theorem spelled_root (h : parts ≠ []) :
    spelled ([] :: parts) = .root :: parts.filterMap component? := by
  cases parts with
  | nil => exact absurd rfl h
  | cons part parts => rfl

theorem spelled_current (parts : List (List Char)) :
    spelled (['.'] :: parts) = .current :: parts.filterMap component? := rfl

theorem exists_slash_of_splitSlashes (h : splitSlashes cs = [] :: parts) :
    cs = [] ∨ ∃ ds, cs = '/' :: ds := by
  cases cs with
  | nil => exact .inl rfl
  | cons c cs =>
    by_cases hc : c = '/'
    · exact .inr ⟨cs, by rw [hc]⟩
    · obtain ⟨part, rest, hparts⟩ := List.exists_cons_of_ne_nil (splitSlashes_ne_nil cs)
      simp [splitSlashes, hc, hparts] at h

theorem leading_splitSlashes (hroot : ∀ ds, cs ≠ '/' :: ds) (hdot : cs ≠ ['.'])
    (hcurrent : ∀ ds, cs ≠ '.' :: '/' :: ds) : leading (splitSlashes cs) = none := by
  unfold leading
  split
  · rename_i hparts
    rcases exists_slash_of_splitSlashes hparts with rfl | ⟨ds, rfl⟩
    · cases hparts
    · exact absurd rfl (hroot ds)
  · rename_i parts hparts
    cases cs with
    | nil => cases hparts
    | cons c cs =>
      have hc : c ≠ '/' := fun hc => hroot cs (by rw [hc])
      obtain ⟨part, rest, hrest⟩ := List.exists_cons_of_ne_nil (splitSlashes_ne_nil cs)
      simp only [splitSlashes, hc, if_false, hrest, List.cons.injEq] at hparts
      obtain ⟨⟨rfl, rfl⟩, -⟩ := hparts
      rcases exists_slash_of_splitSlashes hrest with rfl | ⟨ds, rfl⟩
      · exact absurd rfl hdot
      · exact absurd rfl (hcurrent ds)
  · rfl

end Parts

variable {p q base : FilePath}

theorem split_cases (p : FilePath) :
    (∃ parts, splitSlashes p.text.toList = [] :: parts ∧ parts ≠ [] ∧
      p.split = (['/'], some .root, parts)) ∨
    (∃ parts, splitSlashes p.text.toList = ['.'] :: parts ∧
      p.split = (['.'], some .current, [] :: parts)) ∨
    leading (splitSlashes p.text.toList) = none ∧
      p.split = ([], none, splitSlashes p.text.toList) := by
  unfold split
  split
  · rename_i cs htext
    exact .inl ⟨splitSlashes cs, by rw [htext]; rfl, splitSlashes_ne_nil cs, rfl⟩
  · rename_i htext
    exact .inr (.inl ⟨[], by rw [htext]; rfl, rfl⟩)
  · rename_i cs htext
    exact .inr (.inl ⟨splitSlashes cs, by rw [htext]; rfl, rfl⟩)
  · rename_i cs hroot hdot hcurrent
    exact .inr (.inr ⟨leading_splitSlashes hroot hdot hcurrent, rfl⟩)

theorem slash_notMem_of_mem_split {part : List Char} (h : part ∈ p.split.2.2) : '/' ∉ part := by
  have hslash : ∀ part ∈ splitSlashes p.text.toList, '/' ∉ part :=
    fun _ => slash_notMem_of_mem_splitSlashes
  rcases split_cases p with ⟨parts, hparts, -, hsplit⟩ | ⟨parts, hparts, hsplit⟩ | ⟨-, hsplit⟩
  · rw [hsplit] at h
    exact hslash part (hparts ▸ List.mem_cons_of_mem _ h)
  · rw [hsplit] at h
    rcases List.mem_cons.1 h with rfl | h
    · exact List.not_mem_nil
    · exact hslash part (hparts ▸ List.mem_cons_of_mem _ h)
  · rw [hsplit] at h
    exact hslash part h

theorem components_eq_split (p : FilePath) :
    p.components = p.split.2.1.toList ++ p.split.2.2.filterMap component? := rfl

theorem components_eq_spelled (p : FilePath) :
    p.components = spelled (splitSlashes p.text.toList) := by
  rw [components_eq_split]
  rcases split_cases p with ⟨parts, hparts, hne, hsplit⟩ | ⟨parts, hparts, hsplit⟩ | ⟨hnone, hsplit⟩
  · rw [hsplit, hparts, spelled_root hne]
    rfl
  · rw [hsplit, hparts, spelled_current]
    rfl
  · rw [hsplit, spelled, hnone]

theorem components_joinSlashes {parts : List (List Char)} (hne : parts ≠ [])
    (h : ∀ part ∈ parts, '/' ∉ part) :
    components ⟨String.ofList (joinSlashes parts)⟩ = spelled parts := by
  rw [components_eq_spelled, String.toList_ofList, splitSlashes_joinSlashes hne h]

theorem filterMap_splitSlashes_joinSlashes {parts : List (List Char)}
    (h : ∀ part ∈ parts, '/' ∉ part) :
    (splitSlashes (joinSlashes parts)).filterMap component? = parts.filterMap component? := by
  by_cases hne : parts = []
  · rw [hne]
    rfl
  · rw [splitSlashes_joinSlashes hne h]

theorem slash_notMem_trimRight {parts : List (List Char)} (h : ∀ part ∈ parts, '/' ∉ part) :
    ∀ part ∈ trimRight parts, '/' ∉ part :=
  fun part hpart => h part ((trimRight_isPrefix parts).subset hpart)

theorem components_trimmed {parts : List (List Char)} (h : ∀ part ∈ parts, '/' ∉ part) :
    components ⟨String.ofList (joinSlashes (trimRight (parts.dropWhile isTrivial)))⟩ =
      parts.filterMap component? := by
  have hslash : ∀ part ∈ trimRight (parts.dropWhile isTrivial), '/' ∉ part :=
    slash_notMem_trimRight fun part hpart => h part ((List.dropWhile_suffix _).subset hpart)
  have hspelled : (trimRight (parts.dropWhile isTrivial)).filterMap component? =
      parts.filterMap component? := by
    rw [filterMap_trimRight, filterMap_dropWhile]
  by_cases hnil : trimRight (parts.dropWhile isTrivial) = []
  · rw [← hspelled, hnil]
    rfl
  obtain ⟨first, rest, hcons⟩ := List.exists_cons_of_ne_nil hnil
  have hfirst : isTrivial first = false := by
    have hprefix := trimRight_isPrefix (parts.dropWhile isTrivial)
    obtain ⟨others, hothers⟩ := hcons ▸ hprefix
    have hhead := List.head?_dropWhile_not isTrivial parts
    rwa [← hothers] at hhead
  rw [components_joinSlashes hnil hslash, spelled, hspelled, hcons, leading_of_not_trivial hfirst]
  rfl

theorem components_trimEnd (p : FilePath) :
    components ⟨String.ofList (p.split.1 ++ joinSlashes (trimRight p.split.2.2))⟩ =
      p.components := by
  have hslash : ∀ part ∈ splitSlashes p.text.toList, '/' ∉ part :=
    fun _ => slash_notMem_of_mem_splitSlashes
  rcases split_cases p with ⟨parts, hparts, hne, hsplit⟩ | ⟨parts, hparts, hsplit⟩ | ⟨hnone, hsplit⟩
  · rw [hparts, List.forall_mem_cons] at hslash
    have htrim := filterMap_splitSlashes_joinSlashes (slash_notMem_trimRight hslash.2)
    rw [components_eq_spelled, components_eq_spelled p, String.toList_ofList, hsplit, hparts,
      spelled_root hne, List.singleton_append, splitSlashes, if_pos rfl,
      spelled_root (splitSlashes_ne_nil _), htrim, filterMap_trimRight]
  · rw [hparts, List.forall_mem_cons] at hslash
    have htrim := filterMap_splitSlashes_joinSlashes (slash_notMem_trimRight hslash.2)
    rw [filterMap_trimRight] at htrim
    rw [components_eq_spelled, components_eq_spelled p, String.toList_ofList, hsplit, hparts,
      spelled_current]
    dsimp only
    rw [trimRight_cons_nil, ← htrim]
    by_cases hnil : trimRight parts = []
    · rw [if_pos hnil, hnil]
      rfl
    · rw [if_neg hnil]
      obtain ⟨first, rest, hcons⟩ := List.exists_cons_of_ne_nil hnil
      rw [hcons]
      exact spelled_current _
  · have htrim := trimRight_dropWhile hnone
    have hcomponents : p.components = (splitSlashes p.text.toList).filterMap component? := by
      rw [components_eq_spelled, spelled, hnone]
      rfl
    rw [hsplit, List.nil_append, ← htrim, components_trimmed hslash, hcomponents]

theorem components_of_stripPrefix? (h : stripPrefix? base p = some q) :
    q.components = p.components.drop base.components.length := by
  unfold stripPrefix? at h
  split at h
  · dsimp only at h
    split at h
    · rename_i hlength
      obtain rfl := Option.some.inj h
      rw [components_trimEnd, hlength, List.drop_zero]
    · rename_i n hlength
      obtain rfl := Option.some.inj h
      rw [components_trimmed, filterMap_dropComponents, hlength, components_eq_split]
      · cases p.split.2.1 <;> rfl
      · intro part hpart
        exact slash_notMem_of_mem_split ((dropComponents_suffix ..).subset hpart)
  · cases h

theorem stripPrefix?_eq_none_iff :
    stripPrefix? base p = none ↔ ¬ base.components <+: p.components := by
  unfold stripPrefix?
  split
  · rename_i h
    rw [List.isPrefixOf_iff_prefix] at h
    refine iff_of_false ?_ (not_not.2 h)
    dsimp only
    split <;> nofun
  · rename_i h
    rw [List.isPrefixOf_iff_prefix] at h
    exact iff_of_true rfl h

def componentsFrom (base cs : List Component) : List Component :=
  if base <+: cs then cs.drop base.length else cs

theorem components_relativeTo (base p : FilePath) :
    (relativeTo base p).components = componentsFrom base.components p.components := by
  unfold relativeTo componentsFrom
  cases h : stripPrefix? base p with
  | none =>
    rw [if_neg (stripPrefix?_eq_none_iff.1 h)]
    rfl
  | some q =>
    have hprefix : base.components <+: p.components := by
      by_contra hno
      simp [stripPrefix?_eq_none_iff.2 hno] at h
    rw [if_pos hprefix]
    exact components_of_stripPrefix? h

end TextTemplate.FilePath
