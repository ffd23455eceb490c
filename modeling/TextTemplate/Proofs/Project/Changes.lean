import Mathlib.Data.List.Lex
import Mathlib.Data.List.Sort
import Mathlib.Data.Prod.Lex
import Mathlib.Data.String.Basic
import TextTemplate.Proofs.Project.Paths

/-! Which changes of files are told, and in which order. Paths are ordered by their components, so
in an order in which no two spellings of a path differ; of a sorted list the repeats stand next to
each other, and what is left depends on the set of the changes only. -/

namespace TextTemplate

namespace FilePath

def Component.place : Component → ℕ ×ₗ String
  | .normal name => toLex (3, name)
  | c => toLex (c.rank, "")

def place (p : FilePath) : List (ℕ ×ₗ String) :=
  p.components.map Component.place

theorem Component.place_injective : Function.Injective place := by
  intro a b h
  cases a <;> cases b <;> simp_all [place, rank]

theorem Component.lt_iff_place_lt {a b : Component} : a.lt b = true ↔ a.place < b.place := by
  cases a <;> cases b <;> simp [lt, place, rank, Prod.Lex.toLex_lt_toLex]

theorem Component.listLe_iff {as bs : List Component} :
    listLe as bs = true ↔ as.map place ≤ bs.map place := by
  rw [← not_lt]
  induction as generalizing bs with
  | nil => simp [listLe]
  | cons a as ih =>
    cases bs with
    | nil => simp [listLe]
    | cons b bs =>
      rw [listLe, Bool.or_eq_true, Bool.and_eq_true, lt_iff_place_lt, beq_iff_eq, ih, List.map_cons,
        List.map_cons, List.cons_lt_cons_iff, place_injective.eq_iff]
      rcases lt_trichotomy a.place b.place with h | h | h
      · have hne : b ≠ a := fun heq => h.ne (congrArg place heq.symm)
        simp [h, h.not_gt, hne]
      · obtain rfl := place_injective h
        simp
      · have hne : a ≠ b := fun heq => h.ne (congrArg place heq.symm)
        simp [h, h.not_gt, hne]

variable {p q : FilePath} {ps : List FilePath}

theorem le_iff_place_le : p.le q = true ↔ p.place ≤ q.place :=
  Component.listLe_iff

theorem place_eq_iff : p.place = q.place ↔ p.components = q.components :=
  (List.map_injective_iff.2 Component.place_injective).eq_iff

theorem same_iff : p.same q = true ↔ p.components = q.components :=
  beq_iff_eq

theorem mem_map_dropRepeats {α : Type} {f : FilePath → α} {x : α}
    (hf : ∀ p q : FilePath, p.components = q.components → f p = f q) :
    x ∈ (dropRepeats ps).map f ↔ x ∈ ps.map f := by
  induction ps with
  | nil => rfl
  | cons p ps ih =>
    rw [List.map_cons, List.mem_cons, ← ih, dropRepeats]
    cases dropRepeats ps with
    | nil => simp
    | cons q qs =>
      by_cases hsame : p.same q = true
      · simp [hsame, hf p q (same_iff.1 hsame)]
      · simp [hsame]

theorem increasing_dropRepeats (h : (ps.map place).Pairwise (· ≤ ·)) :
    ((dropRepeats ps).map place).Pairwise (· < ·) := by
  induction ps with
  | nil => exact .nil
  | cons p ps ih =>
    rw [List.map_cons, List.pairwise_cons] at h
    have hrest := ih h.2
    have hle : ∀ x ∈ (dropRepeats ps).map place, p.place ≤ x :=
      fun x hx => h.1 x ((mem_map_dropRepeats fun _ _ => place_eq_iff.2).1 hx)
    rw [dropRepeats]
    cases hqs : dropRepeats ps with
    | nil => exact List.pairwise_singleton _ _
    | cons q qs =>
      rw [hqs] at hrest hle
      by_cases hsame : p.same q = true
      · have hplace : p.place = q.place := place_eq_iff.2 (same_iff.1 hsame)
        simpa [hsame, hplace] using hrest
      · have hne : p.place ≠ q.place := fun heq => hsame (same_iff.2 (place_eq_iff.1 heq))
        have hlt : p.place < q.place := lt_of_le_of_ne (hle _ List.mem_cons_self) hne
        dsimp only
        rw [if_neg hsame]
        refine List.pairwise_cons.2 ⟨fun x hx => ?_, hrest⟩
        rcases List.mem_cons.1 hx with rfl | hx
        · exact hlt
        · exact hlt.trans ((List.pairwise_cons.1 hrest).1 x hx)

theorem sorted_mergeSort (ps : List FilePath) :
    ((ps.mergeSort le).map place).Pairwise (· ≤ ·) := by
  have hsorted : (ps.mergeSort le).Pairwise fun p q => p.le q = true := by
    apply List.pairwise_mergeSort
    · intro p q r hpq hqr
      exact le_iff_place_le.2 ((le_iff_place_le.1 hpq).trans (le_iff_place_le.1 hqr))
    · intro p q
      rw [Bool.or_eq_true, le_iff_place_le, le_iff_place_le]
      exact le_total _ _
  exact List.pairwise_map.2 (hsorted.imp le_iff_place_le.1)

theorem matchesExtension_congr (h : p.components = q.components) (ext : String) :
    p.matchesExtension ext = q.matchesExtension ext := by
  rw [matchesExtension, matchesExtension, extension?, extension?, fileName?, fileName?, h]

end FilePath

open FilePath

variable {paths paths' ignored : List FilePath} {base : FilePath} {ext : String}

theorem increasing_changedTemplates :
    ((changedTemplates paths base ext ignored).map place).Pairwise (· < ·) :=
  increasing_dropRepeats (sorted_mergeSort _)

theorem mem_changedTemplates {cs : List Component} :
    cs ∈ (changedTemplates paths base ext ignored).map components ↔
      ∃ p ∈ paths, p.matchesExtension ext = true ∧
        (∀ i ∈ ignored, i.components ≠ p.components) ∧
        cs = componentsFrom base.components p.components := by
  have hkept (p : FilePath) : (p.matchesExtension ext && !ignored.any p.same) = true ↔
      p.matchesExtension ext = true ∧ ∀ i ∈ ignored, i.components ≠ p.components := by
    rw [Bool.and_eq_true, Bool.not_eq_true', List.any_eq_false]
    refine and_congr_right fun _ => forall₂_congr fun i _ => ?_
    rw [same_iff]
    exact ne_comm
  rw [changedTemplates, mem_map_dropRepeats fun _ _ h => h, List.mem_map]
  constructor
  · rintro ⟨q, hq, rfl⟩
    obtain ⟨p, hp, rfl⟩ := List.mem_map.1 (List.mem_mergeSort.1 hq)
    obtain ⟨hp, hkeep⟩ := List.mem_filter.1 hp
    obtain ⟨hmatch, hother⟩ := (hkept p).1 hkeep
    exact ⟨p, hp, hmatch, hother, components_relativeTo base p⟩
  · rintro ⟨p, hp, hmatch, hother, rfl⟩
    have hkeep := (hkept p).2 ⟨hmatch, hother⟩
    refine ⟨relativeTo base p, ?_, components_relativeTo base p⟩
    rw [List.mem_mergeSort]
    exact List.mem_map_of_mem (List.mem_filter.2 ⟨hp, hkeep⟩)

theorem mem_changedTemplates_of_subset (h : paths.map components ⊆ paths'.map components)
    {cs : List Component} (hcs : cs ∈ (changedTemplates paths base ext ignored).map components) :
    cs ∈ (changedTemplates paths' base ext ignored).map components := by
  obtain ⟨p, hp, hmatch, hother, rfl⟩ := mem_changedTemplates.1 hcs
  obtain ⟨p', hp', hsame⟩ := List.mem_map.1 (h (List.mem_map_of_mem hp))
  refine mem_changedTemplates.2 ⟨p', hp', ?_, ?_, ?_⟩
  · rw [matchesExtension_congr hsame, hmatch]
  · rwa [hsame]
  · rw [hsame]

/-- The changes that are told increase strictly in the order of paths, so none is told twice. They
are those of the paths with the extension that are none of the ignored ones, as seen from the base
where they lie there. So they depend on the set of the paths only, and not on how these are
spelled. -/
theorem changedTemplates_increasing_exact (paths : List FilePath) (base : FilePath) (ext : String)
    (ignored : List FilePath) :
    ((changedTemplates paths base ext ignored).map place).Pairwise (· < ·) ∧
    (∀ cs, cs ∈ (changedTemplates paths base ext ignored).map components ↔
      ∃ p ∈ paths, p.matchesExtension ext = true ∧
        (∀ i ∈ ignored, i.components ≠ p.components) ∧
        cs = componentsFrom base.components p.components) ∧
    ∀ paths' : List FilePath,
      (∀ cs, cs ∈ paths'.map components ↔ cs ∈ paths.map components) →
        (changedTemplates paths' base ext ignored).map components =
          (changedTemplates paths base ext ignored).map components := by
  refine ⟨increasing_changedTemplates, fun cs => mem_changedTemplates, fun paths' h => ?_⟩
  have hplaces (ps : List FilePath) :
      ps.map place = (ps.map components).map (List.map Component.place) :=
    (List.map_map ..).symm
  have hmem (cs : List Component) :
      cs ∈ (changedTemplates paths' base ext ignored).map components ↔
        cs ∈ (changedTemplates paths base ext ignored).map components :=
    ⟨mem_changedTemplates_of_subset fun cs => (h cs).1,
      mem_changedTemplates_of_subset fun cs => (h cs).2⟩
  -- lists that increase strictly are equal if they have the same members
  have hequal : (changedTemplates paths' base ext ignored).map place =
      (changedTemplates paths base ext ignored).map place := by
    apply increasing_changedTemplates.eq_of_mem_iff increasing_changedTemplates
    intro x
    rw [hplaces, hplaces, List.mem_map, List.mem_map]
    simp only [hmem]
  rw [hplaces, hplaces] at hequal
  have hinjective := List.map_injective_iff.2 Component.place_injective
  exact List.map_injective_iff.2 hinjective hequal

theorem changedTemplates_respelled :
    (∀ cs, cs ∈ [⟨"b.ect"⟩, ⟨"/site/./out.ect"⟩, ⟨"/site//b.ect"⟩, ⟨"b.ect"⟩].map components ↔
      cs ∈ [⟨"/site/b.ect"⟩, ⟨"b.ect"⟩, ⟨"/site/out.ect"⟩].map components) ∧
    (changedTemplates [⟨"b.ect"⟩, ⟨"/site/./out.ect"⟩, ⟨"/site//b.ect"⟩, ⟨"b.ect"⟩] ⟨"/site"⟩ "ect"
        [⟨"/site/out.ect"⟩]).map components =
      (changedTemplates [⟨"/site/b.ect"⟩, ⟨"b.ect"⟩, ⟨"/site/out.ect"⟩] ⟨"/site"⟩ "ect"
        [⟨"/site/out.ect"⟩]).map components := by
  have hsame : ∀ cs, cs ∈ [⟨"b.ect"⟩, ⟨"/site/./out.ect"⟩, ⟨"/site//b.ect"⟩, ⟨"b.ect"⟩].map
      components ↔ cs ∈ [⟨"/site/b.ect"⟩, ⟨"b.ect"⟩, ⟨"/site/out.ect"⟩].map components := by
    intro cs
    constructor <;> (revert cs; decide)
  exact ⟨hsame, (changedTemplates_increasing_exact _ _ _ _).2.2 _ hsame⟩

end TextTemplate
