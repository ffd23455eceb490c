import TextTemplate.Engine
import TextTemplate.Proofs.Project.Changes

/-! Whether a change of a template's file is told. Templates are loaded from files whose names end
in the extension as a text; changes are judged by what follows the last dot of a file name. The two
agree where the extension has no dot of its own and something stands before it in the file name. -/

namespace TextTemplate

namespace FilePath

theorem exists_last {c : Char} {cs : List Char} (h : c ∈ cs) :
    ∃ before after, cs = before ++ c :: after ∧ c ∉ after := by
  obtain ⟨after, before, hcs, hafter⟩ := List.eq_append_cons_of_mem (List.mem_reverse.2 h)
  refine ⟨before.reverse, after.reverse, ?_, mt List.mem_reverse.1 hafter⟩
  rw [← List.reverse_reverse cs, hcs, List.reverse_append, List.reverse_cons, List.append_assoc,
    List.singleton_append]

theorem forall_ne_dot {cs : List Char} (h : '.' ∉ cs) :
    ∀ c ∈ cs.reverse, decide (c ≠ '.') = true := by
  intro c hc
  rw [decide_eq_true_iff]
  rintro rfl
  exact h (List.mem_reverse.1 hc)

theorem extensionOf_of_last_dot {name : String} {stem after : List Char}
    (hname : name.toList = stem ++ '.' :: after) (hafter : '.' ∉ after) :
    extensionOf name = if stem = [] then none else some (String.ofList after) := by
  have hscan : name.toList.reverse.takeWhile (· ≠ '.') = after.reverse := by
    rw [hname, List.reverse_append, List.reverse_cons, List.append_assoc,
      List.takeWhile_append_of_pos (forall_ne_dot hafter)]
    simp
  have hlength : after.reverse.length + 1 < name.toList.length ↔ stem ≠ [] := by
    rw [hname, List.length_reverse, List.length_append, List.length_cons, ← List.length_pos_iff]
    omega
  rw [extensionOf, hscan, List.reverse_reverse]
  simp only [hlength, ite_not]

theorem extensionOf_eq_some_iff {name ext : String} :
    extensionOf name = some ext ↔
      ∃ stem, stem ≠ [] ∧ name.toList = stem ++ '.' :: ext.toList ∧ '.' ∉ ext.toList := by
  constructor
  · intro h
    by_cases hdot : '.' ∈ name.toList
    · obtain ⟨stem, after, hname, hafter⟩ := exists_last hdot
      rw [extensionOf_of_last_dot hname hafter] at h
      split at h
      · cases h
      · rename_i hstem
        obtain rfl := Option.some.inj h
        rw [String.toList_ofList]
        exact ⟨stem, hstem, hname, hafter⟩
    · have hall : name.toList.reverse.takeWhile (· ≠ '.') = name.toList.reverse :=
        List.takeWhile_eq_self_iff.2 (forall_ne_dot hdot)
      rw [extensionOf, hall] at h
      simp at h
  · rintro ⟨stem, hstem, hname, hdot⟩
    rw [extensionOf_of_last_dot hname hdot, if_neg hstem, String.ofList_toList]

def EndsPart (cs : List Char) : Prop :=
  cs = [] ∨ ∃ ds, cs = ds ++ ['/']

theorem EndsPart.append {cs ds : List Char} (hcs : EndsPart cs) (hds : EndsPart ds) :
    EndsPart (cs ++ ds) := by
  rcases hds with rfl | ⟨es, rfl⟩
  · rwa [List.append_nil]
  · exact .inr ⟨cs ++ es, (List.append_assoc ..).symm⟩

theorem exists_behind_slash (cs : List Char) :
    ∃ dir part, cs = dir ++ part ∧ '/' ∉ part ∧ EndsPart dir := by
  by_cases h : '/' ∈ cs
  · obtain ⟨before, part, hcs, hpart⟩ := exists_last h
    exact ⟨before ++ ['/'], part, by simp [hcs], hpart, .inr ⟨before, rfl⟩⟩
  · exact ⟨[], cs, rfl, h, .inl rfl⟩

variable {p : FilePath} {ext : String}

theorem fileName?_of_text {dir part : List Char} (htext : p.text.toList = dir ++ part)
    (hdir : EndsPart dir) (hpart : '/' ∉ part) {name : String}
    (hname : component? part = some (.normal name)) : p.fileName? = some name := by
  have hparts : ∃ before, splitSlashes p.text.toList = before ++ [part] := by
    rw [htext]
    rcases hdir with rfl | ⟨ds, rfl⟩
    · refine ⟨[], ?_⟩
      rw [splitSlashes_eq_splitOn]
      exact List.splitOn_eq_singleton hpart
    · refine ⟨splitSlashes ds, ?_⟩
      rw [splitSlashes_eq_splitOn, splitSlashes_eq_splitOn, List.append_assoc,
        List.singleton_append, List.splitOn_append_cons_self, List.splitOn_eq_singleton hpart]
  obtain ⟨before, hparts⟩ := hparts
  have hlast : p.components.getLast? = some (.normal name) := by
    rw [components_eq_spelled, hparts, spelled, List.filterMap_append]
    simp [hname]
  rw [fileName?, hlast]

theorem slash_notMem_fileName {name : String} (h : p.fileName? = some name) :
    '/' ∉ name.toList := by
  have hmem : .normal name ∈ p.components := by
    unfold fileName? at h
    split at h
    · rename_i hlast
      obtain rfl := Option.some.inj h
      exact List.mem_of_getLast? hlast
    · cases h
  rw [components_eq_spelled, spelled, List.mem_append, List.mem_filterMap] at hmem
  rcases hmem with hleading | ⟨part, hpart, hname⟩
  · unfold leading at hleading
    split at hleading <;> simp at hleading
  · have hslash := slash_notMem_of_mem_splitSlashes hpart
    unfold component? at hname
    split at hname
    · cases hname
    · split at hname
      · cases hname
      · obtain rfl := Component.normal.inj (Option.some.inj hname)
        rwa [String.toList_ofList]

theorem matchesExtension_iff (hext : ext ≠ "") :
    p.matchesExtension ext = true ↔
      ∃ name, p.fileName? = some name ∧ extensionOf name = some ext := by
  have hempty : ext.isEmpty = false := by simpa using hext
  rw [matchesExtension, hempty, extension?, if_neg Bool.false_ne_true, beq_iff_eq,
    Option.bind_eq_some_iff]

theorem join_text (p q : FilePath) :
    ∃ dir, (p.join q).text.toList = dir ++ q.text.toList ∧ EndsPart dir := by
  unfold join
  split
  · exact ⟨[], rfl, .inl rfl⟩
  · split
    · rename_i h
      refine ⟨p.text.toList, String.toList_append, ?_⟩
      rw [Bool.or_eq_true, endsInSlash, beq_iff_eq] at h
      rcases h with h | h
      · exact .inl (by simpa using h)
      · exact .inr (List.getLast?_eq_some_iff.1 h)
    · refine ⟨p.text.toList ++ ['/'], ?_, .inr ⟨_, rfl⟩⟩
      simp

theorem component?_of_extension {part after : List Char} (hne : after ≠ []) (hdot : '.' ∉ after) :
    component? (part ++ '.' :: after) = some (.normal (String.ofList (part ++ '.' :: after))) := by
  have hplain : ∀ cs : List Char, (∀ c ∈ cs, c = '.') → part ++ '.' :: after ≠ cs := by
    rintro cs hcs rfl
    obtain ⟨c, hc⟩ := List.exists_mem_of_ne_nil after hne
    obtain rfl := hcs c (by simp [hc])
    exact hdot hc
  rw [component?, isTrivial, beq_eq_false_iff_ne.2 (hplain [] (by simp)),
    beq_eq_false_iff_ne.2 (hplain ['.'] (by simp)), if_neg (hplain ['.', '.'] (by simp))]
  rfl

/-- A file name that is the extension only: nothing else stands behind the last slash. -/
def IsBareExtension (ext name : String) : Prop :=
  name = "." ++ ext ∨ ['/'] ++ '.' :: ext.toList <:+ name.toList

instance (ext name : String) : Decidable (IsBareExtension ext name) :=
  inferInstanceAs (Decidable (_ ∨ _))

theorem isBareExtension_iff {name : String} {dir part : List Char}
    (hname : name.toList = dir ++ part ++ '.' :: ext.toList) (hdir : EndsPart dir)
    (hpart : '/' ∉ part) :
    IsBareExtension ext name ↔ part = [] := by
  have hequal : name = "." ++ ext ↔ dir ++ part = [] := by
    rw [← String.toList_inj, hname, String.toList_append]
    exact List.append_left_eq_self
  rw [IsBareExtension, hequal, hname, List.suffix_append_self_iff,
    List.singleton_suffix_iff_getLast?_eq_some]
  constructor
  · rintro (hnil | hlast)
    · exact (List.append_eq_nil_iff.1 hnil).2
    · by_contra hne
      rw [List.getLast?_append_of_ne_nil dir hne] at hlast
      exact hpart (List.mem_of_getLast? hlast)
  · rintro rfl
    rcases hdir with rfl | ⟨ds, rfl⟩
    · exact .inl rfl
    · exact .inr (by simp)

theorem matchesExtension_join_iff (hext : ext ≠ "") {name : String}
    (hname : '.' :: ext.toList <:+ name.toList) :
    (p.join ⟨name⟩).matchesExtension ext = true ↔
      '.' ∉ ext.toList ∧ '/' ∉ ext.toList ∧ ¬ IsBareExtension ext name := by
  rw [matchesExtension_iff hext]
  by_cases hdot : '.' ∈ ext.toList
  · -- an extension never has a dot
    simp [extensionOf_eq_some_iff, hdot]
  by_cases hslash : '/' ∈ ext.toList
  · -- nor has a file name a slash
    refine iff_of_false ?_ fun h => h.2.1 hslash
    rintro ⟨file, hfile, hfileExt⟩
    obtain ⟨stem, -, hstem, -⟩ := extensionOf_eq_some_iff.1 hfileExt
    refine slash_notMem_fileName hfile ?_
    simp [hstem, hslash]
  obtain ⟨stem, hstem⟩ := hname
  obtain ⟨dir, part, rfl, hpart, hdir⟩ := exists_behind_slash stem
  obtain ⟨dir', htext, hdir'⟩ := join_text p ⟨name⟩
  have hfileText : (p.join ⟨name⟩).text.toList = dir' ++ dir ++ (part ++ '.' :: ext.toList) := by
    rw [htext, List.append_assoc, ← List.append_assoc dir, hstem]
  have hfile : (p.join ⟨name⟩).fileName? = some (String.ofList (part ++ '.' :: ext.toList)) := by
    apply fileName?_of_text hfileText
    · exact hdir'.append hdir
    · simp [hpart, hslash]
    · exact component?_of_extension (by simpa using hext) hdot
  rw [isBareExtension_iff hstem.symm hdir hpart, hfile]
  simp only [Option.some.injEq, exists_eq_left']
  rw [extensionOf_of_last_dot String.toList_ofList hdot, String.ofList_toList]
  simp [hdot, hslash]

end FilePath

namespace TemplateDirectory

variable {ext name : String}

theorem suffix_withExtension (ext name : String) :
    ext.toList <:+ (withExtension ext name).toList := by
  unfold withExtension
  split
  · rwa [← List.isSuffixOf_iff_suffix]
  · rw [String.toList_append]
    exact List.suffix_append _ _

theorem withExtension_of_suffix (h : ext.toList <:+ name.toList) :
    withExtension ext name = name := by
  rw [withExtension, if_pos (List.isSuffixOf_iff_suffix.2 h)]

theorem isBareExtension_withExtension (hname : name ≠ "")
    (hslash : name.toList.getLast? ≠ some '/') :
    FilePath.IsBareExtension ext (withExtension ("." ++ ext) name) ↔
      FilePath.IsBareExtension ext name := by
  by_cases hsuffix : '.' :: ext.toList <:+ name.toList
  · rw [withExtension_of_suffix (by simpa using hsuffix)]
  have hfile : (withExtension ("." ++ ext) name).toList = name.toList ++ '.' :: ext.toList := by
    have hfalse : ¬ ("." ++ ext).toList.isSuffixOf name.toList = true := by simpa using hsuffix
    rw [withExtension, if_neg hfalse, String.toList_append, String.toList_append]
    rfl
  refine iff_of_false ?_ ?_
  · rintro (hbare | hbare)
    · rw [← String.toList_inj, hfile, String.toList_append] at hbare
      exact hname (String.toList_eq_nil_iff.1 (List.append_left_eq_self.1 hbare))
    · rw [hfile, List.suffix_append_self_iff] at hbare
      exact hslash (List.singleton_suffix_iff_getLast?_eq_some.1 hbare)
  · rintro (rfl | hbare)
    · exact hsuffix (by simp)
    · exact hsuffix ((List.suffix_append _ _).trans hbare)

theorem filePath_eq_ok (d : TemplateDirectory) (hname : name ≠ "") :
    d.filePath name = .ok (d.root.join ⟨withExtension d.ext name⟩) := by
  rw [filePath, if_neg (by simpa using hname)]

theorem read_of_resolve {d : TemplateDirectory} {files : FileTree} {path : FilePath} {r : Resource}
    (hpath : d.filePath name = .ok path) (h : d.resolve files name = .ok r) :
    files.read path = .ok r.source := by
  rw [resolve, hpath] at h
  dsimp only [bind, Except.bind] at h
  split at h
  · cases h
  · split at h
    · rename_i source hread
      obtain rfl := Except.ok.inj h
      exact hread
    · cases h

end TemplateDirectory

namespace Engine

open TemplateDirectory

/-- The file that an engine loads for a template is one of which changes are told exactly if the
extension has no dot and no slash of its own and the template's name is not the extension only. Each
change of it is then told unless it is ignored. -/
theorem matchesExtension_filePath {e : Engine} {d : TemplateDirectory} {files : FileTree}
    {ext name : String} (hlibrary : e.library = .directory d files)
    (hoption : e.options.ext = "." ++ ext) (hdirectory : d.ext.toList <:+ e.options.ext.toList)
    (hext : ext ≠ "") (hname : name ≠ "") (hslash : name.toList.getLast? ≠ some '/') :
    ∃ path, d.filePath (e.templateName name) = .ok path ∧
      (∀ r, e.library.resolve (e.templateName name) = .ok r → files.read path = .ok r.source) ∧
      (path.matchesExtension ext = true ↔
        '.' ∉ ext.toList ∧ '/' ∉ ext.toList ∧ ¬ FilePath.IsBareExtension ext name) ∧
      (path.matchesExtension ext = true → ∀ (events : List FilePath) (base : FilePath)
        (ignored : List FilePath), path.components ∈ events.map FilePath.components →
          path.components ∉ ignored.map FilePath.components →
            FilePath.componentsFrom base.components path.components ∈
              (changedTemplates events base ext ignored).map FilePath.components) := by
  have hfileExt : withExtension d.ext (e.templateName name) = e.templateName name :=
    withExtension_of_suffix (hdirectory.trans (suffix_withExtension ..))
  have hsuffix : '.' :: ext.toList <:+ (e.templateName name).toList := by
    rw [templateName, hoption]
    simpa using suffix_withExtension ("." ++ ext) name
  have hne : e.templateName name ≠ "" := by
    intro hnil
    simp [hnil] at hsuffix
  have hpath : d.filePath (e.templateName name) = .ok (d.root.join ⟨e.templateName name⟩) := by
    rw [d.filePath_eq_ok hne, hfileExt]
  refine ⟨_, hpath, ?_, ?_, ?_⟩
  · intro r hr
    rw [hlibrary] at hr
    exact read_of_resolve hpath hr
  · rw [FilePath.matchesExtension_join_iff hext hsuffix, templateName, hoption,
      isBareExtension_withExtension hname hslash]
  · intro hmatch events base ignored hevents hignored
    obtain ⟨p, hp, hsame⟩ := List.mem_map.1 hevents
    refine mem_changedTemplates.2 ⟨p, hp, ?_, ?_, ?_⟩
    · rwa [FilePath.matchesExtension_congr hsame]
    · intro i hi heq
      exact hignored (List.mem_map.2 ⟨i, hi, heq.trans hsame⟩)
    · rw [hsame]

theorem matchesExtension_filePath_page :
    let d : TemplateDirectory := { root := ⟨"templates"⟩ }
    let files : FileTree := ⟨.directory [("templates", .directory [
      ("pages", .directory [("index.ect", .file "a".toUTF8)])])], []⟩
    ∃ e path, Engine.ofOptions? (.directory d files) { ext := ".ect" } = .ok e ∧
      d.filePath (e.templateName "pages/index") = .ok path ∧
      files.read path = .ok "a" ∧
      path.matchesExtension "ect" = true ∧
      FilePath.componentsFrom [.normal "templates"] path.components ∈
        (changedTemplates [path] ⟨"templates"⟩ "ect" []).map FilePath.components := by
  intro d files
  let e : Engine := ⟨.directory d files, .ofCapacity 256, { ext := ".ect" }, .default⟩
  have hoption : e.options.ext = "." ++ "ect" := rfl
  have hslash : "pages/index".toList.getLast? ≠ some '/' := by decide
  obtain ⟨path, hpath, hread, hmatch, htold⟩ := matchesExtension_filePath (e := e) (d := d) rfl
    hoption List.nil_suffix (by decide) (by decide) hslash
  have hresolve : e.library.resolve (e.templateName "pages/index") =
      .ok ⟨"templates/pages/index.ect", "a"⟩ := by
    decide +kernel
  have hpage := hmatch.2 (by decide)
  have hchange := htold hpage [path] ⟨"templates"⟩ [] (by simp) (by simp)
  exact ⟨e, path, rfl, hpath, hread _ hresolve, hpage, hchange⟩

/-- No change of a template is told if the extension has a dot of its own. -/
theorem dotted_extension_not_told :
    let d : TemplateDirectory := { root := ⟨"."⟩ }
    let files : FileTree := ⟨.directory [("page.html.ect", .file "a".toUTF8)], []⟩
    ∃ e path, Engine.ofOptions? (.directory d files) { ext := ".html.ect" } = .ok e ∧
      d.filePath (e.templateName "page") = .ok path ∧
      files.read path = .ok "a" ∧
      path.matchesExtension "html.ect" = false ∧
      changedTemplates [path] ⟨"."⟩ "html.ect" [] = [] := by
  refine ⟨_, ⟨"./page.html.ect"⟩, rfl, ?_, ?_, ?_, ?_⟩
  all_goals decide +kernel

end Engine

end TextTemplate
