import TextTemplate.FileTree

/-! Which templates of a project have changed, judging by the paths of changed files. -/

namespace TextTemplate

namespace FilePath

def matchesExtension (p : FilePath) (ext : String) : Bool :=
  if ext.isEmpty then p.fileName?.isSome else p.extension? == some ext

def same (p q : FilePath) : Bool :=
  p.components == q.components

def le (p q : FilePath) : Bool :=
  Component.listLe p.components q.components

def dropRepeats : List FilePath → List FilePath
  | [] => []
  | p :: ps =>
    match dropRepeats ps with
    | [] => [p]
    | q :: qs => if p.same q then p :: qs else p :: q :: qs

def relativeTo (base p : FilePath) : FilePath :=
  (stripPrefix? base p).getD p

end FilePath

/-- The changed files that have the extension and are not ignored, as seen from `base` where they
lie there, in order and each once. -/
def changedTemplates (paths : List FilePath) (base : FilePath) (ext : String)
    (ignored : List FilePath) : List FilePath :=
  let kept := paths.filter fun p => p.matchesExtension ext && !ignored.any p.same
  FilePath.dropRepeats ((kept.map (FilePath.relativeTo base)).mergeSort FilePath.le)

def FileTree.absolute (t : FileTree) (p : FilePath) : FilePath :=
  match t.canonical p with
  | .ok q => q
  | .error _ =>
    let byParent : Option FilePath := do
      let parent ← p.parent?
      let name ← p.fileName?
      let place ← (t.canonical (if parent.text.isEmpty then ⟨"."⟩ else parent)).toOption
      pure (place.join ⟨name⟩)
    byParent.getD ((FilePath.ofNames t.here).join p)

end TextTemplate
