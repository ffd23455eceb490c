import TextTemplate.Error
import TextTemplate.FileTree

/-! Where template sources come from: a store in memory, or a directory of files. -/

namespace TextTemplate

structure Resource where
  path : String
  source : String
  deriving Repr, DecidableEq

structure TemplateStore where
  templates : List (String × String)
  deriving Repr, DecidableEq

namespace TemplateStore

def empty : TemplateStore := ⟨[]⟩

def canonical (name : String) : String :=
  if name.toList.head? = some '/' then name else "/" ++ name

def isNameChar (c : Char) : Bool :=
  c.isAlphanum || c == '_' || c == '-'

/-- Whether characters go on as names with single dots and slashes between them; `inName` says
whether a character of a name comes before. -/
def isNameList (inName : Bool) : List Char → Bool
  | [] => inName
  | c :: cs =>
    if isNameChar c then isNameList true cs
    else inName && (c == '.' || c == '/') && isNameList false cs

def isKey (s : String) : Bool :=
  match s.toList with
  | '/' :: cs => isNameList false cs
  | _ => false

def add (name source : String) (s : TemplateStore) : Except Error TemplateStore :=
  let key := canonical name
  if isKey key then .ok ⟨Entries.insert key source s.templates⟩
  else .error (.resolution (.invalidName name))

def remove (name : String) (s : TemplateStore) : TemplateStore :=
  ⟨Entries.erase (canonical name) s.templates⟩

def resolve (name : String) (s : TemplateStore) : Except Error Resource :=
  let key := canonical name
  match Entries.find? key s.templates with
  | some source => .ok ⟨key, source⟩
  | none => .error (.templateNotFound key)

end TemplateStore

structure TemplateDirectory where
  root : FilePath
  ext : String := ""
  deriving Repr, DecidableEq

namespace TemplateDirectory

def withExtension (ext name : String) : String :=
  if ext.toList.isSuffixOf name.toList then name else name ++ ext

def filePath (d : TemplateDirectory) (name : String) : Except Error FilePath :=
  if name.isEmpty then .error (.resolution .emptyName)
  else .ok (d.root.join ⟨withExtension d.ext name⟩)

def resolve (d : TemplateDirectory) (files : FileTree) (name : String) : Except Error Resource := do
  let path ← d.filePath name
  if !files.isFile path then .error (.templateNotFound path.slashText)
  else
    match files.read path with
    | .ok source => .ok ⟨path.slashText, source⟩
    | .error fault => .error (.resolution (.unreadable path.text fault.message))

end TemplateDirectory

inductive Library where
  | store (templates : TemplateStore)
  | directory (directory : TemplateDirectory) (files : FileTree)

namespace Library

def resolve (name : String) : Library → Except Error Resource
  | .store templates => templates.resolve name
  | .directory d files => d.resolve files name

def resolvedPath (name : String) : Library → Except Error String
  | .store _ => .ok (TemplateStore.canonical name)
  | .directory d _ => (d.filePath name).map FilePath.slashText

def mapStore (f : TemplateStore → TemplateStore) : Library → Library
  | .store templates => .store (f templates)
  | l => l

def mapFiles (f : FileTree → FileTree) : Library → Library
  | .directory d files => .directory d (f files)
  | l => l

end Library
end TextTemplate
