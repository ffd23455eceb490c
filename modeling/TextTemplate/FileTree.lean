import TextTemplate.FilePath
import TextTemplate.Entries

/-! A tree of files in memory with a working directory. Paths are followed name by name, so that
`a/../b` needs a directory `a`, and a path that ends in a slash does not name a file. -/

namespace TextTemplate

inductive FileNode where
  | file (content : ByteArray)
  | directory (entries : List (String × FileNode))

instance : Inhabited FileNode := ⟨.directory []⟩

inductive FileFault where
  | notFound
  | alreadyExists
  | notDirectory
  | isDirectory
  | nameTooLong
  | nullInPath
  | notText
  deriving Repr, DecidableEq

def FileFault.message : FileFault → String
  | .notFound => "No such file or directory (os error 2)"
  | .alreadyExists => "File exists (os error 17)"
  | .notDirectory => "Not a directory (os error 20)"
  | .isDirectory => "Is a directory (os error 21)"
  | .nameTooLong => "File name too long (os error 36)"
  | .nullInPath => "file name contained an unexpected NUL byte"
  | .notText => "stream did not contain valid UTF-8"

namespace FileNode

def at? : List String → FileNode → Option FileNode
  | [], node => some node
  | name :: names, .directory entries => (Entries.find? name entries).bind (at? names)
  | _ :: _, .file _ => none

def put (new : FileNode) : List String → FileNode → FileNode
  | [], _ => new
  | name :: names, .directory entries =>
    let old := (Entries.find? name entries).getD (.directory [])
    .directory (Entries.insert name (put new names old) entries)
  | _ :: _, .file content => .file content

def erase : List String → FileNode → FileNode
  | [name], .directory entries => .directory (Entries.erase name entries)
  | name :: names, .directory entries =>
    match Entries.find? name entries with
    | some old => .directory (Entries.insert name (erase names old) entries)
    | none => .directory entries
  | _, node => node

mutual

def files : FileNode → List (List String × ByteArray)
  | .file content => [([], content)]
  | .directory entries => entryFiles entries

def entryFiles : List (String × FileNode) → List (List String × ByteArray)
  | [] => []
  | (name, node) :: entries =>
    node.files.map (fun f => (name :: f.1, f.2)) ++ entryFiles entries

end

end FileNode

structure FileTree where
  root : FileNode
  here : List String

namespace FileTree

def empty (here : List String) : FileTree :=
  ⟨FileNode.put (.directory []) here (.directory []), here⟩

def maxName : Nat := 255

def maxPath : Nat := 4095

def isDirectoryAt (t : FileTree) (names : List String) : Bool :=
  match t.root.at? names with
  | some (.directory _) => true
  | _ => false

def walk (t : FileTree) : List String → List FilePath.Component → Except FileFault (List String)
  | place, [] => .ok place
  | _, .root :: cs => t.walk [] cs
  | place, c :: cs =>
    if !t.isDirectoryAt place then .error .notDirectory
    else
      match c with
      | .root | .current => t.walk place cs
      | .parent => t.walk place.dropLast cs
      | .normal name =>
        if maxName < name.utf8ByteSize then .error .nameTooLong
        else if (t.root.at? (place ++ [name])).isNone then .error .notFound
        else t.walk (place ++ [name]) cs

def usable (p : FilePath) : Except FileFault Unit :=
  if p.text.toList.contains '\x00' then .error .nullInPath
  else if p.text.isEmpty then .error .notFound
  else if maxPath < p.text.utf8ByteSize then .error .nameTooLong
  else .ok ()

def locate (t : FileTree) (p : FilePath) : Except FileFault (List String) := do
  usable p
  let place ← t.walk t.here p.components
  if p.meansDirectory && !t.isDirectoryAt place then .error .notDirectory else .ok place

/-- Where a path that ends in a name would be made: the place of its parent, and the name. -/
def locateNew (t : FileTree) (p : FilePath) : Except FileFault (List String × String) := do
  let name := p.fileName?.getD ""
  let place ← t.walk t.here p.components.dropLast
  if !t.isDirectoryAt place then .error .notDirectory
  else if maxName < name.utf8ByteSize then .error .nameTooLong
  else .ok (place, name)

def fileExists (t : FileTree) (p : FilePath) : Bool :=
  (t.locate p).toOption.isSome

def isDirectory (t : FileTree) (p : FilePath) : Bool :=
  match t.locate p with
  | .ok place => t.isDirectoryAt place
  | .error _ => false

def isFile (t : FileTree) (p : FilePath) : Bool :=
  match t.locate p with
  | .ok place => !t.isDirectoryAt place
  | .error _ => false

def canonical (t : FileTree) (p : FilePath) : Except FileFault FilePath :=
  (t.locate p).map FilePath.ofNames

def read (t : FileTree) (p : FilePath) : Except FileFault String := do
  let place ← t.locate p
  match t.root.at? place with
  | some (.file content) =>
    match String.fromUTF8? content with
    | some text => .ok text
    | none => .error .notText
  | some (.directory _) => .error .isDirectory
  | none => .error .notFound

def write (t : FileTree) (p : FilePath) (content : ByteArray) : Except FileFault FileTree := do
  usable p
  if !p.endsInName then
    let place ← t.walk t.here p.components
    if t.isDirectoryAt place then .error .isDirectory else .error .notDirectory
  else
    let (place, name) ← t.locateNew p
    if p.endsInSlash || t.isDirectoryAt (place ++ [name]) then .error .isDirectory
    else .ok { t with root := FileNode.put (.file content) (place ++ [name]) t.root }

def makeDirectory (t : FileTree) (p : FilePath) : Except FileFault FileTree := do
  usable p
  if !p.endsInName then
    let place ← t.walk t.here p.components
    if t.isDirectoryAt place then .error .alreadyExists else .error .notDirectory
  else
    let (place, name) ← t.locateNew p
    if (t.root.at? (place ++ [name])).isSome then .error .alreadyExists
    else .ok { t with root := FileNode.put (.directory []) (place ++ [name]) t.root }

def makeDirectoriesAlong : List FilePath → FileTree → Except FileFault Unit × FileTree
  | [], t => (.ok (), t)
  | p :: ps, t =>
    if p.text.isEmpty then (.ok (), t)
    else
      match t.makeDirectory p with
      | .ok t => (.ok (), t)
      | .error .notFound =>
        match makeDirectoriesAlong ps t with
        -- what was made before a failure stays
        | (.error fault, t) => (.error fault, t)
        | (.ok (), t) =>
          match t.makeDirectory p with
          | .ok t => (.ok (), t)
          | .error fault => (if t.isDirectory p then .ok () else .error fault, t)
      | .error fault => (if t.isDirectory p then .ok () else .error fault, t)

def makeDirectories (t : FileTree) (p : FilePath) : Except FileFault Unit × FileTree :=
  makeDirectoriesAlong p.ancestors t

def writeDeep (t : FileTree) (p : FilePath) (content : ByteArray) :
    Except FileFault Unit × FileTree :=
  let (made, t) := t.makeDirectories (p.parent?.getD ⟨""⟩)
  match made with
  | .error fault => (.error fault, t)
  | .ok () =>
    match t.write p content with
    | .ok t => (.ok (), t)
    | .error fault => (.error fault, t)

def delete (t : FileTree) (p : FilePath) : Except FileFault FileTree := do
  let place ← t.locate p
  if t.isDirectoryAt place then .error .isDirectory
  else .ok { t with root := t.root.erase place }

def files (t : FileTree) : List (List String × ByteArray) :=
  match t.root.at? t.here with
  | some node => node.files
  | none => []

end FileTree
end TextTemplate
