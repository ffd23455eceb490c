/-! Paths of files: names with `/` between them. Paths are compared by their components, which
empty names and most `.` names are not, but each keeps the text it was written with. -/

namespace TextTemplate

structure FilePath where
  text : String
  deriving Repr, DecidableEq

namespace FilePath

inductive Component where
  | root
  | current
  | parent
  | normal (name : String)
  deriving Repr, DecidableEq

namespace Component

def rank : Component → Nat
  | .root => 0
  | .current => 1
  | .parent => 2
  | .normal _ => 3

def lt (a b : Component) : Bool :=
  match a, b with
  | .normal x, .normal y => decide (x < y)
  | a, b => decide (a.rank < b.rank)

def listLe : List Component → List Component → Bool
  | [], _ => true
  | _ :: _, [] => false
  | a :: as, b :: bs => a.lt b || (a == b && listLe as bs)

end Component

def splitSlashes : List Char → List (List Char)
  | [] => [[]]
  | c :: cs =>
    if c = '/' then [] :: splitSlashes cs
    else
      match splitSlashes cs with
      | [] => [[c]]
      | part :: parts => (c :: part) :: parts

def joinSlashes : List (List Char) → List Char
  | [] => []
  | [part] => part
  | part :: parts => part ++ '/' :: joinSlashes parts

def isTrivial (part : List Char) : Bool :=
  part == [] || part == ['.']

def component? (part : List Char) : Option Component :=
  if isTrivial part then none
  else if part = ['.', '.'] then some .parent
  else some (.normal (String.ofList part))

/-- The start of a path as text and as a component, if it has one of its own, and the parts between
slashes after it. -/
def split (p : FilePath) : List Char × Option Component × List (List Char) :=
  match p.text.toList with
  | '/' :: cs => (['/'], some .root, splitSlashes cs)
  | ['.'] => (['.'], some .current, [[]])
  | '.' :: '/' :: cs => (['.'], some .current, [] :: splitSlashes cs)
  | cs => ([], none, splitSlashes cs)

def components (p : FilePath) : List Component :=
  let (_, first, parts) := p.split
  first.toList ++ parts.filterMap component?

def isAbsolute (p : FilePath) : Bool :=
  p.text.toList.head? == some '/'

def fileName? (p : FilePath) : Option String :=
  match p.components.getLast? with
  | some (.normal name) => some name
  | _ => none

/-- What follows the last dot of a name, unless that is its first character. -/
def extensionOf (name : String) : Option String :=
  let cs := name.toList
  let after := cs.reverse.takeWhile (· ≠ '.')
  if after.length + 1 < cs.length then some (String.ofList after.reverse) else none

def extension? (p : FilePath) : Option String :=
  p.fileName?.bind extensionOf

def trimRight (parts : List (List Char)) : List (List Char) :=
  (parts.reverse.dropWhile isTrivial).reverse

def parent? (p : FilePath) : Option FilePath :=
  let (start, first, parts) := p.split
  match trimRight parts with
  | [] =>
    match first with
    | some .current => some ⟨""⟩
    | _ => none
  | part :: rest =>
    some ⟨String.ofList (start ++ joinSlashes (trimRight (part :: rest).dropLast))⟩

def endsInSlash (p : FilePath) : Bool :=
  p.text.toList.getLast? == some '/'

def join (p q : FilePath) : FilePath :=
  if q.isAbsolute then q
  else if p.text.isEmpty || p.endsInSlash then ⟨p.text ++ q.text⟩
  else ⟨p.text ++ "/" ++ q.text⟩

def dropComponents : Nat → List (List Char) → List (List Char)
  | 0, parts => parts
  | _ + 1, [] => []
  | n + 1, part :: parts =>
    if isTrivial part then dropComponents (n + 1) parts else dropComponents n parts

def stripPrefix? (base p : FilePath) : Option FilePath :=
  if base.components.isPrefixOf p.components then
    let (start, first, parts) := p.split
    match base.components.length with
    | 0 => some ⟨String.ofList (start ++ joinSlashes (trimRight parts))⟩
    | n + 1 =>
      let left := dropComponents (if first.isSome then n else n + 1) parts
      some ⟨String.ofList (joinSlashes (trimRight (left.dropWhile isTrivial)))⟩
  else none

/-- Whether the path ends in a slash or a `.` after one, so that only a directory can be meant. -/
def meansDirectory (p : FilePath) : Bool :=
  match p.text.toList.reverse with
  | '/' :: _ => true
  | '.' :: '/' :: _ => true
  | _ => false

def endsInName (p : FilePath) : Bool :=
  match ((splitSlashes p.text.toList).filter (· ≠ [])).getLast? with
  | some part => part ≠ ['.'] && part ≠ ['.', '.']
  | none => false

def ancestorsUpTo : Nat → FilePath → List FilePath
  | 0, _ => []
  | n + 1, p => p :: (p.parent?.map (ancestorsUpTo n)).getD []

def ancestors (p : FilePath) : List FilePath :=
  ancestorsUpTo (p.components.length + 1) p

def slashText (p : FilePath) : String :=
  String.ofList (p.text.toList.map fun c => if c = '\\' then '/' else c)

def ofNames (names : List String) : FilePath :=
  ⟨"/" ++ "/".intercalate names⟩

end FilePath
end TextTemplate
