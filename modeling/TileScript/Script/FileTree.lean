import TileScript.Script.Directory

/-! # File trees

A directory with all that lies below it, as one value. Paths are taken from its root; what lies
outside is a directory in which nothing is found. Names and paths have a greatest length.
-/

namespace TileScript

/-- A directory, or a file with its text; a file that is not text has none. -/
inductive FileNode where
  | directory
  | file (text : Option String)
  deriving DecidableEq, Repr

/-- Files and directories by the names on their paths. -/
structure FileTree where
  nodes : List (List String × FileNode) := []
  deriving DecidableEq, Repr

/-- A place that a path leads to. -/
inductive FileTree.Place where
  /-- A directory that contains the tree. -/
  | outside
  | inside (path : List String)
  deriving DecidableEq, Repr

namespace FileTree

/-- The names on a path, with empty ones where slashes meet or end it. -/
def components (path : String) : List String := (path.toList.splitOn '/').map String.ofList

/-- The bytes of the longest name. -/
def nameLimit : Nat := 255

/-- The bytes of the longest path. -/
def pathLimit : Nat := 4095

def node? (t : FileTree) (path : List String) : Option FileNode :=
  if path.isEmpty then some .directory else t.nodes.lookup path

/-- One name further on a path. A name that stands for no step still needs a directory. -/
def follow (t : FileTree) (p : Place) (name : String) : Except ReadError Place :=
  match p with
  | .outside =>
    if name = "" ∨ name = "." ∨ name = ".." then .ok .outside
    else if nameLimit < name.utf8ByteSize then .error .nameTooLong
    else .error .notFound
  | .inside path =>
    match t.node? path with
    | some .directory =>
      if name = "" ∨ name = "." then .ok p
      else if name = ".." then .ok (if path.isEmpty then .outside else .inside path.dropLast)
      else if nameLimit < name.utf8ByteSize then .error .nameTooLong
      else if (t.node? (path ++ [name])).isSome then .ok (.inside (path ++ [name]))
      else .error .notFound
    | some (.file _) => .error .notADirectory
    | none => .error .notFound

/-- The place a path leads to. -/
def resolve (t : FileTree) (path : String) : Except ReadError Place :=
  if path = "" then .error .notFound
  else if pathLimit < path.utf8ByteSize then .error .nameTooLong
  else
    match components path with
    | "" :: names => names.foldlM t.follow .outside
    | names => names.foldlM t.follow (.inside [])

def read (t : FileTree) (path : String) : Except ReadError String := do
  match ← t.resolve path with
  | .outside => .error .isDirectory
  | .inside p =>
    match t.node? p with
    | some (.file (some text)) => .ok text
    | some (.file none) => .error .notText
    | some .directory => .error .isDirectory
    | none => .error .notFound

/-- The last name of a path directly below another one. -/
def childName? (parent path : List String) : Option String :=
  match parent.isPrefixOf? path with
  | some [name] => some name
  | _ => none

def list? (t : FileTree) (path : String) : Option (List String) :=
  match t.resolve path with
  | .ok .outside => some []
  | .ok (.inside p) =>
    match t.node? p with
    | some .directory => some (t.nodes.filterMap fun (q, _) => childName? p q)
    | _ => none
  | .error _ => none

def files (t : FileTree) : Files := ⟨t.read, t.list?⟩

/-- Adds or replaces a node. -/
def set (t : FileTree) (path : List String) (n : FileNode) : FileTree :=
  ⟨(path, n) :: t.nodes.filter (·.1 != path)⟩

/-- Goes along names from a directory, and makes the directories that are missing. -/
def enter (t : FileTree) (dir : List String) : List String → FileTree × List String
  | [] => (t, dir)
  | name :: names =>
    if name = "" ∨ name = "." then t.enter dir names
    else if name = ".." then t.enter dir.dropLast names
    else
      let dir := dir ++ [name]
      (if (t.node? dir).isSome then t else t.set dir .directory).enter dir names

/-- Adds a node with the directories on the way to it. -/
def add (t : FileTree) (path : String) (n : FileNode) : FileTree :=
  let names := components path
  let (t, dir) := t.enter [] names.dropLast
  match n, names.getLast? with
  | .directory, some name => (t.enter dir [name]).1
  | .file _, some name => t.set (dir ++ [name]) n
  | _, none => t

/-- Writes a file into a directory that exists. Yields nothing if that cannot be done. -/
def write? (t : FileTree) (path text : String) : Option FileTree :=
  let names := components path
  match (names.dropLast.foldlM t.follow (.inside [])).toOption, names.getLast? with
  | some (.inside dir), some name =>
    if name = "" ∨ name = "." ∨ name = ".." then none
    else if nameLimit < name.utf8ByteSize ∨ pathLimit < path.utf8ByteSize then none
    else if t.node? dir = some .directory ∧ t.node? (dir ++ [name]) ≠ some .directory then
      some (t.set (dir ++ [name]) (.file (some text)))
    else none
  | _, _ => none

/-- Removes a file. Yields nothing if there is none. -/
def remove? (t : FileTree) (path : String) : Option FileTree :=
  match t.resolve path with
  | .ok (.inside p) =>
    match t.node? p with
    | some (.file _) => some ⟨t.nodes.filter (·.1 != p)⟩
    | _ => none
  | _ => none

end FileTree

end TileScript
