import GaussianRadial.Files

/-!
# A store of files

Files and directories as a value. A name is resolved from the working directory, or from the root if
it starts with a slash, and every directory on the way has to exist.
-/

namespace GaussianRadial

/-- The names from the root down to a file or directory. -/
abbrev Path := List String

/-- A sink takes any text and has no contents. -/
inductive FileNode where
  | file (content : String)
  | directory
  | sink
  deriving DecidableEq

/-- A working directory, and the files and directories besides those that lead to it. -/
structure FileStore where
  working : Path
  nodes : List (Path × FileNode)

namespace FileStore

/-- The files that a run finds in an empty working directory. -/
def empty : FileStore :=
  ⟨["tmp", "work"], [(["dev"], .directory), (["dev", "null"], .sink)]⟩

/-- What is at a path. -/
def node? (store : FileStore) (path : Path) : Option FileNode :=
  if path.isPrefixOf store.working then some .directory
  else (store.nodes.find? fun entry => entry.1 == path).map Prod.snd

def isDirectory (store : FileStore) (path : Path) : Bool := store.node? path == some .directory

/-- Without the file or directory at a path and all below it. -/
def erase (store : FileStore) (path : Path) : FileStore :=
  { store with nodes := store.nodes.filter fun entry => !path.isPrefixOf entry.1 }

def put (store : FileStore) (path : Path) (node : FileNode) : FileStore :=
  { store with nodes := (path, node) :: store.nodes.filter fun entry => entry.1 != path }

/-- The number of bytes that the name of a file has at most. -/
def maxNameBytes : Nat := 255

/-- The number of bytes that names with the slashes between them have at most. -/
def maxPathBytes : Nat := 4095

/--
The path that names lead to from a path, through directories that exist. Above the root is the root.
-/
def walk (store : FileStore) (path : Path) : List String → Option Path
  | [] => some path
  | name :: names =>
    if !store.isDirectory path then none
    else if name = "" ∨ name = "." then walk store path names
    else if name = ".." then walk store path.dropLast names
    else if maxNameBytes < name.utf8ByteSize then none
    else walk store (path ++ [name]) names

/-- The names between the slashes of a text, the first of which starts with `name` in reverse. -/
def namesFrom (name : List Char) : List Char → List String
  | [] => [String.ofList name.reverse]
  | c :: rest =>
    if c = '/' then String.ofList name.reverse :: namesFrom [] rest else namesFrom (c :: name) rest

/--
The path of a file name, which ends before its first NUL and starts from the root if it starts with
a slash. An empty name has none.
-/
def resolve (store : FileStore) (name : String) : Option Path :=
  let text := name.toList.takeWhile (· != '\x00')
  if text.isEmpty ∨ maxPathBytes < (String.ofList text).utf8ByteSize then none
  else store.walk (if text.head? = some '/' then [] else store.working) (namesFrom [] text)

/-- A file with the given contents in the working directory. -/
def putFile (store : FileStore) (name content : String) : FileStore :=
  store.put (store.working ++ [name]) (.file content)

/-- The contents of a file. Directories and sinks can be opened and have no contents. -/
def read (store : FileStore) (name : String) : Option String :=
  match (store.resolve name).bind store.node? with
  | some (.file content) => some content
  | some .directory => some ""
  | some .sink => some ""
  | none => none

/-- The contents of a file that is no directory and no sink. -/
def content? (store : FileStore) (name : String) : Option String :=
  match (store.resolve name).bind store.node? with
  | some (.file content) => some content
  | _ => none

/-- The store after a file's contents, none if there is no such file, were changed. -/
def modify (store : FileStore) (name : String) (change : Option String → String) :
    Option FileStore :=
  match store.resolve name with
  | none => none
  | some path =>
    match store.node? path with
    | some .directory => none
    | some .sink => some store
    | some (.file content) => some (store.put path (.file (change (some content))))
    | none => some (store.put path (.file (change none)))

def clear (store : FileStore) (name : String) : Option FileStore := store.modify name fun _ => ""

def append (store : FileStore) (name text : String) : Option FileStore :=
  store.modify name fun content => content.getD "" ++ text

/-- Without the named file or directory. -/
def remove (store : FileStore) (name : String) : FileStore :=
  match store.resolve name with
  | none => store
  | some path => store.erase path

/-- With a new directory, unless the name is taken. -/
def makeDirectory (store : FileStore) (name : String) : FileStore :=
  match store.resolve name with
  | none => store
  | some path =>
    match store.node? path with
    | some _ => store
    | none => store.put path .directory

/-- The store after a change, if it was possible, and whether it was. -/
def attempt (change : FileStore → Option FileStore) : StateM FileStore Bool := fun store =>
  match change store with
  | some store => (true, store)
  | none => (false, store)

end FileStore

/-- A file of a store that can be opened takes any text. -/
instance storeFiles : Files (StateM FileStore) where
  read name store := (store.read name, store)
  clear name := FileStore.attempt (·.clear name)
  append name text := do
    if ← FileStore.attempt (·.append name text) then return .added else return .notOpened

end GaussianRadial
