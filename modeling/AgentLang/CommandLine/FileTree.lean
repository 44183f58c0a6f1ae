import AgentLang.CommandLine.Host
import AgentLang.CommandLine.Path

/-! A file tree held in memory, with the working directory of a process and what the process
has printed, as a host to run on. The tree has files and directories but no links, so that every
node has one location, and the process may read and write all of it.
-/

namespace AgentLang.CommandLine

/-- A file or a directory. -/
inductive Node where
  | file (content : ByteArray)
  | directory

/-- Names from the root down. -/
abbrev Location := List String

/-- The nodes of a tree by their locations. The root is a directory without being listed. -/
structure FileTree where
  nodes : List (Location × Node)

namespace FileTree

def empty : FileTree := ⟨[]⟩

def get? (tree : FileTree) (location : Location) : Option Node :=
  if location = [] then some .directory else tree.nodes.lookup location

def set (tree : FileTree) (location : Location) (node : Node) : FileTree :=
  ⟨(location, node) :: tree.nodes.filter (·.1 != location)⟩

end FileTree

/-- A process on a file tree. -/
structure World where
  tree : FileTree
  workingDirectory : Location
  output : String

namespace World

/-- No name may take more than 255 bytes. -/
def nameLimit : Nat := 255

/-- No path may take more than 4095 bytes, whatever it leads to. -/
def pathLimit : Nat := 4095

/-- The node a name leads to from a directory, and its location. -/
def enter (world : World) (directory : Location) (name : String)
    : Except SystemError (Location × Option Node) :=
  if name = "." then
    .ok (directory, some .directory)
  else if name = ".." then
    .ok (directory.dropLast, some .directory)
  else if nameLimit < name.utf8ByteSize then
    .error .nameTooLong
  else
    let location := directory ++ [name]
    .ok (location, world.tree.get? location)

/-- Follows names, all but the last of which have to lead to directories. -/
def follow (world : World) (directory : Location)
    : List String → Except SystemError (Location × Option Node)
  | [] => .ok (directory, some .directory)
  | [name] => world.enter directory name
  | name :: names => do
      match ← world.enter directory name with
      | (location, some .directory) => world.follow location names
      | (_, some (.file _)) => throw .notADirectory
      | (_, none) => throw .notFound

/-- Where a path starts: at the root, or in the working directory. -/
def start (world : World) (path : Path) : Location :=
  if path.absolute then [] else world.workingDirectory

/-- Where a path leads, and what is there. The length of its text is judged first. -/
def locate (world : World) (path : Path) : Except SystemError (Location × Option Node) :=
  if pathLimit < path.toText.utf8ByteSize then
    .error .nameTooLong
  else
    world.follow (world.start path) path.names

def read (world : World) (path : Path) : Except SystemError ByteArray := do
  match (← world.locate path).2 with
  | some (.file content) => if path.endsInSlash then throw .notADirectory else return content
  | some .directory => throw .isADirectory
  | none => throw .notFound

def write (world : World) (path : Path) (content : ByteArray) : Except SystemError World := do
  match ← world.locate path with
  | (_, some .directory) => throw .isADirectory
  | (location, _) => return { world with tree := world.tree.set location (.file content) }

def createDirectory (world : World) (path : Path) : Except SystemError World := do
  match ← world.locate path with
  | (location, none) => return { world with tree := world.tree.set location .directory }
  | (_, some _) => throw .fileExists

def isDirectory (world : World) (path : Path) : Bool :=
  match world.locate path with
  | .ok (_, some .directory) => true
  | _ => false

/-- Lets an operation change the world when it succeeds. -/
def apply (operation : World → Except SystemError World)
    : StateM World (Except SystemError Unit) := do
  match operation (← get) with
  | .ok world =>
      set world
      return .ok ()
  | .error cause => return .error cause

/-- The system of a process on a file tree, which lists declarations in the given order. -/
def hostIn (order : Context.Order) : Host (StateM World) where
  order
  readFile path := return (← get).read (.ofText path)
  createDirectory path := apply (·.createDirectory (.ofText path))
  isDirectory path := return (← get).isDirectory (.ofText path)
  writeFile path content := apply (·.write (.ofText path) content.toUTF8)
  print text := modify fun world => { world with output := world.output ++ text }

def host : Host (StateM World) := hostIn .ascending

end World

end AgentLang.CommandLine
