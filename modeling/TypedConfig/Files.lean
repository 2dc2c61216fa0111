import TypedConfig.Entries
import TypedConfig.Files.Path

/-! # Files

What commands need of a file system, and a file system that is a value: a tree of files and
directories, with paths that lead from its root or from any directory.
-/

namespace TypedConfig

/-- The operations on files in a monad. Each tells whether it succeeded. -/
class FileSystem (m : Type → Type) where
  isFile : String → m Bool
  isDirectory : String → m Bool
  /-- The text of a file, if there is one. -/
  read? : String → m (Option String)
  /-- Writes a file, in place of one that is there. -/
  write : String → String → m Bool
  /-- Makes a directory and those that it is in, as far as they are missing. -/
  makeDirectories : String → m Bool

instance {m : Type → Type} [Monad m] [FileSystem m] {ε : Type} : FileSystem (ExceptT ε m) where
  isFile path := ExceptT.lift (FileSystem.isFile path)
  isDirectory path := ExceptT.lift (FileSystem.isDirectory path)
  read? path := ExceptT.lift (FileSystem.read? path)
  write path text := ExceptT.lift (FileSystem.write path text)
  makeDirectories path := ExceptT.lift (FileSystem.makeDirectories path)

/-- Files as they are seen from a directory, which is named by the path that is read. -/
instance {m : Type → Type} [Monad m] [FileSystem m] : FileSystem (ReaderT String m) where
  isFile path directory := FileSystem.isFile (Path.within directory path)
  isDirectory path directory := FileSystem.isDirectory (Path.within directory path)
  read? path directory := FileSystem.read? (Path.within directory path)
  write path text directory := FileSystem.write (Path.within directory path) text
  makeDirectories path directory := FileSystem.makeDirectories (Path.within directory path)

inductive FileNode
  | file (text : String)
  | directory
deriving DecidableEq, Repr

/-- Files and directories by their names from the root, which all are in. -/
abbrev FileTree := Entries FileNode

namespace FileTree

/-- The key of the file or directory reached by names. -/
def key (names : List String) : String := "/".intercalate names

def isDirectoryAt (t : FileTree) (names : List String) : Bool :=
  names.isEmpty || Entries.get? t (key names) == some .directory

/-- Follows names from a directory. The last of them need not be there; what comes before a name
has to be a directory. Above the root is the root. -/
def locateFrom (t : FileTree) (here : List String) : List String → Option (List String)
  | [] => some here
  | name :: rest =>
    if t.isDirectoryAt here then
      if name = "" ∨ name = "." then locateFrom t here rest
      else if name = ".." then locateFrom t here.dropLast rest
      else locateFrom t (here ++ [name]) rest
    else none

def locate (t : FileTree) (path : String) : Option (List String) :=
  t.locateFrom [] (Path.names path)

/-- What is at a path; at the empty one there is nothing. -/
def node? (t : FileTree) (path : String) : Option FileNode := do
  let names ← t.locate path
  if path = "" then none
  else if names.isEmpty then return .directory
  else Entries.get? t (key names)

def read? (t : FileTree) (path : String) : Option String :=
  match t.node? path with
  | some (.file text) => some text
  | _ => none

/-- The tree with a file written, unless a directory is in its place. -/
def write? (t : FileTree) (path text : String) : Option FileTree := do
  let names ← t.locate path
  if t.isDirectoryAt names then none else return Entries.put t (key names) (.file text)

def makeFrom (t : FileTree) (here : List String) : List String → Option FileTree
  | [] => some t
  | name :: rest =>
    if name = "" ∨ name = "." then makeFrom t here rest
    else if name = ".." then makeFrom t here.dropLast rest
    else
      let next := here ++ [name]
      match Entries.get? t (key next) with
      | some .directory => makeFrom t next rest
      | some (.file _) => none
      | none => makeFrom (Entries.put t (key next) .directory) next rest

def makeDirectories? (t : FileTree) (path : String) : Option FileTree :=
  t.makeFrom [] (Path.names path)

/-- Takes a step that may fail and then changes nothing. -/
def attempt (step : FileTree → Option FileTree) : StateM FileTree Bool := fun t =>
  match step t with
  | some t => (true, t)
  | none => (false, t)

instance : FileSystem (StateM FileTree) where
  isFile path := do return ((← get).read? path).isSome
  isDirectory path := do return (← get).node? path == some .directory
  read? path := do return (← get).read? path
  write path text := attempt fun t => t.write? path text
  makeDirectories path := attempt fun t => t.makeDirectories? path

end FileTree

end TypedConfig
