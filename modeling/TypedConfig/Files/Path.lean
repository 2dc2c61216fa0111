import TypedConfig.Document.Emit

/-! # Paths of files

Names are separated by slashes; empty names and single dots mean nothing.
-/

namespace TypedConfig.Path

def namesOf (part : List Char) : List Char → List String
  | [] => [String.ofList part.reverse]
  | c :: cs =>
    if c = '/' then String.ofList part.reverse :: namesOf [] cs else namesOf (c :: part) cs

def names (path : String) : List String := namesOf [] path.toList

def isAbsolute (path : String) : Bool := path.toList.head? == some '/'

/-- The name of the file at a path, unless the path ends by going up. -/
def fileName? (path : String) : Option String :=
  match ((names path).filter fun n => n != "" && n != ".").getLast? with
  | some ".." => none
  | name => name

def join (directory name : String) : String :=
  match directory.toList.getLast? with
  | none | some '/' => directory ++ name
  | some _ => directory ++ "/" ++ name

/-- A path as it leads from a directory. The empty path leads nowhere. -/
def within (directory path : String) : String :=
  if path = "" ∨ isAbsolute path then path else join directory path

/-- Characters without those at their end, if they end so. -/
def dropEnd (ending cs : List Char) : List Char :=
  if ending.isSuffixOf cs then cs.take (cs.length - ending.length) else cs

/-- The name of a program without the endings of programs and documents. -/
def stem (name : String) : String :=
  let endings := [".ts", ".yml", ".yaml", ".json"]
  String.ofList (endings.foldl (fun cs e => dropEnd e.toList cs) name.toList)

def documentName (program : String) (format : Format) : String :=
  stem ((fileName? program).getD "") ++ "." ++ format.extension

end TypedConfig.Path
