/-!
Paths as texts: names with slashes between them.
-/
namespace LittleLang.Path

/-- The pieces between slashes that are not empty. -/
def pieces (path : String) : List String :=
  ((path.toList.splitOn '/').filter (!·.isEmpty)).map String.ofList

/-- Whether the path starts at the root. -/
def isAbsolute (path : String) : Bool := path.toList.head? == some '/'

/-- Whether the path ends in a slash. -/
def endsInSlash (path : String) : Bool := path.toList.getLast? == some '/'

/-- The last name of a path, if it is the name of an entry. -/
def fileName? (path : String) : Option String :=
  match ((pieces path).filter (· ≠ ".")).getLast? with
  | some name => if name = ".." then none else some name
  | none => none

/-- A name without its last extension. A dot at the front begins no extension. -/
def stem (name : List Char) : List Char :=
  match (name.reverse.dropWhile (· ≠ '.')).tail.reverse with
  | [] => name
  | before => before

/-- The last name of a path without its last extension. -/
def fileStem? (path : String) : Option String :=
  (fileName? path).map fun name => String.ofList (stem name.toList)

/-- The path of a name within a folder. -/
def join (folder name : String) : String :=
  if folder.isEmpty || endsInSlash folder then folder ++ name else folder ++ "/" ++ name

end LittleLang.Path
