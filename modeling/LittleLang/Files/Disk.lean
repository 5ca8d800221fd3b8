import LittleLang.Files.Path

/-!
A small disk: folders and files under one root, with a folder from which paths that are not
absolute start. A path is walked name by name; `.` stays, `..` goes up, and the root is above
itself.

There are no links, permissions or special files, and there is room for all that is written: a place
holds one file or one folder, different places are different files, and what is written is read back.
-/
namespace LittleLang

/-- Why a file or folder cannot be used. -/
inductive FileFault where
  | notFound
  | alreadyExists
  | notAFolder
  | isAFolder
  /-- Another fault of the system, with its report. A disk of this module has none. -/
  | other (message : String)
  deriving DecidableEq

/-- The report of the fault. -/
def FileFault.message : FileFault → String
  | .notFound => "No such file or directory (os error 2)"
  | .alreadyExists => "File exists (os error 17)"
  | .notAFolder => "Not a directory (os error 20)"
  | .isAFolder => "Is a directory (os error 21)"
  | .other message => message

/-- What stands on a disk under a name. -/
inductive Entry where
  | folder
  | file (content : List UInt8)
  deriving DecidableEq

/-- A place on a disk: the names from the root to it. -/
abbrev Place := List String

/-- The entries below the root, and the folder where paths start. -/
structure Disk where
  entries : List (Place × Entry)
  home : Place

namespace Disk

/-- What stands at a place. -/
def entry? (d : Disk) (place : Place) : Option Entry :=
  if place = [] then some .folder else (d.entries.find? (·.1 = place)).map (·.2)

/-- Puts an entry at a place. -/
def put (d : Disk) (place : Place) (entry : Entry) : Disk :=
  { d with entries := (d.entries.filter (·.1 ≠ place)) ++ [(place, entry)] }

/-- The place that one name leads to. -/
def step (here : Place) (name : String) : Place :=
  if name = "." then here else if name = ".." then here.dropLast else here ++ [name]

/-- The folder that names lead to. -/
def enter (d : Disk) (here : Place) : List String → Except FileFault Place
  | [] => .ok here
  | name :: rest =>
    match d.entry? (step here name) with
    | some .folder => d.enter (step here name) rest
    | some (.file _) => .error .notAFolder
    | none => .error .notFound

/-- Where the walk along a path starts. -/
def start (d : Disk) (path : String) : Place := if Path.isAbsolute path then [] else d.home

/-- The last name of the path, and the folder in which it is looked up. The path that has no name
leads to the root. -/
def locate (d : Disk) (path : String) : Except FileFault (Option (Place × String)) :=
  if path.isEmpty then .error .notFound
  else
    match (Path.pieces path).getLast? with
    | none => .ok none
    | some name => do
      let folder ← d.enter (d.start path) (Path.pieces path).dropLast
      return some (folder, name)

/-- What stands at the end of a path. -/
def look (d : Disk) (path : String) : Except FileFault Entry := do
  match ← d.locate path with
  | none => return .folder
  | some (folder, name) =>
    match d.entry? (step folder name) with
    | some entry => return entry
    | none => .error .notFound

/-- The content of a file. -/
def read (d : Disk) (path : String) : Except FileFault (List UInt8) := do
  match ← d.look path with
  | .folder => .error .isAFolder
  | .file content => if Path.endsInSlash path then .error .notAFolder else return content

/-- Whether a path leads to a folder. -/
def isFolder (d : Disk) (path : String) : Bool :=
  match d.look path with
  | .ok .folder => true
  | _ => false

/-- The disk with a new content of a file, which need not have been there. -/
def write (d : Disk) (path : String) (content : List UInt8) : Except FileFault Disk := do
  match ← d.locate path with
  | none => .error .isAFolder
  | some (folder, name) =>
    match d.entry? (step folder name) with
    | some .folder => .error .isAFolder
    | some (.file _) =>
      if Path.endsInSlash path then .error .notAFolder
      else return d.put (step folder name) (.file content)
    | none =>
      if Path.endsInSlash path then .error .isAFolder
      else return d.put (step folder name) (.file content)

/-- The disk with one more folder. -/
def makeFolder (d : Disk) (path : String) : Except FileFault Disk := do
  match ← d.locate path with
  | none => .error .alreadyExists
  | some (folder, name) =>
    match d.entry? (step folder name) with
    | some _ => .error .alreadyExists
    | none => return d.put (step folder name) .folder

/-- Makes a folder, after `parents` if it cannot be made before them. A folder that is there already
will do. The disk is kept when this fails, with what was made until then. -/
def makeAfter (parents : Disk → Except FileFault Unit × Disk) (path : String) (d : Disk) :
    Except FileFault Unit × Disk :=
  match d.makeFolder path with
  | .ok made => (.ok (), made)
  | .error .notFound =>
    match parents d with
    | (.error fault, later) => (.error fault, later)
    | (.ok (), later) =>
      match later.makeFolder path with
      | .ok made => (.ok (), made)
      | .error fault => (if later.isFolder path then .ok () else .error fault, later)
  | .error fault => (if d.isFolder path then .ok () else .error fault, d)

/-- Makes the folder of the given pieces, the last one first, with those above it. -/
def makeAbove (absolute : Bool) : List String → Disk → Except FileFault Unit × Disk
  | [], d => (.ok (), d)
  | name :: above, d =>
    makeAfter (makeAbove absolute above)
      ((if absolute then "/" else "") ++ String.intercalate "/" (name :: above).reverse) d

/-- Makes a folder with those above it. The empty path needs none. -/
def makeFolders (path : String) (d : Disk) : Except FileFault Unit × Disk :=
  if path.isEmpty then (.ok (), d)
  else
    makeAfter
      (makeAbove (Path.isAbsolute path) ((Path.pieces path).filter (· ≠ ".")).dropLast.reverse)
      path d

/-- The names from the home folder to a place below it. -/
def fromHome? (d : Disk) (place : Place) : Option String :=
  if d.home.isPrefixOf place ∧ place ≠ d.home then
    some (String.intercalate "/" (place.drop d.home.length))
  else none

/-- The paths of the folders below the home folder. -/
def folders (d : Disk) : List String :=
  d.entries.filterMap fun (place, entry) =>
    match entry with
    | .folder => d.fromHome? place
    | .file _ => none

/-- The paths and contents of the files below the home folder that are not the same in `before`. -/
def changes (before d : Disk) : List (String × List UInt8) :=
  d.entries.filterMap fun (place, entry) =>
    match entry with
    | .folder => none
    | .file content =>
      if before.entry? place = some (.file content) then none
      else (d.fromHome? place).map (·, content)

end Disk

end LittleLang
