import StoreLint.Files.Entry
import StoreLint.Files.Path

/-!
# File trees

A directory holds files and directories by name.  A written path is followed from a working
directory one name at a time, and each name but the last has to lead to a directory.  A double dot
leads to the directory above, so that a path which leaves a directory that is not there leads
nowhere.
-/

namespace StoreLint

/-- A file, or a directory with all that is in it. -/
inductive FileTree where
  | file (content : Bytes)
  | directory (children : List (String × FileTree))
  deriving Inhabited

namespace FileTree

/-- A directory with nothing in it. -/
def empty : FileTree :=
  .directory []

/-- The file or directory with a name. -/
def child? (name : String) : FileTree → Option FileTree
  | .file _ => none
  | .directory children => children.lookup name

/-- The file or directory that names lead to. -/
def find? (t : FileTree) : List String → Option FileTree
  | [] => some t
  | name :: names =>
    match t.child? name with
    | some inner => inner.find? names
    | none => none

/-- The directory with a file or directory under a name; a file turns into a directory. -/
def put (t : FileTree) (name : String) (new : FileTree) : FileTree :=
  match t with
  | .file _ => .directory [(name, new)]
  | .directory children =>
    .directory (children.filter (fun child => child.1 != name) ++ [(name, new)])

/-- The tree with a file at a place, in directories that are made if need be. -/
def addFile (t : FileTree) (content : Bytes) : List String → FileTree
  | [] => .file content
  | name :: names => t.put name (((t.child? name).getD empty).addFile content names)

/-- The tree with a directory at a place, if there is none yet. -/
def addDirectory (t : FileTree) : List String → FileTree
  | [] =>
    match t with
    | .file _ => empty
    | .directory children => .directory children
  | name :: names => t.put name (((t.child? name).getD empty).addDirectory names)

/-- Follows names from a place in a tree, given by the names that lead to it from the root. -/
def follow (root : FileTree) (here : List String) : List String → Entry
  | [] =>
    match root.find? here with
    | some (.file content) => .file content
    | some (.directory _) => .directory
    | none => .absent
  | name :: names =>
    match root.find? here with
    | none => .absent
    | some (.file _) => .blocked
    | some (.directory _) =>
      if name = "" ∨ name = "." then follow root here names
      else if name = ".." then follow root here.dropLast names
      else follow root (here ++ [name]) names

/-- What written paths lead to in a tree, from a working directory; an empty path leads nowhere. -/
def files (root : FileTree) (workingDirectory : List String) : Files := fun path =>
  if path = "" then .absent
  else root.follow (if Path.isRooted path then [] else workingDirectory) (Path.segments path)

end FileTree

end StoreLint
