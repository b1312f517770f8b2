import StoreLint.Text.Bytes

/-!
# What a path leads to

Reading a file gives its content, or one of three errors.
-/

namespace StoreLint

/-- What a path leads to. -/
inductive Entry where
  | file (content : Bytes)
  | directory
  /-- Nothing is there. -/
  | absent
  /-- A file stands on the way, where a directory would have to be. -/
  | blocked
  deriving DecidableEq, Repr

namespace Entry

/-- Is something there? -/
def isPresent : Entry → Bool
  | .file _ => true
  | .directory => true
  | _ => false

end Entry

/-- The files that can be seen: what each written path leads to. -/
abbrev Files := String → Entry

/-- Why a file cannot be read. -/
inductive FileError where
  | absent (path : String)
  | blocked (path : String)
  | isDirectory (path : String)
  deriving DecidableEq, Repr

/-- The message about a file that cannot be read. -/
def FileError.message : FileError → Bytes
  | .absent path => utf8 "open " ++ utf8 path ++ utf8 ": no such file or directory"
  | .blocked path => utf8 "open " ++ utf8 path ++ utf8 ": not a directory"
  | .isDirectory path => utf8 "read " ++ utf8 path ++ utf8 ": is a directory"

/-- The content of a file. -/
def Files.read (files : Files) (path : String) : Except FileError Bytes :=
  match files path with
  | .file content => .ok content
  | .directory => .error (.isDirectory path)
  | .absent => .error (.absent path)
  | .blocked => .error (.blocked path)

end StoreLint
