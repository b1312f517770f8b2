import StoreLint.Files.Entry
import StoreLint.Files.Path
import StoreLint.Settings.OfJson
import StoreLint.Settings.OfToml
import StoreLint.Settings.OfYaml

/-!
# Finding and loading settings

Settings are looked for under six names, first in a directory and then in the directories above it,
as far as the names of the path tell.  The first file that is there is the one that counts, whether
or not it can be loaded.

* `Settings.candidates` lists the paths that are tried.
* `Settings.Readers` are the readers of two of the forms that settings are written in.
* `Settings.loadFile` loads one file, and `Settings.load` the first one that is there.
-/

namespace StoreLint.Settings

/-- The names of settings files, the preferred ones first. -/
def fileNames : List String :=
  ["deadstore.json", ".deadstorerc", ".deadstorerc.json", "deadstore.toml", "deadstore.yaml",
    "deadstore.yml"]

/-- The directories in which settings are looked for. -/
def searched (start : String) : List Path :=
  Path.clean start :: (Path.directoryOf start).upward

/-- The paths that are tried, in order. -/
def candidates (start : String) : List String :=
  (searched start).flatMap fun directory => fileNames.map fun name => (directory.push name).text

/-- Why settings cannot be loaded. -/
inductive LoadError where
  | unreadable (e : FileError)
  /-- The file with this name is not written as its form asks for. -/
  | malformed (name : String)
  | invalid (name : String) (e : Invalid)
  deriving DecidableEq, Repr

/-- The message about settings that cannot be loaded. -/
def LoadError.message : LoadError → Bytes
  | .unreadable e => e.message
  | .malformed name => utf8 "parsing " ++ utf8 name
  | .invalid name e => utf8 name ++ utf8 ": " ++ e.message

/-- What reads settings, as far as libraries do. -/
structure Readers where
  toml? : Bytes → Option Settings
  yaml? : Bytes → Option Settings

/-- The readers of TOML and YAML. -/
def Readers.standard : Readers :=
  ⟨ofToml?, ofYaml?⟩

/-- The settings in a text.  Its form follows from the extension of the path. -/
def decode? (readers : Readers) (path : String) (text : Bytes) : Option Settings :=
  let extension := String.ofList ((Path.extension path).toList.map asciiLower)
  if extension = ".toml" then readers.toml? text
  else if extension = ".yaml" ∨ extension = ".yml" then readers.yaml? text
  else ofJson? text

/-- The settings in a file. -/
def loadFile (files : Files) (path : String) (readers : Readers := .standard) :
    Except LoadError Settings :=
  match files.read path with
  | .error e => .error (.unreadable e)
  | .ok text =>
    match decode? readers path text with
    | none => .error (.malformed (Path.baseName path))
    | some s =>
      match s.invalid? with
      | some e => .error (.invalid (Path.baseName path) e)
      | none => .ok s

/-- The path of the settings for a directory, if there are any. -/
def find? (files : Files) (start : String) : Option String :=
  (candidates start).find? fun path => (files path).isPresent

/-- The settings for a directory with the path where they were found, or none. -/
def load (files : Files) (start : String) (readers : Readers := .standard) :
    Option (String × Except LoadError Settings) :=
  (find? files start).map fun path => (path, loadFile files path readers)

end StoreLint.Settings
