import StoreLint.Command.Libraries

/-!
# Running a command

A command is a function of what it sees of the world: its arguments, its input, the files, and the
libraries that it works with.  Its outcome is what it writes and the status with which it ends.

* `check` reports dead assignments of files.
* `fmt` prints a program in its canonical layout.
* `tokens` lists the tokens of a program.
* `version` tells the version.

`World.run` chooses and runs the command.
-/

namespace StoreLint

/-- What a command sees. -/
structure World where
  arguments : List String
  /-- The standard input. -/
  input : Bytes
  workingDirectory : String
  files : Files
  /-- The version of the tools by which the program was built. -/
  toolchain : String
  libraries : Libraries := .standard

/-- What a command leaves. -/
structure Outcome where
  output : Bytes := []
  errors : Bytes := []
  status : Nat := 0
  deriving DecidableEq, Repr

/-- A program to work on. -/
structure Source where
  name : String
  text : Bytes
  deriving DecidableEq, Repr

/-- The outcome of a command that fails with a message, after what it has logged. -/
def Outcome.failure (log message : Bytes) (status : Nat) : Outcome :=
  { errors := log ++ utf8 "error: " ++ message ++ utf8 "\n", status }

namespace World

/-! ## Inputs and settings -/

/-- The programs in the given files, or the one in the standard input if no files are given. -/
def sources (w : World) (files : List String) : Except FileError (List Source) :=
  if files = [] then .ok [⟨"<stdin>", w.input⟩]
  else files.mapM fun name => (w.files.read name).map fun text => ⟨name, text⟩

/-- The message about a program that cannot be read. -/
def unreadable (e : FileError) : Bytes :=
  utf8 "reading input: " ++ e.message

/-- Where settings are looked for: next to the first file, or in the working directory. -/
def searchStart (w : World) (files : List String) : String :=
  match files with
  | [] => w.workingDirectory
  | file :: _ => (Path.directoryOf file).text

/-- Settings, and the path of the file they are from. -/
structure Loaded where
  settings : Settings
  path : Option String
  deriving DecidableEq, Repr

/-- The settings that hold for a command: none, those of a given file, or those that are found. -/
def settings (w : World) (flags : Flags) (files : List String) : Except Bytes Loaded :=
  if flags.noConfig then .ok ⟨{}, none⟩
  else if flags.config ≠ "" then
    match Settings.loadFile w.files flags.config w.libraries.readers with
    | .error e =>
      .error (utf8 "loading config file " ++ utf8 flags.config ++ utf8 ": " ++ e.message)
    | .ok s => .ok ⟨s, some flags.config⟩
  else
    match Settings.load w.files (w.searchStart files) w.libraries.readers with
    | none => .ok ⟨{}, none⟩
    | some (_, .error e) => .error (utf8 "loading config: " ++ e.message)
    | some (path, .ok s) => .ok ⟨s, some path⟩

/-- The log about the settings. -/
def settingsLog (w : World) (l : Loaded) : Bytes :=
  match l.path with
  | none => []
  | some path => w.libraries.journal "using config" [("path", utf8 path)]

/-! ## Checking -/

/-- The reports about programs. -/
def reports (request : Request) (sources : List Source) : Except Rules.Invalid (List FileReport) :=
  sources.mapM fun s => (request.analyze s.text).map fun a => ⟨s.name, a⟩

/-- The log about the analysis of a program. -/
def analysisLog (w : World) (s : Source) (r : FileReport) : Bytes :=
  w.libraries.journal "analyzing" [("file", utf8 s.name), ("bytes", digits s.text.length)]
    ++ r.analysis.trace.flatMap (Journal.ofEvent w.libraries.journal)

/-- The log, if it is wanted. -/
def logged (flags : Flags) (log : Bytes) : Bytes :=
  if flags.verbose then log else []

/-- Reports dead assignments. -/
def check (w : World) (a : Arguments) : Outcome :=
  match w.sources a.files with
  | .error e => .failure [] (unreadable e) 1
  | .ok sources =>
    match w.settings a.flags a.files with
    | .error message => .failure [] message 1
    | .ok loaded =>
      let options := loaded.settings.merge a.flags.overrides
      match ReportFormat.ofName? options.format with
      | none =>
        .failure (logged a.flags (w.settingsLog loaded))
          (utf8 "unknown format " ++ quoted (utf8 options.format)) 1
      | some format =>
        match reports options.request sources with
        | .error e => .failure (logged a.flags (w.settingsLog loaded)) e.message 1
        | .ok found =>
          { output := writeReport w.libraries.writers format options found
            errors := logged a.flags
              (w.settingsLog loaded ++ (List.zipWith w.analysisLog sources found).flatten)
            status := checkStatus options found }

/-! ## The other commands -/

/-- The first program, or the standard input. -/
def source (w : World) (files : List String) : Except FileError Source :=
  (w.sources files).map fun sources => sources.headD ⟨"<stdin>", w.input⟩

/-- The outcome for a program with an error in it. -/
def rejected (log : Bytes) (s : Source) (error : Bytes) : Outcome :=
  .failure log (utf8 s.name ++ utf8 ":" ++ error) 2

/-- Prints a program in its canonical layout. -/
def format (w : World) (a : Arguments) : Outcome :=
  match w.source a.files with
  | .error e => .failure [] (unreadable e) 1
  | .ok source =>
    match w.settings a.flags a.files with
    | .error message => .failure [] message 1
    | .ok loaded =>
      let options := loaded.settings.merge { indent := a.flags.indent }
      match Layout.format ⟨a.flags.minify, options.indent⟩ source.text with
      | .error e => rejected (logged a.flags (w.settingsLog loaded)) source e.text
      | .ok text =>
        { output := text ++ if a.flags.minify then utf8 "\n" else []
          errors := logged a.flags (w.settingsLog loaded) }

/-- The line about a token. -/
def tokenLine (t : Token) : Bytes :=
  decimal t.position.line ++ utf8 ":" ++ decimal t.position.column ++ utf8 "\t" ++ utf8 t.kind.name
    ++ (if t.kind = .number ∨ t.kind = .variable then utf8 "\t" ++ t.value else []) ++ utf8 "\n"

/-- Lists the tokens of a program. -/
def tokens (w : World) (a : Arguments) : Outcome :=
  match w.source a.files with
  | .error e => .failure [] (unreadable e) 1
  | .ok source =>
    match tokenize source.text with
    | .error e => rejected [] source e.text
    | .ok found => { output := found.flatMap tokenLine }

/-- Tells the version. -/
def version (w : World) : Outcome :=
  { output := utf8 "deadstore v0.1.0 (dev)\n  Go Version: " ++ utf8 w.toolchain
      ++ utf8 "\n  OS/Arch:    linux/amd64\n" }

/-- Tells what the commands are. -/
def help : Outcome :=
  { output := utf8 ("Report assignments whose value is never read\n\n"
      ++ "Usage:\n"
      ++ "  deadstore check [files...]   report dead stores\n"
      ++ "  deadstore fmt [file]         print a program in canonical layout\n"
      ++ "  deadstore tokens [file]      print the token stream of a program\n"
      ++ "  deadstore version            print version information\n") }

/-! ## All together -/

/-- Runs a command. -/
def perform (w : World) (c : Command) (a : Arguments) : Outcome :=
  match c with
  | .check => w.check a
  | .format => w.format a
  | .tokens => w.tokens a
  | .version => w.version
  | .help => help

/-- The command and its arguments, or what is wrong with them. -/
def invocation (w : World) : Except UsageError (Command × Arguments) := do
  let (command, others) ← w.libraries.choose w.arguments
  let a ← w.libraries.arguments command.flags others
  if a.flags.help then return (.help, a)
  else
    match command.fileLimit with
    | some limit =>
      if limit < a.files.length then .error (.tooManyFiles limit a.files.length)
      else return (command, a)
    | none => return (command, a)

/-- Runs the command that the arguments name. -/
def run (w : World) : Outcome :=
  match w.invocation with
  | .error e => .failure [] e.message 1
  | .ok (command, a) => w.perform command a

end World

end StoreLint
