import StoreLint.Command.Run

/-!
# The command line

Reads what a command needs, runs it, and writes its outcome.
-/

namespace StoreLint

/-- The code of the error that reading a directory gives. -/
def directoryCode : UInt32 := 21

/-- What a path leads to. -/
def lookAt (path : String) : IO Entry := do
  try
    return .file (← IO.FS.readBinFile path).toList
  catch
    | .inappropriateType _ code _ => return if code = directoryCode then .directory else .blocked
    | _ => return .absent

/-- The paths that a command may look at. -/
def World.paths (w : World) : List String :=
  match w.invocation with
  | .error _ => []
  | .ok (_, a) =>
    a.files
      ++ if a.flags.noConfig then []
        else if a.flags.config ≠ "" then [a.flags.config]
        else Settings.candidates (w.searchStart a.files)

/-- Does a command read the standard input? -/
def World.readsInput (w : World) : Bool :=
  match w.invocation with
  | .ok (.check, a) => a.files.isEmpty
  | .ok (.format, a) => a.files.isEmpty
  | .ok (.tokens, a) => a.files.isEmpty
  | _ => false

/-- What a command sees when it is started with the given arguments. -/
def World.observe (arguments : List String) : IO World := do
  let blind : World :=
    { arguments, input := [], workingDirectory := (← IO.currentDir).toString,
      files := fun _ => .absent, toolchain := "go1.21" }
  let entries ← blind.paths.mapM fun path => return (path, ← lookAt path)
  let input ←
    if blind.readsInput then pure (← IO.FS.readBinFile "/dev/stdin").toList
    else pure []
  return { blind with input, files := fun path => (entries.lookup path).getD .absent }

/-- Writes an outcome. -/
def Outcome.write (o : Outcome) : IO Unit := do
  let out ← IO.getStdout
  out.write ⟨o.output.toArray⟩
  out.flush
  let errors ← IO.getStderr
  errors.write ⟨o.errors.toArray⟩
  errors.flush

end StoreLint

def main (arguments : List String) : IO UInt32 := do
  let waits := StoreLint.World.readsInput
    { arguments, input := [], workingDirectory := "", files := fun _ => .absent, toolchain := "" }
  if waits ∧ (← (← IO.getStdin).isTty) then
    (StoreLint.Outcome.failure [] (StoreLint.utf8 "no input file specified") 1).write
    return 1
  else
    let outcome := (← StoreLint.World.observe arguments).run
    outcome.write
    return outcome.status.toUInt32
