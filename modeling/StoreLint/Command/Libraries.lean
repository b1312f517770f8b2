import StoreLint.Command.Arguments
import StoreLint.Command.Journal
import StoreLint.Report.Basic
import StoreLint.Settings.Search

/-!
# What libraries do for a command

A command leaves some of its work to libraries: choosing the command that the arguments name,
reading flags, reading settings, writing the journal, and writing two of the forms of a report.
What a command does apart from that is a function of the `Libraries` it works with.
-/

namespace StoreLint

/-- The libraries of a command. -/
structure Libraries where
  /-- The command that arguments name, and the other arguments. -/
  choose : List String → Except UsageError (Command × List String)
  /-- The values of given flags, and the files, among arguments. -/
  arguments : List Flag → List String → Except UsageError Arguments
  readers : Settings.Readers
  writers : Writers
  /-- A line of the journal. -/
  journal : String → List (String × Bytes) → Bytes

/-- The libraries as the program uses them, on an output that takes no colours. -/
def Libraries.standard : Libraries where
  choose := Command.choose
  arguments := fun known arguments => Arguments.read known arguments {}
  readers := .standard
  writers := .standard
  journal := Journal.line

end StoreLint
