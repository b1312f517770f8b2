import StoreLint.Diagnostic.Severity
import StoreLint.Token.Basic

/-!
# Diagnostics and their text

A diagnostic has a severity, a code, a message, a range of the program, and notes about other
places.  A listing holds the diagnostics of one program, in the order in which they were added.

A listing is printed as text, each diagnostic with the source line it is about and a mark under the
reported columns:

    3:1: warning[W0001]: value assigned to y is never read
        y = 4
        ^
      5:1: note: overwritten here

The parts of the text can be styled.
-/

namespace StoreLint

/-- A range of a program, from its first place to just after its last one. -/
structure Range where
  start : Position
  stop : Position
  deriving DecidableEq, Repr, Inhabited

/-- The range of `width` columns at a place, at least one. -/
def Range.point (place : Position) (width : Int) : Range :=
  ⟨place, place.shifted (max width 1)⟩

/-- A note about another place. -/
structure Note where
  range : Range
  message : Bytes
  deriving DecidableEq, Repr

/-- A diagnostic. -/
structure Diagnostic where
  severity : Severity
  code : String
  message : Bytes
  range : Range
  notes : List Note
  deriving DecidableEq, Repr

/-- How the parts of a printed diagnostic are decorated. -/
structure Style where
  location : Bytes → Bytes
  severity : Severity → Bytes → Bytes
  code : Bytes → Bytes
  source : Bytes → Bytes
  mark : Bytes → Bytes
  note : Bytes → Bytes

/-- No decoration. -/
def Style.plain : Style :=
  ⟨id, fun _ => id, id, id, id, id⟩

/-- How a listing is printed. -/
structure TextOptions where
  /-- The file name in front of each place; none when empty. -/
  file : String
  /-- Are source lines left out? -/
  hideSource : Bool
  style : Style

/-- The diagnostics of a program. -/
structure Listing where
  source : Bytes
  entries : List Diagnostic
  deriving DecidableEq, Repr

namespace Listing

/-- A program without diagnostics. -/
def ofSource (source : Bytes) : Listing :=
  ⟨source, []⟩

/-- Adds a diagnostic as the rules have it, if there are rules: with the severity that they give it,
or not at all when that is off. -/
def add (listing : Listing) (rules : Option Rules) (d : Diagnostic) : Listing :=
  match rules with
  | none => { listing with entries := listing.entries ++ [d] }
  | some rules =>
    let severity := rules.severityFor d.code d.severity
    if severity = .off then listing
    else { listing with entries := listing.entries ++ [{ d with severity }] }

/-- The diagnostic as the rules have it; none when they turn it off. -/
def graded (rules : Rules) (d : Diagnostic) : Option Diagnostic :=
  if rules.severityFor d.code d.severity = .off then none
  else some { d with severity := rules.severityFor d.code d.severity }

/-- Rules change nothing but the severity. -/
theorem eq_of_graded {rules : Rules} {d e : Diagnostic} (h : graded rules d = some e) :
    e = { d with severity := e.severity } := by
  unfold graded at h
  split at h
  · cases h
  · cases h
    rfl

theorem add_rules (listing : Listing) (rules : Rules) (d : Diagnostic) :
    listing.add (some rules) d =
      ⟨listing.source, listing.entries ++ (graded rules d).toList⟩ := by
  unfold add graded
  dsimp only
  split
  · simp
  · rfl

/-- The text of a line, counted from one, without the carriage returns at its end; empty for a line
that is not there. -/
def sourceLine (source : Bytes) (line : Int) : Bytes :=
  if line < 1 then []
  else trimEnd 0x0D ((lines source).getD (line.toNat - 1) [])

end Listing

/-- A place in front of a message, with its file if there is one. -/
def locationText (file : String) (p : Position) : Bytes :=
  (if file = "" then [] else utf8 file ++ utf8 ":")
    ++ decimal p.line ++ utf8 ":" ++ decimal p.column ++ utf8 ":"

namespace Diagnostic

/-- The mark under the columns of a range: one sign for the first column, and one of another kind
for each further column of the same line. -/
def markText (range : Range) : Bytes :=
  utf8 "^" ++
    if range.stop.line = range.start.line ∧ range.start.column < range.stop.column then
      List.replicate (range.stop.column - range.start.column - 1).toNat 0x7E
    else []

/-- The source line of a diagnostic and the mark under it, when there is something to show. -/
def sourceText (d : Diagnostic) (source : Bytes) (opts : TextOptions) : Bytes :=
  let line := Listing.sourceLine source d.range.start.line
  if !opts.hideSource ∧ line ≠ [] ∧ 0 < d.range.start.column then
    utf8 "    " ++ opts.style.source line ++ utf8 "\n"
      ++ List.replicate (d.range.start.column - 1 + 4).toNat 0x20
      ++ opts.style.mark (markText d.range) ++ utf8 "\n"
  else []

/-- The line of a note. -/
def noteText (opts : TextOptions) (n : Note) : Bytes :=
  utf8 "  " ++ opts.style.note (locationText opts.file n.range.start ++ utf8 " note: " ++ n.message)
    ++ utf8 "\n"

/-- A diagnostic as text. -/
def text (d : Diagnostic) (source : Bytes) (opts : TextOptions) : Bytes :=
  opts.style.location (locationText opts.file d.range.start) ++ utf8 " "
    ++ opts.style.severity d.severity (utf8 d.severity.name)
    ++ (if d.code = "" then [] else opts.style.code (utf8 "[" ++ utf8 d.code ++ utf8 "]"))
    ++ utf8 ": " ++ d.message ++ utf8 "\n"
    ++ d.sourceText source opts ++ d.notes.flatMap (noteText opts)

end Diagnostic

/-- A listing as text. -/
def Listing.text (listing : Listing) (opts : TextOptions) : Bytes :=
  listing.entries.flatMap fun d => d.text listing.source opts

end StoreLint
