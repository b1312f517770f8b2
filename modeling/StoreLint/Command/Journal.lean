import StoreLint.Analysis.Basic

/-!
# The journal

Each event is a line with a message and some named values.  A value that has a blank, a quote, an
equals sign or something unprintable in it stands between quotes.  A value of several lines stands
below its name, a bar before each line.
-/

namespace StoreLint.Journal

/-- Can the character stand in a value without quotes? -/
def isBare (c : Char) : Bool :=
  isPrintable c && !isSpace c && c != '"' && c != '='

/-- A character of a value with its unprintable characters escaped.  A backslash stands for
itself. -/
def escaped (c : Char) : Bytes :=
  if isPrintable c then utf8Char c
  else
    match controlLetter? c with
    | some letter => utf8 "\\" ++ utf8Char letter
    | none =>
      if c.toNat < 0x20 then utf8 "\\x" ++ hexDigits 2 c.toNat
      else if c.toNat < 0x10000 then utf8 "\\u" ++ hexDigits 4 c.toNat
      else utf8 "\\U" ++ hexDigits 8 c.toNat

/-- A character of a value between quotes. -/
def quotedPart (c : Char) : Bytes :=
  if c = '"' then utf8 "\\\"" else escaped c

/-- A value of one line, between quotes where it needs them. -/
def value (v : Bytes) : Bytes :=
  let cs := Utf8.lossy v
  if v = [] then utf8 "\"\""
  else if cs.all fun c => isBare c && c.toNat != 0xFFFD then v
  else utf8 "\"" ++ cs.flatMap quotedPart ++ utf8 "\""

/-- The lines of a value; a last line that is empty is left out.  The flag tells whether it is the
last value. -/
def barred (last : Bool) : List Bytes → Bytes
  | [] => []
  | [line] =>
    if line = [] then []
    else utf8 "  │ " ++ (Utf8.lossy line).flatMap escaped ++ utf8 (if last then "" else "\n")
  | line :: lines =>
    utf8 "  │ " ++ (Utf8.lossy line).flatMap escaped ++ utf8 "\n" ++ barred last lines

/-- Named values. -/
def values : List (String × Bytes) → Bytes
  | [] => []
  | (name, v) :: fields =>
    (if v.contains 0x0A then
      utf8 "\n  " ++ utf8 name ++ utf8 "=\n" ++ barred fields.isEmpty (lines v)
    else utf8 " " ++ utf8 name ++ utf8 "=" ++ value v) ++ values fields

/-- A line of the journal. -/
def line (message : String) (fields : List (String × Bytes)) : Bytes :=
  utf8 "DEBU deadstore: " ++ utf8 message ++ values fields ++ utf8 "\n"

/-- The line about a stage of an analysis, if lines are written by `line`. -/
def ofEvent (line : String → List (String × Bytes) → Bytes) : Event → Bytes
  | .tokenized tokens lines =>
    line "tokenized" [("tokens", digits tokens), ("lines", digits lines)]
  | .parsed statements assignments =>
    line "parsed" [("statements", digits statements), ("assignments", digits assignments)]
  | .checked deadStores => line "checked" [("deadStores", digits deadStores)]
  | .silenced deadStores =>
    line "checked" [("deadStores", digits 0), ("silenced", digits deadStores)]
  | .failed fault =>
    line "analysis failed" [("code", utf8 fault.code), ("line", decimal fault.position.line),
      ("column", decimal fault.position.column), ("err", fault.message)]

end StoreLint.Journal
