import StoreLint.Text.Bytes

/-!
# Comparing two texts line by line

Two texts are compared line by line, by number.  A line that is the same in both is shown once, else
the line of each text that has one, the expected before the actual.  A line that is not there counts
as an empty one in the comparison.
-/

namespace StoreLint

/-- A line of a comparison: a mark in front of it, and a line end after it. -/
def markedLine (mark : String) (line : Bytes) : Bytes :=
  utf8 mark ++ line ++ utf8 "\n"

/-- The comparison of the lines with one number. -/
def compareLine (expected actual : Option Bytes) : Bytes :=
  if expected.getD [] = actual.getD [] then markedLine " " (expected.getD [])
  else
    (match expected with
      | some line => markedLine "-" line
      | none => [])
    ++ (match actual with
      | some line => markedLine "+" line
      | none => [])

/-- The comparison of two lists of lines. -/
def compareLines : List Bytes → List Bytes → Bytes
  | [], [] => []
  | e :: expected, [] => compareLine (some e) none ++ compareLines expected []
  | [], a :: actual => compareLine none (some a) ++ compareLines [] actual
  | e :: expected, a :: actual => compareLine (some e) (some a) ++ compareLines expected actual

/-- The comparison of two texts, under a head of two lines. -/
def lineDiff (expected actual : Bytes) : Bytes :=
  utf8 "--- expected\n+++ actual\n" ++ compareLines (lines expected) (lines actual)

end StoreLint
