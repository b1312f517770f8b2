import StoreLint.Report.Data
import StoreLint.Text.Utf8

/-!
# Reports as JSON

A report is written over several lines, two spaces for each level, unless it is an empty list.
Characters that have a meaning in markup are escaped in texts, so that a report can be put into a
page as it is; so are the two line separators of Unicode.
-/

namespace StoreLint.Data

/-- A character of a JSON text. -/
def jsonChar (c : Char) : Bytes :=
  if c = '"' ∨ c = '\\' then utf8 "\\" ++ utf8Char c
  else if c = '\n' then utf8 "\\n"
  else if c = '\r' then utf8 "\\r"
  else if c = '\t' then utf8 "\\t"
  else if c = '\x08' then utf8 "\\b"
  else if c = '\x0c' then utf8 "\\f"
  else if c.toNat < 0x20 ∨ c = '<' ∨ c = '>' ∨ c = '&' ∨ c.toNat = 0x2028
      ∨ c.toNat = 0x2029 then
    utf8 "\\u" ++ hexDigits 4 c.toNat
  else utf8Char c

/-- A unit of a JSON text; a stray byte is written as the escaped replacement character. -/
def jsonScalar : Utf8.Scalar → Bytes
  | .char c => jsonChar c
  | .stray _ => utf8 "\\ufffd"

/-- A text between quotes. -/
def jsonText (t : Bytes) : Bytes :=
  utf8 "\"" ++ (Utf8.scalars t).flatMap jsonScalar ++ utf8 "\""

/-- The start of a line at a level. -/
def jsonLine (level : Nat) : Bytes :=
  utf8 "\n" ++ (List.replicate level (utf8 "  ")).flatten

mutual

/-- A report at a level. -/
def json (level : Nat) : Data → Bytes
  | .number n => decimal n
  | .text t => jsonText t
  | .list [] => utf8 "[]"
  | .list (item :: items) =>
    utf8 "[" ++ jsonLine (level + 1) ++ json (level + 1) item ++ jsonItems (level + 1) items
      ++ jsonLine level ++ utf8 "]"
  | .record [] => utf8 "\x7b\x7d"
  | .record ((name, value) :: fields) =>
    utf8 "\x7b" ++ jsonLine (level + 1) ++ jsonText (utf8 name) ++ utf8 ": "
      ++ json (level + 1) value ++ jsonFields (level + 1) fields ++ jsonLine level ++ utf8 "\x7d"

/-- The items of a list after the first. -/
def jsonItems (level : Nat) : List Data → Bytes
  | [] => []
  | item :: items => utf8 "," ++ jsonLine level ++ json level item ++ jsonItems level items

/-- The fields of a record after the first. -/
def jsonFields (level : Nat) : List (String × Data) → Bytes
  | [] => []
  | (name, value) :: fields =>
    utf8 "," ++ jsonLine level ++ jsonText (utf8 name) ++ utf8 ": " ++ json level value
      ++ jsonFields level fields

end

/-- A report as a JSON document. -/
def toJson (d : Data) : Bytes :=
  d.json 0 ++ utf8 "\n"

end StoreLint.Data
