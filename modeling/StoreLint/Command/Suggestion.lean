import StoreLint.Text.Bytes
import StoreLint.Text.Case

/-!
# Suggestions for a mistyped word

A word is suggested for another one if it starts with it, or if at most two letters have to be put
in, taken out or changed; the case of letters does not matter.
-/

namespace StoreLint

section Distance

variable {α : Type} [DecidableEq α]

/-- One row of the table of distances: the distances from each front part of a word to a longer
front part of another word, which ends in `c`.  The arguments are the letters of the word, the row
for the shorter front part, and the distance just written. -/
def distanceRow (c : α) : List α → List Nat → Nat → List Nat
  | x :: xs, diagonal :: above :: row, left =>
    let d := if x = c then diagonal else min (min above left) diagonal + 1
    d :: distanceRow c xs (above :: row) d
  | _, _, _ => []

/-- The distances from each front part of a word to a whole other word. -/
def distances (s t : List α) : List Nat :=
  t.foldl (fun row c => (row.headD 0 + 1) :: distanceRow c s row (row.headD 0 + 1))
    (List.range (s.length + 1))

/-- The least number of letters to put in, take out or change to turn one word into another. -/
def editDistance (s t : List α) : Nat :=
  (distances s t).getLastD 0

end Distance

/-- A word as it is compared with words of ASCII: byte by byte, in lower case. -/
def comparedWord (word : String) : Bytes :=
  (word.toList.map sizedLower).flatMap utf8Char

/-- Is one word suggested for another that was typed? -/
def isSuggested (typed word : String) : Bool :=
  editDistance (comparedWord typed) (comparedWord word) ≤ 2
    || (comparedWord typed).isPrefixOf (comparedWord word)

/-- The words that are suggested for a typed one. -/
def suggestions (typed : String) (words : List String) : List String :=
  words.filter (isSuggested typed)

end StoreLint
