/-!
# Text as bytes

Programs are read, and everything is printed, as sequences of bytes: columns count bytes, and a
program may hold bytes that are no text at all.  This file has the type and the few operations that
every other part uses.

* `Bytes`, and `utf8`, the bytes of a string of characters.
* `decimal`, a whole number in base ten.
* `lines`, the pieces between line feeds, and `trimEnd`, a text without some bytes at its end.
-/

namespace StoreLint

/-- A text: a finite sequence of bytes. -/
abbrev Bytes := List UInt8

/-- The UTF-8 form of a string. -/
def utf8 (s : String) : Bytes :=
  s.toList.flatMap String.utf8EncodeChar

/-- The UTF-8 form of one character. -/
def utf8Char (c : Char) : Bytes :=
  String.utf8EncodeChar c

/-! ## Numbers -/

/-- A natural number in base ten. -/
def digits (n : Nat) : Bytes :=
  (Nat.toDigits 10 n).map Char.toUInt8

/-- A whole number in base ten, with a leading minus when it is negative. -/
def decimal (n : Int) : Bytes :=
  if n < 0 then utf8 "-" ++ digits n.natAbs else digits n.natAbs

/-- The last `width` hexadecimal digits of `n`, in lower case. -/
def hexDigits (width n : Nat) : Bytes :=
  (List.range width).reverse.map fun i =>
    (Nat.digitChar (n / Nat.pow 16 i % 16)).toUInt8

/-! ## Pieces -/

/-- The separator is in no piece. -/
theorem not_mem_of_mem_splitOn {α : Type} [DecidableEq α] {sep : α} {xs piece : List α}
    (h : piece ∈ xs.splitOn sep) : sep ∉ piece := by
  induction xs generalizing piece with
  | nil =>
      rw [List.splitOn, List.splitOnP_nil, List.mem_singleton] at h
      simp [h]
  | cons x xs ih =>
      rw [List.splitOn_cons_eq_if_modifyHead] at h
      obtain ⟨first, rest, hsplit⟩ :=
        List.exists_cons_of_ne_nil (List.splitOnP_ne_nil (· == sep) xs)
      replace hsplit : xs.splitOn sep = first :: rest := hsplit
      split at h
      · rcases List.mem_cons.1 h with rfl | h
        · simp
        · exact ih h
      · rename_i hx
        rw [hsplit, List.modifyHead_cons] at h
        rcases List.mem_cons.1 h with rfl | h
        · have hfirst : sep ∉ first := ih (by simp [hsplit])
          simpa [hfirst] using fun heq : sep = x => hx (by simp [heq])
        · exact ih (by simp [hsplit, h])

/-- A text without the copies of a byte at its end. -/
def trimEnd (b : UInt8) (text : Bytes) : Bytes :=
  (text.reverse.dropWhile (· == b)).reverse

/-- The lines of a text: the pieces between line feeds. -/
def lines (text : Bytes) : List Bytes :=
  text.splitOn 0x0A

end StoreLint
