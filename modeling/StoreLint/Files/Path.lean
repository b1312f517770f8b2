import StoreLint.Text.Bytes

/-!
# Paths

A path is written as names between slashes.  Cleaning a path drops empty names and single dots, and
lets a double dot take the name before it away; what is left is a `Path`, which goes up some times
and then down.  A path from the root does not go up.

* `Path.push` goes one name further, and `Path.mk` follows names one after the other.
* `Path.clean` cleans a written path, and `Path.text` writes it.
* `Path.directoryOf` is the directory that holds what a written path names.
* `Path.upward` lists a directory and the directories above it, as far as its names tell.
-/

namespace StoreLint

/-- A name that a directory can hold a file or a directory under. -/
structure Path.Proper (name : String) : Prop where
  nonempty : name ≠ ""
  not_dot : name ≠ "."
  not_double : name ≠ ".."
  not_slash : '/' ∉ name.toList

instance (name : String) : Decidable (Path.Proper name) :=
  decidable_of_iff (name ≠ "" ∧ name ≠ "." ∧ name ≠ ".." ∧ '/' ∉ name.toList)
    ⟨fun ⟨nonempty, not_dot, not_double, not_slash⟩ => ⟨nonempty, not_dot, not_double, not_slash⟩,
      fun h => ⟨h.nonempty, h.not_dot, h.not_double, h.not_slash⟩⟩

/-- A cleaned path. -/
structure Path where ofParts ::
  /-- Does the path start at the root? -/
  rooted : Bool
  /-- How often the path goes up. -/
  climbs : Nat
  /-- The names on the way down. -/
  below : List String
  /-- There is nothing above the root. -/
  climbs_of_rooted : rooted = true → climbs = 0
  proper : ∀ name ∈ below, Path.Proper name
  deriving DecidableEq, Repr

namespace Path

/-! ## Following names -/

/-- The path without names: the root or the working directory. -/
def start (rooted : Bool) : Path :=
  ⟨rooted, 0, [], fun _ => rfl, by simp⟩

/-- The names of a path, with a double dot for each time it goes up. -/
def names (p : Path) : List String :=
  List.replicate p.climbs ".." ++ p.below

/-- The directory above, found by dropping the last name; the path itself when it has no names. -/
def parent (p : Path) : Path where
  rooted := p.rooted
  climbs := if p.below = [] then p.climbs - 1 else p.climbs
  below := p.below.dropLast
  climbs_of_rooted h := by
    rw [p.climbs_of_rooted h]
    split <;> rfl
  proper name h := p.proper name (List.dropLast_subset p.below h)

/-- Goes up.  Nothing is above the root. -/
def up (p : Path) : Path :=
  if p.below ≠ [] then p.parent
  else if h : p.rooted = true then p
  else { p with climbs := p.climbs + 1, climbs_of_rooted := fun hrooted => absurd hrooted h }

/-- Goes down by a name. -/
def down (p : Path) (name : String) (h : Proper name) : Path :=
  { p with
    below := p.below ++ [name]
    proper := fun n hn => (List.mem_append.1 hn).elim (p.proper n) fun hlast =>
      List.mem_singleton.1 hlast ▸ h }

/-- Goes one name further.  What is neither a name nor a double dot does not lead any further. -/
def push (p : Path) (name : String) : Path :=
  if name = ".." then p.up
  else if h : Proper name then p.down name h
  else p

/-- The path along names, from the root or not. -/
def mk (rooted : Bool) (names : List String) : Path :=
  names.foldl push (start rooted)

/-! ## Written paths -/

/-- The names of a written path, which may be empty. -/
def segments (text : String) : List String :=
  (text.toList.splitOn '/').map String.ofList

/-- Does a written path start at the root? -/
def isRooted (text : String) : Bool :=
  text.toList.head? = some '/'

/-- Cleans a written path. -/
def clean (text : String) : Path :=
  mk (isRooted text) (segments text)

/-- The directory that holds what a written path names: all of the path up to its last slash. -/
def directoryOf (text : String) : Path :=
  mk (isRooted text) (segments text).dropLast

/-- A path as it is written. -/
def text (p : Path) : String :=
  if p.rooted then "/" ++ "/".intercalate p.names
  else if p.names = [] then "."
  else "/".intercalate p.names

theorem names_parent (p : Path) : p.parent.names = p.names.dropLast := by
  unfold names parent
  by_cases h : p.below = []
  · simp [h]
  · simp [h, List.dropLast_append_of_ne_nil]

/-- A path, its parent, and so on, to the path without names. -/
def upward (p : Path) : List Path :=
  if p.names = [] then [p] else p :: p.parent.upward
termination_by p.names.length
decreasing_by
  rw [names_parent, List.length_dropLast]
  have := List.length_pos_iff.mpr ‹p.names ≠ []›
  omega

/-- The last name of a written path. -/
def baseName (text : String) : String :=
  match (segments text).reverse.find? (· ≠ "") with
  | some name => name
  | none => if text = "" then "." else "/"

/-- The end of the last name of a written path, from its last dot on; empty without a dot. -/
def extension (text : String) : String :=
  let name := (segments text).getLast?.getD ""
  let pieces := name.toList.splitOn '.'
  if pieces.length ≤ 1 then "" else String.ofList ('.' :: pieces.getLast?.getD [])

end Path

end StoreLint
