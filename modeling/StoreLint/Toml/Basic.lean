/-!
# TOML documents

A document is a table.  Its parts may be written in any order, so a document is built up: a value is
put under a dotted key, a table is opened by its header, and a table is added to an array of tables.

Whether something may be written again depends on how its path was written before.  A path that only
followed from another one is *implied*, and may be written once more: what is there already stays.
A path that was last given an array may be given anything else.

Main definitions:

* `Toml.Value`, a value as it is written, and `Toml`, a value as it is kept.
* `Toml.Draft`, a document as far as it has been built, with `Draft.establish` for the tables and
  `Draft.put` for the values in them.
* `Toml.Line` and `Toml.build?`, the lines of a document and the table they make.
-/

namespace StoreLint

/-- A value of a document. -/
inductive Toml where
  | string (s : String)
  | integer (n : Int)
  | float
  | boolean (b : Bool)
  | date
  | array (items : List Toml)
  /-- An array of tables, each opened by a header of its own, the last one first. -/
  | tables (last : List (String × Toml)) (earlier : List Toml)
  | table (fields : List (String × Toml))
  deriving Inhabited

namespace Toml

/-- A value as it is written. -/
inductive Value where
  /-- A value without parts. -/
  | simple (value : Toml)
  | array (items : List Value)
  /-- A table between braces: dotted keys and their values. -/
  | braces (fields : List (List String × Value))
  deriving Inhabited

/-- The names and values of a table. -/
abbrev Table := List (String × Toml)

/-- The names that lead from the document to one of its parts. -/
abbrev Path := List String

namespace Table

/-- Gives a name a value, in its old place if it has one. -/
def set (t : Table) (name : String) (value : Toml) : Table :=
  if (t.lookup name).isSome then
    t.map fun field => if field.1 = name then (name, value) else field
  else t ++ [(name, value)]

/-- Changes the table that a path leads to; an array of tables leads to its last table. -/
def modify? (t : Table) (f : Table → Option Table) : Path → Option Table
  | [] => f t
  | name :: path =>
    match t.lookup name with
    | some (.table inner) => (modify? inner f path).map fun inner => t.set name (.table inner)
    | some (.tables last earlier) =>
      (modify? last f path).map fun last => t.set name (.tables last earlier)
    | _ => none

/-- The value under a path; an array of tables leads to its last table. -/
def find? (t : Table) : Path → Option Toml
  | [] => some (.table t)
  | name :: path =>
    match t.lookup name with
    | some (.table inner) => if path.isEmpty then some (.table inner) else find? inner path
    | some (.tables last earlier) =>
      if path.isEmpty then some (.tables last earlier) else find? last path
    | some value => if path.isEmpty then some value else none
    | none => none

/-- Puts a value under a dotted key, whatever was there; the tables on the way are made if need
be. -/
def assign? (t : Table) (value : Toml) : Path → Option Table
  | [] => none
  | [name] => some (t.set name value)
  | name :: path =>
    match t.lookup name with
    | none => (assign? [] value path).map fun inner => t.set name (.table inner)
    | some (.table inner) => (assign? inner value path).map fun inner => t.set name (.table inner)
    | _ => none

end Table

/-! ## Building a document -/

/-- A document as far as it has been built. -/
structure Draft where
  /-- The whole document. -/
  all : Table
  /-- The path of the table to which values are added. -/
  here : Path
  /-- The paths that only followed from other ones. -/
  implied : List Path
  /-- The paths that were last given an array. -/
  arrays : List Path

/-- A step that builds a document and gives a value, or fails. -/
abbrev Building (α : Type) := StateT Draft Option α

namespace Draft

/-- Takes a path as one that only follows from others. -/
def imply (path : Path) : Building Unit :=
  modify fun d => { d with implied := path :: d.implied }

/-- Moves to the table at a path. -/
def moveTo (path : Path) : Building Unit :=
  modify fun d => { d with here := path }

/-- Notes whether the value of a name is an array.  Without a name, the table itself is meant. -/
def note (name : String) (isArray : Bool) : Building Unit :=
  modify fun d =>
    let path := if name.isEmpty ∧ !d.here.isEmpty then d.here else d.here ++ [name]
    let others := d.arrays.filter (· != path)
    { d with arrays := if isArray then path :: others else others }

/-- Puts a value under a name of the table that is open.  Where an array was, it takes its place;
where the path was only implied, what is there stays; anywhere else the name must be new. -/
def put (name : String) (value : Toml) : Building Unit := do
  let d ← get
  let path := d.here ++ [name]
  let implied := d.implied.filter (· != path)
  let replaces := d.arrays.contains path
  let set (t : Table) : Option Table :=
    if (t.lookup name).isNone || replaces then some (t.set name value)
    else if d.implied.contains path then some t
    else none
  let all ← d.all.modify? set d.here
  let isNew := (d.all.find? path).isNone
  StateT.set { d with all, implied := if isNew then d.implied else implied }

/-- Adds a table to the array of tables under a name of the table that is open. -/
def append (name : String) : Building Unit := do
  let d ← get
  let add (t : Table) : Option Table :=
    match t.lookup name with
    | none => some (t.set name (.tables [] []))
    | some (.tables last earlier) => some (t.set name (.tables [] (.table last :: earlier)))
    | _ => none
  let all ← d.all.modify? add d.here
  StateT.set { d with all }

/-- Makes the table at a path if there is nothing, as one that is implied. -/
def ensure (path : Path) : Building Unit := do
  let d ← get
  match d.all.find? path with
  | none =>
    imply path
    let all ← d.all.modify? (fun t => some (t.set (path.getLastD "") (.table []))) path.dropLast
    modify fun d => { d with all }
  | some (.table _) => pure ()
  | some (.tables _ _) => pure ()
  | some _ => failure

/-- Opens the table at a path, or adds one to the array of tables there. -/
def establish (path : Path) (isItem : Bool) : Building Unit := do
  let parents := path.dropLast
  let _ ← (List.range parents.length).mapM fun n => ensure (parents.take (n + 1))
  moveTo parents
  if isItem then append (path.getLastD "") else put (path.getLastD "") (.table [])
  moveTo path

/-- Opens the tables that lead to the last part of a dotted key. -/
def descend (key : Path) : Building Unit := do
  let _ ← key.dropLast.mapM fun name => do
    let path := (← get).here ++ [name]
    imply path
    establish path false

end Draft

open Draft

mutual

/-- The value that a written one stands for, under a name of the table that is open.  A table
between braces is built in its place while it is read; what is given is the table of its own
fields. -/
def evaluate (name : String) (inArray : Bool) : Value → Building Toml
  | .simple value => pure value
  | .array items => do
    note name true
    return .array (← evaluateItems name items)
  | .braces fields => do
    let outer := (← get).here
    let path := outer ++ [name]
    imply path
    establish path inArray
    let own ← evaluateFields path [] fields
    moveTo outer
    return .table own

/-- The items of an array. -/
def evaluateItems (name : String) : List Value → Building (List Toml)
  | [] => pure []
  | item :: items => do
    let value ← evaluate name true item
    return value :: (← evaluateItems name items)

/-- The fields of a table between braces, added to those before them. -/
def evaluateFields (path : Path) (own : Table) : List (Path × Value) → Building Table
  | [] => pure own
  | (key, written) :: fields => do
    let name := key.getLastD ""
    descend key
    let value ← evaluate name false written
    put name value
    note name (match written with | .array _ => true | _ => false)
    let own ← own.assign? value key
    moveTo path
    evaluateFields path own fields

end

/-! ## Documents -/

/-- A line of a document. -/
inductive Line where
  /-- A key and a value. -/
  | field (key : Path) (value : Value)
  /-- The header of a table. -/
  | header (path : Path)
  /-- The header of a table of an array. -/
  | item (path : Path)

/-- Adds a line to a document. -/
def Draft.add : Line → Building Unit
  | .field key written => do
    let outer := (← get).here
    let _ ← evaluateFields outer [] [(key, written)]
  | .header path => do
    establish path false
    note "" false
  | .item path => do
    establish path true
    note "" false

/-- The table that lines make. -/
def build? (lines : List Line) : Option Table := do
  let (_, d) ← (lines.mapM Draft.add).run ⟨[], [], [], []⟩
  return d.all

end Toml

end StoreLint
