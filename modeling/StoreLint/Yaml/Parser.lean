import StoreLint.Yaml.Scanner

/-!
# Documents of a YAML stream

The nodes that the signs of a stream make, for the first document of it.  What stands after the end
of that document is looked at only as far as signs are found ahead.

A node may be given a name, an *anchor*, and stand again wherever an alias with that name follows,
even inside itself.  So an alias does not hold its node but its number among the named ones.

* `Node` are the nodes, and `Document` is a node with the named nodes in it.
* `parse?` is the first document of a stream.
-/

namespace StoreLint.Yaml

/-- A scalar of a document. -/
structure Scalar where
  /-- The tag that was given, if any, the standard ones in their short form. -/
  tag : Option Bytes
  /-- Is it written without quotes, and not as a block? -/
  plain : Bool
  text : List Char
  deriving DecidableEq, Repr

/-- A node of a document. -/
inductive Node where
  | scalar (s : Scalar)
  | sequence (items : List Node)
  | mapping (entries : List (Node × Node))
  /-- The node that has a name, by its number among the named ones. -/
  | alias (name : String) (number : Nat)
  deriving Inhabited

/-- The node that stands where nothing is written. -/
def Node.nothing : Node :=
  .scalar ⟨none, true, []⟩

/-- A document. -/
structure Document where
  root : Node
  /-- The named nodes, by their numbers. -/
  named : List (Nat × Node)

/-- The state of making nodes. -/
structure Composer where
  scanner : Scanner
  /-- What the handles of tags stand for. -/
  handles : List (Bytes × Bytes)
  /-- The names that were given, the last one first, and their numbers. -/
  names : List (String × Nat)
  /-- The named nodes that are complete. -/
  named : List (Nat × Node)

/-- A step of making nodes, which may fail. -/
abbrev Compose (α : Type) := StateT Composer Option α

namespace Compose

/-- The first sign that is not used. -/
def peek : Compose Token := do
  let c ← get
  let (t, scanner) ← Yaml.peek.run c.scanner
  set { c with scanner }
  return t

/-- Uses the first sign. -/
def advance : Compose Unit := do
  let c ← get
  let (_, scanner) ← Yaml.advance.run c.scanner
  set { c with scanner }

/-- Uses the first sign, and looks at the next one. -/
def next : Compose Token := do
  advance
  peek

/-! ## Tags and names -/

/-- The bytes with which the standard tags start. -/
def standardTag : Bytes :=
  utf8 "tag:yaml.org,2002:"

/-- The short form of a tag. -/
def shortTag (t : Bytes) : Bytes :=
  if standardTag.isPrefixOf t then utf8 "!!" ++ t.drop standardTag.length else t

/-- The tag with a handle and a rest. -/
def fullTag (handle rest : Bytes) : Compose Bytes := do
  if handle.isEmpty then return rest
  else
    match (← get).handles.lookup handle with
    | some meaning => if (meaning ++ rest).isEmpty then failure else return meaning ++ rest
    | none => failure

/-- What stands before a node: its name and its tag, in either order. -/
structure Properties where
  name : Option String := none
  tag : Option Bytes := none

/-- The name and the tag before a node. -/
def properties : Compose Properties := do
  match ← peek with
  | .anchor name =>
    match ← next with
    | .tag handle rest =>
      let _ ← next
      return ⟨some name, some (← fullTag handle rest)⟩
    | _ => return ⟨some name, none⟩
  | .tag handle rest =>
    match ← next with
    | .anchor name =>
      let _ ← next
      return ⟨some name, some (← fullTag handle rest)⟩
    | _ => return ⟨none, some (← fullTag handle rest)⟩
  | _ => return {}

/-- Makes a node with the given name.  The name can be used while the node is being made. -/
def withName (name : Option String) (make : Compose Node) : Compose Node := do
  match name with
  | none => make
  | some name =>
    let number := (← get).names.length
    modify fun c => { c with names := (name, number) :: c.names }
    let n ← make
    modify fun c => { c with named := (number, n) :: c.named }
    return n

/-- A scalar with a tag; the tag that is only an exclamation mark says nothing. -/
def scalarOf (tag : Option Bytes) (plain : Bool) (text : List Char) : Node :=
  .scalar ⟨(tag.filter (· != utf8 "!")).map shortTag, plain, text⟩

/-! ## Nodes -/

mutual

/-- A node; outside brackets it may be a list, and after a key also a sequence that is not
indented. -/
def node (block afterKey : Bool) : (bound : Nat) → Compose Node
  | 0 => failure
  | bound + 1 => do
    match ← peek with
    | .alias name =>
      match (← get).names.lookup name with
      | some number =>
        advance
        return .alias name number
      | none => failure
    | _ =>
      let p ← properties
      match ← peek with
      | .scalar plain text =>
        withName p.name do
          advance
          return scalarOf p.tag plain text
      | .flowSequenceStart =>
        withName p.name do
          advance
          return .sequence (← flowItems [] bound)
      | .flowMappingStart =>
        withName p.name do
          advance
          return .mapping (← flowEntries [] bound)
      | t =>
        if afterKey && t = .blockEntry then
          withName p.name do return .sequence (← looseItems [] bound)
        else if block && t = .blockSequenceStart then
          withName p.name do
            advance
            return .sequence (← blockItems [] bound)
        else if block && t = .blockMappingStart then
          withName p.name do
            advance
            return .mapping (← blockEntries [] bound)
        else if p.name.isSome || p.tag.isSome then
          withName p.name do return scalarOf p.tag true []
        else failure

/-- The items of an indented sequence; those before are given last one first. -/
def blockItems (before : List Node) : (bound : Nat) → Compose (List Node)
  | 0 => failure
  | bound + 1 => do
    match ← peek with
    | .blockEntry =>
      match ← next with
      | .blockEntry => blockItems (.nothing :: before) bound
      | .blockEnd => blockItems (.nothing :: before) bound
      | _ => blockItems ((← node true false bound) :: before) bound
    | .blockEnd =>
      advance
      return before.reverse
    | _ => failure

/-- The items of a sequence that is not indented. -/
def looseItems (before : List Node) : (bound : Nat) → Compose (List Node)
  | 0 => failure
  | bound + 1 => do
    match ← peek with
    | .blockEntry =>
      match ← next with
      | .blockEntry => looseItems (.nothing :: before) bound
      | .key => looseItems (.nothing :: before) bound
      | .value => looseItems (.nothing :: before) bound
      | .blockEnd => looseItems (.nothing :: before) bound
      | _ => looseItems ((← node true false bound) :: before) bound
    | _ => return before.reverse

/-- What stands after a sign of a mapping outside brackets: a node, or nothing. -/
def blockPart : (bound : Nat) → Compose Node
  | 0 => failure
  | bound + 1 => do
    match ← peek with
    | .key => return .nothing
    | .value => return .nothing
    | .blockEnd => return .nothing
    | _ => node true true bound

/-- The entries of a mapping outside brackets. -/
def blockEntries (before : List (Node × Node)) : (bound : Nat) → Compose (List (Node × Node))
  | 0 => failure
  | bound + 1 => do
    match ← peek with
    | .key =>
      advance
      let key ← blockPart bound
      match ← peek with
      | .value =>
        advance
        blockEntries ((key, ← blockPart bound) :: before) bound
      | _ => blockEntries ((key, .nothing) :: before) bound
    | .blockEnd =>
      advance
      return before.reverse
    | _ => failure

/-- The items of a sequence between brackets. -/
def flowItems (before : List Node) : (bound : Nat) → Compose (List Node)
  | 0 => failure
  | bound + 1 => do
    let t ← if before.isEmpty then peek else do
      match ← peek with
      | .flowSequenceEnd => pure .flowSequenceEnd
      | .flowEntry => next
      | _ => failure
    match t with
    | .flowSequenceEnd =>
      advance
      return before.reverse
    | .key =>
      advance
      flowItems (.mapping [← flowPair bound] :: before) bound
    | _ => flowItems ((← node false false bound) :: before) bound

/-- A key and its value as an item of a sequence between brackets.  Where the key is missing, the
sign in its place is used. -/
def flowPair : (bound : Nat) → Compose (Node × Node)
  | 0 => failure
  | bound + 1 => do
    let key ← match ← peek with
      | .value => advance; pure Node.nothing
      | .flowEntry => advance; pure Node.nothing
      | .flowSequenceEnd => advance; pure Node.nothing
      | _ => node false false bound
    match ← peek with
    | .value =>
      match ← next with
      | .flowEntry => return (key, .nothing)
      | .flowSequenceEnd => return (key, .nothing)
      | _ => return (key, ← node false false bound)
    | _ => return (key, .nothing)

/-- The entries of a mapping between braces. -/
def flowEntries (before : List (Node × Node)) : (bound : Nat) → Compose (List (Node × Node))
  | 0 => failure
  | bound + 1 => do
    let t ← if before.isEmpty then peek else do
      match ← peek with
      | .flowMappingEnd => pure .flowMappingEnd
      | .flowEntry => next
      | _ => failure
    match t with
    | .flowMappingEnd =>
      advance
      return before.reverse
    | .key =>
      advance
      flowEntries ((← flowEntry bound) :: before) bound
    | _ => flowEntries ((← node false false bound, .nothing) :: before) bound

/-- A key between braces and its value, after the sign of the key. -/
def flowEntry : (bound : Nat) → Compose (Node × Node)
  | 0 => failure
  | bound + 1 => do
    let key ← match ← peek with
      | .value => pure Node.nothing
      | .flowEntry => pure Node.nothing
      | .flowMappingEnd => pure Node.nothing
      | _ => node false false bound
    match ← peek with
    | .value =>
      match ← next with
      | .flowEntry => return (key, .nothing)
      | .flowMappingEnd => return (key, .nothing)
      | _ => return (key, ← node false false bound)
    | _ => return (key, .nothing)

end

/-! ## Documents -/

/-- The handles that are known without a directive. -/
def standardHandles : List (Bytes × Bytes) :=
  [(utf8 "!", utf8 "!"), (utf8 "!!", standardTag)]

/-- The directives before a document: at most one of the version, and one for each handle. -/
def directives (versioned : Bool) (handles : List (Bytes × Bytes)) : (bound : Nat) → Compose Unit
  | 0 => failure
  | bound + 1 => do
    match ← peek with
    | .version known =>
      if versioned || !known then failure
      advance
      directives true handles bound
    | .handle name meaning =>
      if (handles.lookup name).isSome then failure
      advance
      directives versioned (handles ++ [(name, meaning)]) bound
    | _ => modify fun c => { c with handles := handles ++ standardHandles }

/-- The node of a document after the mark that starts it. -/
def content (bound : Nat) : Compose Node := do
  match ← peek with
  | .version _ => return .nothing
  | .handle _ _ => return .nothing
  | .documentStart => return .nothing
  | .documentEnd => return .nothing
  | .streamEnd => return .nothing
  | _ => node true false bound

/-- The node of the first document, if there is one. -/
def root? (bound : Nat) : Compose (Option Node) := do
  let marked : Compose Node := do
    directives false [] bound
    match ← peek with
    | .documentStart =>
      advance
      content bound
    | _ => failure
  match ← peek with
  | .streamEnd => return none
  | .version _ => return some (← marked)
  | .handle _ _ => return some (← marked)
  | .documentStart => return some (← marked)
  | _ =>
    directives false [] bound
    return some (← node true false bound)

end Compose

/-- The first document of a stream, if there is one; none at all if it cannot be read. -/
def parse? (stream : Bytes) : Option (Option Document) := do
  let scanner := Scanner.start stream
  let make : Compose (Option Node) := do
    let root ← Compose.root? (4 * scanner.bound)
    let _ ← Compose.peek
    return root
  let (root, c) ← make.run ⟨scanner, [], [], []⟩
  return root.map fun root => ⟨root, c.named⟩

end StoreLint.Yaml
