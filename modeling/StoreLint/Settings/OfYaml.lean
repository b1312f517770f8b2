import StoreLint.Settings.Basic
import StoreLint.Text.Base64
import StoreLint.Yaml.Parser

/-!
# Settings in YAML

Settings are the entries of a mapping, or nothing at all.  Names are taken as they are written,
unknown ones are passed over, and no key may be given twice.  A scalar that stands for nothing
leaves a field open.

The key `<<` merges: the entries of the mapping behind it count too, after the other ones of the
same mapping.  An entry that was given already is not given again, and of several merged mappings
the first one with an entry gives it.

A document that consists of little else than repeated nodes is refused, so nodes are counted when
they are used.
-/

namespace StoreLint.Settings

open Yaml

/-! ## Scalars -/

/-- What a scalar stands for, and its text. -/
structure YamlScalar where
  meaning : Meaning
  text : String

/-- What a scalar stands for.  A tag must agree with it, except that every text is a string, and a
whole number may be taken for one with a fraction. -/
def yamlScalar? (s : Scalar) : Option YamlScalar :=
  let text := String.ofList s.text
  let as (m : Meaning) : Option YamlScalar := some ⟨m, text⟩
  match s.tag.map Utf8.toString? with
  | none =>
    if !s.plain then as .text
    else if text = "<<" then none
    else as (meaning s.text)
  | some (some "!!str") => as .text
  | some (some "!!binary") =>
    (Base64.decode? s.text).map fun bytes => ⟨.text, String.ofList (Utf8.lossy bytes)⟩
  | some (some name) =>
    match name, meaning s.text with
    | "!!null", .null => as .null
    | "!!bool", .boolean b => as (.boolean b)
    | "!!int", .integer n => as (.integer n)
    | "!!float", .float x => as (.float x)
    | "!!float", .integer n =>
      if n < Number.halfWord then
        (Binary64.ofRatio? (n < 0) n.natAbs 1).bind fun x => as (.float x)
      else none
    | "!!timestamp", .timestamp => as .timestamp
    | _, _ => none
  | some none => none

/-- A truth value, also by one of the older words for it. -/
def yamlBoolean? (s : YamlScalar) : Option Bool :=
  match s.meaning with
  | .boolean b => some b
  | .text => (oldBooleans.lookup s.text)
  | _ => none

/-- A whole number of 64 bits; a fraction is cut off. -/
def yamlInteger? (s : YamlScalar) : Option Int :=
  match s.meaning with
  | .integer n => if n < Number.halfWord then some n else none
  | .float x => x.toInt64?
  | _ => none

/-- The text of a scalar, whatever it stands for. -/
def yamlString? (s : YamlScalar) : Option String :=
  some s.text

/-! ## Using nodes -/

/-- How many nodes were used, and how many of them inside repeated ones. -/
structure Usage where
  all : Nat
  repeated : Nat
  /-- The number of repeated nodes around the one that is used. -/
  depth : Nat

/-- Are there too many repeated nodes?  The share that is allowed is 99 percent in a small document
and falls to 10 percent in a large one. -/
def Usage.isExcessive (u : Usage) : Bool :=
  let low := 400000
  let high := 4000000
  let span := high - low
  let allowed := -- in hundredths, times the span
    if u.all ≤ low then 99 * span
    else if high ≤ u.all then 10 * span
    else 99 * span - 89 * (u.all - low)
  100 < u.repeated && 1000 < u.all && u.all * allowed < u.repeated * 100 * span

/-- A step of reading settings from nodes, which may fail. -/
abbrev Use (α : Type) := StateT Usage Option α

/-- Counts a node. -/
def countNode : Use Unit := do
  let u ← get
  let u := { u with all := u.all + 1, repeated := u.repeated + if 0 < u.depth then 1 else 0 }
  if u.isExcessive then failure
  set u

/-- Uses a node; an alias is followed. -/
def useNode {α : Type} (named : List (Nat × Node)) (n : Node) (f : Node → Use α) : Use α := do
  countNode
  match n with
  | .alias _ number =>
    match named.lookup number with
    | some target =>
      modify fun u => { u with depth := u.depth + 1 }
      countNode
      let a ← f target
      modify fun u => { u with depth := u.depth - 1 }
      return a
    | none => failure
  | n => f n

/-- Uses a node as a scalar. -/
def useScalar (named : List (Nat × Node)) (n : Node) : Use YamlScalar :=
  useNode named n fun
    | .scalar s => yamlScalar? s
    | _ => failure

/-- Uses a node as a field, which stays open if there is nothing. -/
def useField {α : Type} (named : List (Nat × Node)) (read : YamlScalar → Option α) (n : Node) :
    Use (Option α) := do
  let s ← useScalar named n
  if s.meaning = .null then return none else return some (← read s)

/-! ## Mappings -/

/-- By what keys are compared: their form, and their text or name. -/
def yamlKey : Node → Nat × List Char
  | .scalar s => (0, s.text)
  | .sequence _ => (1, [])
  | .mapping _ => (2, [])
  | .alias name _ => (3, name.toList)

/-- Is no key given twice? -/
def distinctYamlKeys : List (Node × Node) → Bool
  | [] => true
  | (key, _) :: entries =>
    entries.all (fun entry => yamlKey entry.1 != yamlKey key) && distinctYamlKeys entries

/-- Does the key merge? -/
def isYamlMerge : Node → Bool
  | .scalar s =>
    s.text = ['<', '<'] && (if s.tag.isNone then s.plain else s.tag = some (utf8 "!!merge"))
  | _ => false

/-- Adds an entry to what was read from a mapping.  It is told the names before it in the same
mapping, and whether the mapping is merged into another one. -/
abbrev AddEntry (σ : Type) := (earlier : List String) → (merged : Bool) → String → Node → σ → Use σ

/-- What was read from the entries of a mapping. -/
structure Entries (σ : Type) where
  result : σ
  /-- The names that were read from this mapping. -/
  earlier : List String
  /-- The names that are not read again, when mappings are merged. -/
  given : Option (List String)

/-- Reads an entry.  One whose key stands for nothing is passed over. -/
def Entries.add {σ : Type} (named : List (Nat × Node)) (addEntry : AddEntry σ) (e : Entries σ)
    (entry : Node × Node) : Use (Entries σ) := do
  let name ← useScalar named entry.1
  if name.meaning = .null || (e.given.getD []).contains name.text then return e
  else
    let result ← addEntry e.earlier e.given.isSome name.text entry.2 e.result
    return ⟨result, name.text :: e.earlier, e.given.map (name.text :: ·)⟩

/-- The keys of a mapping that are strings. -/
def stringKeys (named : List (Nat × Node)) (entries : List (Node × Node)) : Use (List String) := do
  let keys ← entries.mapM fun (key, _) => do
    let s ← useScalar named key
    return if s.meaning = .text then [s.text] else []
  return keys.flatten

/-- The mappings that are merged: one, or those of a sequence. -/
def mergedNodes? (named : List (Nat × Node)) (n : Node) : Option (List Node) :=
  let isMapping (n : Node) : Bool :=
    match n with
    | .mapping _ => true
    | .alias _ number => match named.lookup number with
      | some (.mapping _) => true
      | _ => false
    | _ => false
  match n with
  | .sequence items => if items.all isMapping then some items else none
  | n => if isMapping n then some [n] else none

/-- Reads a mapping; `given` are the names that are not read again, if it is merged into another
one, and `bound` bounds the mappings that are merged into each other. -/
def useMapping {σ : Type} (named : List (Nat × Node)) (addEntry : AddEntry σ) :
    (bound : Nat) → Option (List String) → List (Node × Node) → σ → Use (Entries σ)
  | 0, _, _, _ => failure
  | bound + 1, given, entries, start => do
    if !distinctYamlKeys entries then failure
    let own := entries.filter fun entry => !isYamlMerge entry.1
    let e ← own.foldlM (Entries.add named addEntry) (⟨start, [], given⟩ : Entries σ)
    match entries.find? fun entry => isYamlMerge entry.1 with
    | none => return e
    | some (_, merged) =>
      let merge (e : Entries σ) (n : Node) : Use (Entries σ) :=
        useNode named n fun
          | .mapping entries => useMapping named addEntry bound e.given entries e.result
          | _ => failure
      let before ← match given with
        | none => stringKeys named own
        | some _ => pure (e.given.getD [])
      let after ← (← mergedNodes? named merged).foldlM merge { e with given := some before }
      return { after with given := given.bind fun _ => after.given }

/-! ## Settings -/

/-- Adds a rule.  A name that stands for nothing is empty, and gives way to one that is there when
mappings are merged. -/
def addYamlRule (named : List (Nat × Node)) : AddEntry (List (String × String)) :=
  fun _ merged code n rules => do
    let name ← useField named yamlString? n
    let others := rules.filter fun rule => rule.1 != code
    if name.isNone && merged && others.length < rules.length then return rules
    else return others ++ [(code, name.getD "")]

/-- The rules of a mapping, or none where there is nothing. -/
def useRules (named : List (Nat × Node)) (bound : Nat) (n : Node) : Use (List (String × String)) :=
  useNode named n fun
    | .mapping entries => do
      return (← useMapping named (addYamlRule named) bound none entries []).result
    | .scalar s => do
      if (← yamlScalar? s).meaning = .null then return [] else failure
    | _ => failure

/-- Adds a field of the settings, which must be new. -/
def addYamlField (named : List (Nat × Node)) (bound : Nat) : AddEntry Settings :=
  fun earlier _ name n s => do
    let fresh {α : Type} (use : Use α) : Use α := if earlier.contains name then failure else use
    let boolean := useField named yamlBoolean? n
    match name with
    | "format" => return { s with format := ← fresh (useField named yamlString? n) }
    | "color" => return { s with color := ← fresh boolean }
    | "sortByLine" => return { s with sortByLine := ← fresh boolean }
    | "failOnDeadStore" => return { s with failOnDeadStore := ← fresh boolean }
    | "showSource" => return { s with showSource := ← fresh boolean }
    | "indent" => return { s with indent := ← fresh (useField named yamlInteger? n) }
    | "rules" => return { s with rules := ← fresh (useRules named bound n) }
    | _ => return s

/-- The settings in a document. -/
def useSettings (d : Document) (bound : Nat) : Use Settings := do
  countNode
  useNode d.named d.root fun
    | .mapping entries => do
      return (← useMapping d.named (addYamlField d.named bound) bound none entries {}).result
    | .scalar s => do
      if (← yamlScalar? s).meaning = .null then return {} else failure
    | _ => failure

/-- The settings in a YAML text. -/
def ofYaml? (text : Bytes) : Option Settings := do
  match ← parse? text with
  | none => return {}
  | some d => return (← (useSettings d (text.length * (d.named.length + 1) + 1)).run ⟨0, 0, 0⟩).1

end StoreLint.Settings
